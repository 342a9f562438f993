import Mathlib.Data.List.Basic

/-! Links that keep the order of what they convey but may lose some of it. What was sent is
either stored at the other end, or in flight, or was missed. -/

namespace LossyLink

variable {α : Type*}

structure Conveys (sent stored flight : List α) (missed : Nat) : Prop where
  order : (stored ++ flight).Sublist sent
  count : stored.length + flight.length + missed = sent.length

variable {sent stored flight : List α} {missed : Nat}

theorem conveys_nil : Conveys ([] : List α) [] [] 0 := ⟨List.Sublist.refl [], rfl⟩

theorem Conveys.send (h : Conveys sent stored flight missed) (xs : List α) :
    Conveys (sent ++ xs) stored (flight ++ xs) missed := by
  refine ⟨?_, ?_⟩
  · rw [← List.append_assoc]
    exact h.order.append_right xs
  · have := h.count
    simp only [List.length_append]
    omega

theorem Conveys.store {a : α} (h : Conveys sent stored (a :: flight) missed) :
    Conveys sent (stored ++ [a]) flight missed := by
  refine ⟨?_, ?_⟩
  · rw [List.append_assoc]
    exact h.order
  · have := h.count
    simp only [List.length_append, List.length_cons, List.length_nil] at this ⊢
    omega

theorem Conveys.miss {xs ys zs : List α} (h : Conveys sent stored (xs ++ ys ++ zs) missed) :
    Conveys sent stored (xs ++ zs) (missed + ys.length) := by
  refine ⟨?_, ?_⟩
  · refine List.Sublist.trans ?_ h.order
    exact ((List.sublist_append_left xs ys).append_right zs).append_left stored
  · have := h.count
    simp only [List.length_append] at this ⊢
    omega

theorem Conveys.stored_sublist (h : Conveys sent stored flight missed) : stored.Sublist sent :=
  (List.sublist_append_left stored flight).trans h.order

/-- Without a loss everything is stored or in flight. -/
theorem Conveys.lossless (h : Conveys sent stored flight 0) : stored ++ flight = sent := by
  refine h.order.eq_of_length ?_
  rw [List.length_append]
  exact h.count

end LossyLink

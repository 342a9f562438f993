import Mathlib.Tactic.Common

/-! A concatenation of blocks of one length, read by position. -/

namespace Blocks

variable {α : Type*}

theorem getElem?_flatten {L : List (List α)} {n : Nat} (h : ∀ b ∈ L, b.length = n) (m j : Nat)
    (hj : j < n) : L.flatten[n * m + j]? = L[m]?.bind (·[j]?) := by
  induction L generalizing m with
  | nil => simp
  | cons b L ih =>
    have hb : b.length = n := h b (by simp)
    cases m with
    | zero =>
      rw [Nat.mul_zero, Nat.zero_add, List.flatten_cons, List.getElem?_append_left (by omega)]
      rfl
    | succ m =>
      have hpos : n * (m + 1) + j = b.length + (n * m + j) := by
        rw [hb, Nat.mul_add]
        omega
      rw [hpos, List.flatten_cons, List.getElem?_append_right (by omega), Nat.add_sub_cancel_left,
        ih (fun c hc => h c (by simp [hc]))]
      rfl

end Blocks

import Mathlib.Data.List.Chain
import Mathlib.Tactic.Common

/-! Times that stand at least a given gap apart, and how many of them fit into a window. -/

namespace Spacing

def Apart (gap : Nat) (ts : List Nat) : Prop := ts.IsChain (fun a b => a + gap ≤ b)

theorem Apart.pairwise {gap : Nat} {ts : List Nat} (h : Apart gap ts) :
    ts.Pairwise (fun a b => a + gap ≤ b) := by
  have htrans : IsTrans Nat (fun a b => a + gap ≤ b) := ⟨fun a b c hab hbc => by omega⟩
  exact List.isChain_iff_pairwise.mp h

theorem add_mul_le_of_pairwise {gap t u : Nat} {ts : List Nat}
    (h : (t :: ts).Pairwise (fun a b => a + gap ≤ b)) (hu : u ∈ (t :: ts).getLast?) :
    t + gap * ts.length ≤ u := by
  induction ts generalizing t with
  | nil =>
    cases hu
    simp
  | cons s ts ih =>
    have hts := ih (List.pairwise_cons.mp h).2 (by simpa using hu)
    have hs := (List.pairwise_cons.mp h).1 s (by simp)
    rw [List.length_cons, Nat.mul_succ]
    omega

/-- A window holds no more times than gaps fit into it, and one. -/
theorem Apart.countP_window {gap : Nat} {ts : List Nat} (h : Apart gap ts) (hgap : 0 < gap)
    (start width : Nat) :
    ts.countP (fun t => start ≤ t ∧ t < start + width) ≤ width / gap + 1 := by
  rw [List.countP_eq_length_filter]
  have hpairwise := h.pairwise.sublist (List.filter_sublist (p := fun t => start ≤ t ∧
    t < start + width))
  have hwindow : ∀ t ∈ ts.filter (fun t => start ≤ t ∧ t < start + width), start ≤ t ∧
      t < start + width := by
    intro t ht
    simpa using (List.mem_filter.mp ht).2
  generalize ts.filter (fun t => start ≤ t ∧ t < start + width) = us at hpairwise hwindow
  cases us with
  | nil => simp
  | cons t us =>
    obtain ⟨u, hu⟩ : ∃ u, (t :: us).getLast? = some u := ⟨_, List.getLast?_eq_some_getLast (by simp)⟩
    have hspan := add_mul_le_of_pairwise hpairwise hu
    have ht := hwindow t (by simp)
    have hlast := hwindow u (List.mem_of_getLast? hu)
    have hmul : us.length * gap ≤ width := by
      rw [Nat.mul_comm]
      omega
    have := (Nat.le_div_iff_mul_le hgap).mpr hmul
    rw [List.length_cons]
    omega

end Spacing

import Mathlib.Algebra.Order.Field.Basic
import Mathlib.Tactic.FieldSimp
import Mathlib.Tactic.Linarith
import Mathlib.Tactic.Positivity
import Mathlib.Tactic.Ring

/-! Saturation to a symmetric range, and the proportional-integral loop that
restarts its integral whenever the command saturates. -/

namespace Saturation

variable {K : Type*} [Field K] [LinearOrder K] [IsStrictOrderedRing K]

def clamp (m a : K) : K := max (-m) (min m a)

theorem clamp_of_abs_le {m a : K} (h : |a| ≤ m) : clamp m a = a := by
  obtain ⟨hlo, hhi⟩ := abs_le.mp h
  rw [clamp, min_eq_right hhi, max_eq_right hlo]

theorem clamp_of_le {m a : K} (hm : 0 ≤ m) (h : m ≤ a) : clamp m a = m := by
  rw [clamp, min_eq_left h, max_eq_right (by linarith)]

theorem clamp_neg (m a : K) (hm : 0 ≤ m) : clamp m (-a) = -clamp m a := by
  rcases le_total |a| m with h | h
  · rw [clamp_of_abs_le h, clamp_of_abs_le (by rwa [abs_neg])]
  rcases le_abs.mp h with ha | ha
  · rw [clamp_of_le hm ha, clamp, min_eq_right (by linarith), max_eq_left (by linarith)]
  · rw [clamp_of_le hm ha, clamp, min_eq_right (by linarith), max_eq_left (by linarith), neg_neg]

theorem abs_clamp_le {m : K} (hm : 0 ≤ m) (a : K) : |clamp m a| ≤ m :=
  abs_le.mpr ⟨le_max_left _ _, max_le (by linarith) (min_le_left _ _)⟩

theorem clamp_pos_iff {m : K} (hm : 0 < m) (a : K) : 0 < clamp m a ↔ 0 < a := by
  simp only [clamp, lt_max_iff, lt_min_iff, hm, true_and, Left.neg_pos_iff]
  constructor
  · rintro (h | h)
    · exact absurd h hm.le.not_gt
    · exact h
  · exact Or.inr

theorem clamp_mul_nonpos_iff {m : K} (hm : 0 < m) (a b : K) : clamp m a * b ≤ 0 ↔ a * b ≤ 0 := by
  have hneg : clamp m a < 0 ↔ a < 0 := by
    simpa only [clamp_neg m a hm.le, Left.neg_pos_iff] using clamp_pos_iff hm (-a)
  have hpos := clamp_pos_iff hm a
  rw [← not_lt, ← not_lt, mul_pos_iff, mul_pos_iff, hneg, hpos]

structure PI (K : Type*) [Field K] [LinearOrder K] where
  kP : K
  kI : K
  limit : K
  kI_pos : 0 < kI
  kI_le_kP : kI ≤ kP
  limit_pos : 0 < limit

namespace PI

variable (g : PI K)

omit [IsStrictOrderedRing K] in
theorem kP_pos : 0 < g.kP := g.kI_pos.trans_le g.kI_le_kP

def bound : K := g.limit / g.kI

omit [IsStrictOrderedRing K] in
theorem kI_mul_bound : g.kI * g.bound = g.limit := mul_div_cancel₀ _ g.kI_pos.ne'

abbrev Integral : Type _ := {I : K // |I| ≤ g.bound}

def zero : g.Integral := ⟨0, by simpa [bound] using (div_pos g.limit_pos g.kI_pos).le⟩

def demand (e : K) (I : g.Integral) : K := g.kP * e + g.kI * I.val

def command (e : K) (I : g.Integral) : K := clamp g.limit (g.demand e I)

theorem abs_kI_mul_le (I : g.Integral) : |g.kI * I.val| ≤ g.limit := by
  have h := mul_le_mul_of_nonneg_left I.property g.kI_pos.le
  rw [abs_mul, abs_of_pos g.kI_pos]
  exact h.trans_eq g.kI_mul_bound

/-- The new contribution lies between the old one and the unsaturated command. -/
theorem abs_add_le_bound {e : K} {I : g.Integral} (h : |g.demand e I| ≤ g.limit) :
    |e + I.val| ≤ g.bound := by
  obtain ⟨hlo, hhi⟩ := abs_le.mp h
  obtain ⟨hIlo, hIhi⟩ := abs_le.mp (g.abs_kI_mul_le I)
  have hkI := g.kI_pos
  have hle := g.kI_le_kP
  rw [demand] at hlo hhi
  refine le_of_mul_le_mul_left ?_ hkI
  rw [g.kI_mul_bound, ← abs_of_pos hkI, ← abs_mul, mul_add]
  rcases le_total 0 e with he | he
  · have := mul_le_mul_of_nonneg_right hle he
    have := mul_nonneg hkI.le he
    exact abs_le.mpr ⟨by linarith, by linarith⟩
  · have := mul_le_mul_of_nonpos_right hle he
    have := mul_nonpos_of_nonneg_of_nonpos hkI.le he
    exact abs_le.mpr ⟨by linarith, by linarith⟩

def next (e : K) (I : g.Integral) : g.Integral :=
  if h : |g.demand e I| ≤ g.limit then ⟨e + I.val, g.abs_add_le_bound h⟩ else g.zero

theorem demand_pos {e : K} (I : g.Integral) (he : g.limit / g.kP < e) : 0 < g.demand e I := by
  have hI := (abs_le.mp (g.abs_kI_mul_le I)).1
  have he' := (div_lt_iff₀ g.kP_pos).mp he
  rw [demand]
  linarith [mul_comm e g.kP]

theorem demand_neg {e : K} (I : g.Integral) (he : e < -(g.limit / g.kP)) : g.demand e I < 0 := by
  have hI := (abs_le.mp (g.abs_kI_mul_le I)).2
  have he' := (div_lt_iff₀ g.kP_pos).mp (show g.limit / g.kP < -e by linarith)
  rw [demand]
  linarith [mul_comm e g.kP]

theorem command_pos {e : K} (I : g.Integral) (he : g.limit / g.kP < e) : 0 < g.command e I :=
  (clamp_pos_iff g.limit_pos _).mpr (g.demand_pos I he)

theorem command_neg {e : K} (I : g.Integral) (he : e < -(g.limit / g.kP)) : g.command e I < 0 := by
  have h := (clamp_pos_iff g.limit_pos (-g.demand e I)).mpr (by linarith [g.demand_neg I he])
  rw [clamp_neg _ _ g.limit_pos.le] at h
  exact neg_pos.mp h

theorem command_eq_limit {e : K} (I : g.Integral) (he : 2 * g.limit / g.kP ≤ e) :
    g.command e I = g.limit := by
  have hI := (abs_le.mp (g.abs_kI_mul_le I)).1
  have he' := (div_le_iff₀ g.kP_pos).mp he
  apply clamp_of_le g.limit_pos.le
  rw [demand]
  linarith [mul_comm e g.kP]

theorem command_eq_neg_limit {e : K} (I : g.Integral) (he : e ≤ -(2 * g.limit / g.kP)) :
    g.command e I = -g.limit := by
  have hI := (abs_le.mp (g.abs_kI_mul_le I)).2
  have he' := (div_le_iff₀ g.kP_pos).mp (show 2 * g.limit / g.kP ≤ -e by linarith)
  have h := clamp_of_le g.limit_pos.le (show g.limit ≤ -g.demand e I by
    rw [demand]
    linarith [mul_comm e g.kP])
  rw [clamp_neg _ _ g.limit_pos.le] at h
  exact neg_eq_iff_eq_neg.mp h

end PI

end Saturation

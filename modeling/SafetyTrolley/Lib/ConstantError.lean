import Mathlib.Algebra.Order.Floor.Semiring
import SafetyTrolley.Lib.Saturation

/-! The proportional-integral loop under an error that does not change. The
integral climbs until the command saturates, is restarted, and climbs again. -/

namespace Saturation

variable {K : Type*} [Field K] [LinearOrder K] [IsStrictOrderedRing K]

theorem abs_clamp {m : K} (hm : 0 ≤ m) (a : K) : |clamp m a| = min m |a| := by
  rcases le_total |a| m with h | h
  · rw [clamp_of_abs_le h, min_eq_right h]
  · rw [min_eq_left h]
    rcases le_total 0 a with ha | ha
    · rw [clamp_of_le hm (by rwa [abs_of_nonneg ha] at h), abs_of_nonneg hm]
    · have hneg := clamp_of_le hm (show m ≤ -a by rwa [abs_of_nonpos ha] at h)
      rw [clamp_neg m a hm] at hneg
      rw [← abs_neg, hneg, abs_of_nonneg hm]

namespace PI

variable (g : PI K)

def integralAt (e : K) (n : ℕ) : g.Integral := (g.next e)^[n] g.zero

def commandAt (e : K) (n : ℕ) : K := g.command e (g.integralAt e n)

theorem integralAt_succ (e : K) (n : ℕ) : g.integralAt e (n + 1) = g.next e (g.integralAt e n) :=
  Function.iterate_succ_apply' _ _ _

theorem next_val (e : K) (I : g.Integral) :
    (g.next e I).val = if |g.demand e I| ≤ g.limit then e + I.val else 0 := by
  rw [next]
  split_ifs <;> rfl

theorem abs_demand_of_val {e : K} {I : g.Integral} {r : ℕ} (hI : I.val = r * e) :
    |g.demand e I| = (g.kP + r * g.kI) * |e| := by
  have hpos : 0 ≤ g.kP + r * g.kI :=
    add_nonneg g.kP_pos.le (mul_nonneg (Nat.cast_nonneg r) g.kI_pos.le)
  have hfactor : g.demand e I = (g.kP + r * g.kI) * e := by
    rw [demand, hI]
    ring
  rw [hfactor, abs_mul, abs_of_nonneg hpos]

theorem abs_command (e : K) (I : g.Integral) : |g.command e I| = min g.limit |g.demand e I| :=
  abs_clamp g.limit_pos.le _

theorem integralAt_val_of_large {e : K} (hlarge : g.limit < g.kP * |e|) (n : ℕ) :
    (g.integralAt e n).val = 0 := by
  induction n with
  | zero => rfl
  | succ n ih =>
    have hzero : (g.integralAt e n).val = (0 : ℕ) * e := by
      rw [ih, Nat.cast_zero, zero_mul]
    rw [integralAt_succ, next_val, g.abs_demand_of_val hzero, if_neg (by simpa using hlarge)]

theorem integralAt_zero (n : ℕ) : (g.integralAt 0 n).val = 0 := by
  induction n with
  | zero => rfl
  | succ n ih =>
    rw [integralAt_succ, next_val, ih, add_zero, ite_self]

variable [FloorSemiring K]

/-- After how many steps the integral of a small error is back at zero. -/
def period (e : K) : ℕ := ⌊(g.limit / |e| - g.kP) / g.kI⌋₊ + 2

theorem demand_le_iff {e : K} (he : 0 < |e|) (hsmall : g.kP * |e| ≤ g.limit) (r : ℕ) :
    (g.kP + r * g.kI) * |e| ≤ g.limit ↔ r + 1 < g.period e := by
  have hroom : 0 ≤ (g.limit / |e| - g.kP) / g.kI :=
    div_nonneg (sub_nonneg.mpr ((le_div_iff₀ he).mpr hsmall)) g.kI_pos.le
  rw [period, ← le_div_iff₀ he, ← le_sub_iff_add_le', ← le_div_iff₀ g.kI_pos,
    ← Nat.le_floor_iff hroom]
  omega

/-- The sawtooth: the integral counts the steps since its last restart. -/
theorem integralAt_val {e : K} (he : 0 < |e|) (hsmall : g.kP * |e| ≤ g.limit) (n : ℕ) :
    (g.integralAt e n).val = (n % g.period e : ℕ) * e := by
  have hperiod : 0 < g.period e := Nat.succ_pos _
  induction n with
  | zero => simp [integralAt, zero]
  | succ n ih =>
    have hlt := Nat.mod_lt n hperiod
    rw [integralAt_succ, next_val, g.abs_demand_of_val ih]
    simp only [g.demand_le_iff he hsmall]
    split_ifs with hmore
    · have hmod : (n + 1) % g.period e = n % g.period e + 1 := by
        rw [Nat.add_mod, Nat.mod_eq_of_lt (show 1 < g.period e by omega), Nat.mod_eq_of_lt hmore]
      rw [ih, hmod]
      push_cast
      ring
    · have hmod : (n + 1) % g.period e = 0 := by
        rw [← Nat.mod_add_mod, show n % g.period e + 1 = g.period e by omega, Nat.mod_self]
      rw [hmod, Nat.cast_zero, zero_mul]

theorem abs_commandAt {e : K} (he : 0 < |e|) (hsmall : g.kP * |e| ≤ g.limit) (n : ℕ) :
    |g.commandAt e n| = min g.limit ((g.kP + (n % g.period e : ℕ) * g.kI) * |e|) := by
  rw [commandAt, abs_command, g.abs_demand_of_val (g.integralAt_val he hsmall n)]

theorem commandAt_of_large {e : K} (hlarge : g.limit ≤ g.kP * |e|) (n : ℕ) :
    |g.commandAt e n| = g.limit := by
  rcases hlarge.eq_or_lt with heq | hlt
  · have he : 0 < |e| := pos_of_mul_pos_right (heq ▸ g.limit_pos) g.kP_pos.le
    rw [g.abs_commandAt he heq.ge, min_eq_left]
    have hI := mul_nonneg (mul_nonneg (Nat.cast_nonneg (n % g.period e)) g.kI_pos.le) he.le
    linarith [add_mul g.kP ((n % g.period e : ℕ) * g.kI) |e|]
  · have hzero : (g.integralAt e n).val = (0 : ℕ) * e := by
      rw [g.integralAt_val_of_large hlt n, Nat.cast_zero, zero_mul]
    rw [commandAt, abs_command, g.abs_demand_of_val hzero, min_eq_left]
    simpa using hlt.le

/-- A restart takes the command from its limit down to the proportional part. -/
theorem commandAt_restart {e : K} (he : 0 < |e|) (hsmall : g.kP * |e| ≤ g.limit) {n : ℕ}
    (hn : g.period e ∣ n + 1) :
    |g.commandAt e n| = g.limit ∧ |g.commandAt e (n + 1)| = g.kP * |e| := by
  have hperiod : 0 < g.period e := Nat.succ_pos _
  have hlast : n % g.period e + 1 = g.period e := by
    have hlt := Nat.mod_lt n hperiod
    have hzero : (n % g.period e + 1) % g.period e = 0 := by
      rw [Nat.mod_add_mod]
      exact Nat.mod_eq_zero_of_dvd hn
    by_contra hne
    rw [Nat.mod_eq_of_lt (by omega)] at hzero
    omega
  constructor
  · have hover : ¬ (g.kP + (n % g.period e : ℕ) * g.kI) * |e| ≤ g.limit := by
      rw [g.demand_le_iff he hsmall, hlast]
      exact lt_irrefl _
    rw [g.abs_commandAt he hsmall, min_eq_left (not_le.mp hover).le]
  · rw [g.abs_commandAt he hsmall, Nat.mod_eq_zero_of_dvd hn, Nat.cast_zero, zero_mul, add_zero,
      min_eq_right hsmall]

theorem commandAt_climb {e : K} (he : 0 < |e|) (hsmall : g.kP * |e| ≤ g.limit) {n : ℕ}
    (hn : ¬ g.period e ∣ n + 1) : |g.commandAt e n| ≤ |g.commandAt e (n + 1)| := by
  have hmod : (n + 1) % g.period e = n % g.period e + 1 := by
    have hlt := Nat.mod_lt n (show 0 < g.period e from Nat.succ_pos _)
    rw [← Nat.mod_add_mod, Nat.mod_eq_of_lt]
    by_contra hno
    refine hn (Nat.dvd_of_mod_eq_zero ?_)
    rw [← Nat.mod_add_mod, show n % g.period e + 1 = g.period e by omega, Nat.mod_self]
  rw [g.abs_commandAt he hsmall, g.abs_commandAt he hsmall, hmod]
  refine min_le_min_left _ (mul_le_mul_of_nonneg_right ?_ he.le)
  push_cast
  linarith [g.kI_pos]

/-- The command does not drop from one step to the next, except where a small
error has just had its integral restarted. -/
theorem commandAt_le_iff (e : K) (n : ℕ) :
    |g.commandAt e n| ≤ |g.commandAt e (n + 1)| ↔ e = 0 ∨ g.limit ≤ g.kP * |e| ∨
      ¬ g.period e ∣ n + 1 := by
  rcases eq_or_ne e 0 with rfl | hne
  · refine iff_of_true (le_of_eq ?_) (Or.inl rfl)
    simp only [commandAt, command, demand, integralAt_zero]
  rcases lt_or_ge g.limit (g.kP * |e|) with hlarge | hsmall
  · refine iff_of_true (le_of_eq ?_) (Or.inr (Or.inl hlarge.le))
    rw [g.commandAt_of_large hlarge.le, g.commandAt_of_large hlarge.le]
  have he : 0 < |e| := abs_pos.mpr hne
  by_cases hn : g.period e ∣ n + 1
  · obtain ⟨hlimit, hdown⟩ := g.commandAt_restart he hsmall hn
    rw [hlimit, hdown]
    simp [hne, hn]
  · exact iff_of_true (g.commandAt_climb he hsmall hn) (Or.inr (Or.inr hn))

end PI

end Saturation

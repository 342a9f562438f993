import Mathlib.Algebra.Order.Group.Abs
import Mathlib.Algebra.Order.Ring.Int
import Mathlib.Tactic.Common

/-! Recovering a position from its remainder. A signal that moves by less
than half a turn between two samples is followed exactly by counting the
jumps of its remainder over half a turn. -/

namespace Unwrap

def turn (half last raw : Int) : Int :=
  if raw - last > half then -1 else if raw - last < -half then 1 else 0

/-- One sample: the counted turn accounts for the whole movement. -/
theorem turn_exact (half : Int) {p p' : Int} (hstep : |p' - p| < half) :
    2 * half * turn half (p % (2 * half)) (p' % (2 * half)) +
      p' % (2 * half) - p % (2 * half) = p' - p := by
  obtain ⟨hlo, hhi⟩ := abs_lt.mp hstep
  have hpos : 0 < 2 * half := by omega
  have hp := Int.mul_ediv_add_emod p (2 * half)
  have hp' := Int.mul_ediv_add_emod p' (2 * half)
  have hr := Int.emod_nonneg p hpos.ne'
  have hr' := Int.emod_nonneg p' hpos.ne'
  have hlt := Int.emod_lt_of_pos p hpos
  have hlt' := Int.emod_lt_of_pos p' hpos
  -- The quotients differ by at most one, and the jump of the remainder says which way.
  have hq : 2 * half * (p' / (2 * half) - p / (2 * half)) =
      p' - p - (p' % (2 * half) - p % (2 * half)) := by
    rw [Int.mul_sub]
    omega
  generalize p' / (2 * half) - p / (2 * half) = q at hq
  generalize p % (2 * half) = r at *
  generalize p' % (2 * half) = r' at *
  have hcases : q = -1 ∨ q = 0 ∨ q = 1 := by
    have h1 : q < 2 := by
      by_contra h
      have := Int.mul_le_mul_of_nonneg_left (show 2 ≤ q by omega) hpos.le
      omega
    have h2 : -2 < q := by
      by_contra h
      have := Int.mul_le_mul_of_nonneg_left (show q ≤ -2 by omega) hpos.le
      omega
    omega
  unfold turn
  rcases hcases with rfl | rfl | rfl <;> split_ifs <;> omega

end Unwrap

import Mathlib.Algebra.Order.BigOperators.Group.List
import Mathlib.Algebra.Order.Ring.Nat
import Mathlib.Tactic.Common

/-! Sums accumulated in a 16-bit word, which are exact up to its range. -/

namespace Accumulate

def accumulate (xs : List UInt16) : UInt16 := xs.foldl (· + ·) 0

def total (xs : List UInt16) : Nat := (xs.map UInt16.toNat).sum

theorem foldl_add {xs : List UInt16} {a : UInt16} (h : a.toNat + total xs < 65536) :
    (xs.foldl (· + ·) a).toNat = a.toNat + total xs := by
  induction xs generalizing a with
  | nil => rfl
  | cons x xs ih =>
    have hcons : total (x :: xs) = x.toNat + total xs := by simp [total]
    have hadd : (a + x).toNat = a.toNat + x.toNat := by
      rw [UInt16.toNat_add]
      omega
    rw [List.foldl_cons, ih (by omega), hadd, hcons, Nat.add_assoc]

theorem accumulate_exact {xs : List UInt16} (h : total xs < 65536) :
    (accumulate xs).toNat = total xs := by
  have hfold : (xs.foldl (· + ·) 0).toNat = (0 : UInt16).toNat + total xs :=
    foldl_add (by simpa using h)
  simpa [accumulate] using hfold

theorem total_le {xs : List UInt16} {m : Nat} (h : ∀ x ∈ xs, x.toNat ≤ m) :
    total xs ≤ xs.length * m := by
  have hsum := List.sum_le_card_nsmul (xs.map UInt16.toNat) m (by simpa using h)
  simpa [total] using hsum

end Accumulate

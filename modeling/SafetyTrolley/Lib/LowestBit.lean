import Mathlib.Data.List.Sort

/-! The lowest set bit of a machine word, isolated by the two's complement
identity `x & -x`, and the set bits in the order in which they come out of it. -/

namespace LowestBit

variable {w : Nat}

def lowest (x : BitVec w) : BitVec w := x &&& -x

theorem getLsbD_lowest (x : BitVec w) (i : Nat) :
    (lowest x).getLsbD i = true ↔ x.getLsbD i = true ∧ ∀ j < i, x.getLsbD j = false := by
  rw [lowest, BitVec.getLsbD_and, BitVec.getLsbD_neg]
  have hlt : x.getLsbD i = true → i < w := BitVec.lt_of_getLsbD
  by_cases hx : x.getLsbD i = true
  · have hnone : (¬ ∃ j < i, x.getLsbD j = true) ↔ ∀ j < i, x.getLsbD j = false := by
      simp
    simp only [hx, hlt hx, Bool.true_and, decide_true, Bool.true_xor, Bool.not_eq_true',
      decide_eq_false_iff_not, true_and, hnone]
  · simp [hx]

/-- The lowest bit as what clearing it takes away. -/
theorem xor_and_pred (x : BitVec w) : x ^^^ (x &&& (x - 1#w)) = lowest x := by
  rw [lowest, ← BitVec.not_neg]
  ext i hi
  simp only [BitVec.getElem_xor, BitVec.getElem_and, BitVec.getElem_not]
  cases x[i] <;> simp

theorem lowest_unique {x : BitVec w} {i j : Nat} (hi : (lowest x).getLsbD i = true)
    (hj : (lowest x).getLsbD j = true) : i = j := by
  obtain ⟨hxi, hbi⟩ := (getLsbD_lowest x i).mp hi
  obtain ⟨hxj, hbj⟩ := (getLsbD_lowest x j).mp hj
  rcases Nat.lt_trichotomy i j with h | h | h
  · simp [hbj i h] at hxi
  · exact h
  · simp [hbi j h] at hxj

theorem getLsbD_clear (x : BitVec w) (i : Nat) :
    (x &&& ~~~lowest x).getLsbD i = true ↔ x.getLsbD i = true ∧ (lowest x).getLsbD i = false := by
  rw [BitVec.getLsbD_and, BitVec.getLsbD_not]
  have hlt : x.getLsbD i = true → i < w := BitVec.lt_of_getLsbD
  by_cases hx : x.getLsbD i = true
  · simp [hx, hlt hx]
  · simp [hx]

/-- A bit that is left when the lowest one is cleared has a lower one. -/
theorem exists_below {x : BitVec w} {i : Nat} (h : (x &&& ~~~lowest x).getLsbD i = true) :
    ∃ j < i, x.getLsbD j = true := by
  obtain ⟨hup, hnot⟩ := (getLsbD_clear x i).mp h
  by_contra hnone
  have hdown : ∀ j < i, x.getLsbD j = false := by simpa using hnone
  rw [(getLsbD_lowest x i).mpr ⟨hup, hdown⟩] at hnot
  cases hnot

theorem clear_or_lowest (x : BitVec w) : x &&& ~~~lowest x ||| lowest x = x := by
  apply BitVec.eq_of_getLsbD_eq
  intro i _
  have hclear := getLsbD_clear x i
  have hlow := getLsbD_lowest x i
  rw [BitVec.getLsbD_or]
  cases hx : x.getLsbD i <;> cases h : (lowest x).getLsbD i <;> simp_all

theorem lowest_eq_twoPow {x : BitVec w} {i : Nat} (hi : (lowest x).getLsbD i = true) :
    lowest x = BitVec.twoPow w i := by
  apply BitVec.eq_of_getLsbD_eq
  intro j hj
  rw [BitVec.getLsbD_twoPow]
  by_cases hij : i = j
  · subst j
    simp [hi, hj]
  · have hne : (lowest x).getLsbD j = false := by
      by_contra h
      exact hij (lowest_unique hi (by simpa using h))
    simp [hne, hij]

theorem clear_of_down {x : BitVec w} {i : Nat} (h : x.getLsbD i = false) :
    x &&& ~~~BitVec.twoPow w i = x := by
  apply BitVec.eq_of_getLsbD_eq
  intro j hj
  rw [BitVec.getLsbD_and, BitVec.getLsbD_not, BitVec.getLsbD_twoPow]
  by_cases hij : i = j
  · rw [← hij, h, Bool.false_and]
  · simp [hij, hj]

theorem exists_lowest {x : BitVec w} (h : x ≠ 0) : ∃ i, (lowest x).getLsbD i = true := by
  have hup : ∃ i, x.getLsbD i = true := by
    by_contra hnone
    exact h (BitVec.eq_of_getLsbD_eq fun i _ => by simpa using not_exists.mp hnone i)
  exact ⟨Nat.find hup, (getLsbD_lowest x _).mpr ⟨Nat.find_spec hup,
    fun j hj => by simpa using Nat.find_min hup hj⟩⟩

/-- The positions of the set bits, in ascending order. -/
def setBits (x : BitVec w) : List Nat := (List.range w).filter x.getLsbD

theorem mem_setBits {x : BitVec w} {i : Nat} : i ∈ setBits x ↔ x.getLsbD i = true := by
  rw [setBits, List.mem_filter, List.mem_range]
  exact and_iff_right_of_imp BitVec.lt_of_getLsbD

theorem pairwise_setBits (x : BitVec w) : (setBits x).Pairwise (· < ·) :=
  List.pairwise_lt_range.filter _

theorem setBits_eq_cons {x : BitVec w} {i : Nat} (hi : (lowest x).getLsbD i = true) :
    setBits x = i :: setBits (x &&& ~~~lowest x) := by
  have hup := ((getLsbD_lowest x i).mp hi).1
  have habove : ∀ j ∈ setBits (x &&& ~~~lowest x), i < j := by
    intro j hj
    obtain ⟨k, hkj, hk⟩ := exists_below (mem_setBits.mp hj)
    by_contra hle
    rw [((getLsbD_lowest x i).mp hi).2 k (by omega)] at hk
    cases hk
  refine (pairwise_setBits x).eq_of_mem_iff
    (List.pairwise_cons.mpr ⟨habove, pairwise_setBits _⟩) fun j => ?_
  rw [List.mem_cons, mem_setBits, mem_setBits, getLsbD_clear]
  constructor
  · intro hj
    cases hlow : (lowest x).getLsbD j with
    | true => exact Or.inl (lowest_unique hlow hi)
    | false => exact Or.inr ⟨hj, rfl⟩
  · rintro (rfl | ⟨hj, -⟩)
    · exact hup
    · exact hj

/-- The set bits in ascending order, each as a word of its own. -/
def bits (x : BitVec w) : List (BitVec w) := (setBits x).map (BitVec.twoPow w)

theorem bits_zero : bits (0 : BitVec w) = [] := by
  simp [bits, setBits]

theorem bits_eq_cons {x : BitVec w} (h : x ≠ 0) : bits x = lowest x :: bits (x &&& ~~~lowest x) := by
  obtain ⟨i, hi⟩ := exists_lowest h
  rw [bits, setBits_eq_cons hi, List.map_cons, ← lowest_eq_twoPow hi, bits]

theorem pairwise_bits (x : BitVec w) : (bits x).Pairwise (· < ·) := by
  refine List.pairwise_map.mpr ((pairwise_setBits x).imp_of_mem ?_)
  intro i j hi hj hij
  rw [BitVec.lt_def, BitVec.toNat_twoPow_of_lt (BitVec.lt_of_getLsbD (mem_setBits.mp hi)),
    BitVec.toNat_twoPow_of_lt (BitVec.lt_of_getLsbD (mem_setBits.mp hj))]
  exact Nat.pow_lt_pow_right (by omega) hij

theorem getLast?_bits {x a : BitVec w} :
    (bits x).getLast? = some a ↔ a ∈ bits x ∧ ∀ b ∈ bits x, b ≤ a := by
  rw [List.getLast?_eq_some_iff]
  constructor
  · rintro ⟨l, hl⟩
    have hsorted := pairwise_bits x
    rw [hl, List.pairwise_append] at hsorted
    rw [hl]
    refine ⟨by simp, fun b hb => ?_⟩
    rcases List.mem_append.mp hb with hb | hb
    · exact BitVec.le_of_lt (hsorted.2.2 b hb a (List.mem_singleton_self a))
    · exact BitVec.le_of_eq (List.mem_singleton.mp hb)
  · rintro ⟨ha, hmax⟩
    obtain ⟨l, l', hl⟩ := List.append_of_mem ha
    cases l' with
    | nil => exact ⟨l, hl⟩
    | cons b l' =>
      have hlt : a < b := by
        have hsorted := pairwise_bits x
        rw [hl, List.pairwise_append] at hsorted
        exact List.rel_of_pairwise_cons hsorted.2.1 List.mem_cons_self
      have hle := hmax b (by simp [hl])
      exact absurd hlt (BitVec.not_lt.mpr hle)

end LowestBit

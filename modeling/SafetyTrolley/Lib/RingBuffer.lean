import Mathlib.Algebra.Order.Ring.Nat
import Mathlib.Tactic.SplitIfs

/-! Ring buffers. Two pointers go round an array, and a counter tells a full ring from
an empty one; the elements in between are read in the order in which they were written. -/

structure RingBuffer (α : Type*) (n : Nat) where
  buffer : Vector α n
  wrptr : Fin n
  rdptr : Fin n
  counter : Nat

namespace RingBuffer

variable {α : Type*} {n : Nat}

/-- The pointer behind `p`, which is the start of the array behind its last element. -/
def next (p : Fin n) : Fin n := if h : p.val + 1 < n then ⟨p.val + 1, h⟩ else ⟨0, p.pos⟩

def ahead (p : Fin n) (i : Nat) : Fin n := ⟨(p.val + i) % n, Nat.mod_lt _ p.pos⟩

def isEmpty (r : RingBuffer α n) : Bool := r.counter = 0

def isFull (r : RingBuffer α n) : Bool := r.wrptr = r.rdptr ∧ r.counter ≠ 0

def put (r : RingBuffer α n) (a : α) : RingBuffer α n :=
  { r with
    buffer := r.buffer.set r.wrptr a
    wrptr := next r.wrptr
    counter := r.counter + 1 }

def front (r : RingBuffer α n) : α := r.buffer[r.rdptr]

def drop (r : RingBuffer α n) : RingBuffer α n :=
    { r with rdptr := next r.rdptr, counter := r.counter - 1 }

def start (buffer : Vector α n) (h : 0 < n) : RingBuffer α n where
  buffer := buffer
  wrptr := ⟨0, h⟩
  rdptr := ⟨0, h⟩
  counter := 0

/-- The elements in the order in which they will be read. -/
def toList (r : RingBuffer α n) : List α := (List.range r.counter).map fun i =>
    r.buffer[ahead r.rdptr i]

/-- The counter is the distance of the pointers, or the size for a full ring. -/
structure Valid (r : RingBuffer α n) : Prop where
  wrptr : r.wrptr = ahead r.rdptr r.counter
  counter_le : r.counter ≤ n

theorem ahead_zero (p : Fin n) : ahead p 0 = p := by
  ext
  simp [ahead, Nat.mod_eq_of_lt p.isLt]

theorem next_eq (p : Fin n) : next p = ahead p 1 := by
  ext
  unfold next ahead
  split_ifs with h
  · exact (Nat.mod_eq_of_lt h).symm
  · have : p.val + 1 = n := by omega
    simp [this]

theorem ahead_ahead (p : Fin n) (i j : Nat) : ahead (ahead p i) j = ahead p (i + j) := by
  ext
  simp [ahead, Nat.add_assoc]

/-- Fewer steps than the size of the ring end at different places. -/
theorem ahead_inj {p : Fin n} {i j : Nat} (hi : i < n) (hj : j < n) (h : ahead p i = ahead p j) :
    i = j := by
  have hmod : (p.val + i) % n = (p.val + j) % n := congrArg Fin.val h
  have hp := p.isLt
  have hwrap : ∀ k < n, (p.val + k) % n = if p.val + k < n then p.val + k else p.val + k - n := by
    intro k hk
    split_ifs with hlt
    · exact Nat.mod_eq_of_lt hlt
    · rw [Nat.mod_eq_sub_mod (Nat.le_of_not_lt hlt), Nat.mod_eq_of_lt (by omega)]
  rw [hwrap i hi, hwrap j hj] at hmod
  split_ifs at hmod <;> omega

theorem ahead_size (p : Fin n) : ahead p n = p := by
  ext
  simp [ahead, Nat.mod_eq_of_lt p.isLt]

@[simp] theorem length_toList (r : RingBuffer α n) : r.toList.length = r.counter := by
  simp [toList]

theorem valid_start (buffer : Vector α n) (h : 0 < n) : (start buffer h).Valid :=
  ⟨(ahead_zero _).symm, Nat.zero_le n⟩

theorem Valid.isFull_iff {r : RingBuffer α n} (h : r.Valid) : r.isFull = true ↔ r.counter = n := by
  rw [isFull, decide_eq_true_eq, h.wrptr]
  constructor
  · rintro ⟨heq, hne⟩
    by_contra hlt
    exact hne (ahead_inj (by have := h.counter_le; omega) r.rdptr.pos (heq.trans (ahead_zero _).symm))
  · intro heq
    rw [heq]
    exact ⟨ahead_size _, r.rdptr.pos.ne'⟩

theorem Valid.put {r : RingBuffer α n} (h : r.Valid) (hroom : r.counter < n) (a : α) :
    (r.put a).Valid := by
  refine ⟨?_, hroom⟩
  change next r.wrptr = ahead r.rdptr (r.counter + 1)
  rw [next_eq, h.wrptr, ahead_ahead]

theorem Valid.toList_put {r : RingBuffer α n} (h : r.Valid) (hroom : r.counter < n) (a : α) :
    (r.put a).toList = r.toList ++ [a] := by
  change (List.range (r.counter + 1)).map (fun i => (r.buffer.set r.wrptr a)[ahead r.rdptr i]) = _
  rw [List.range_succ, List.map_append, toList]
  congr 1
  · -- the places read before are not the one that is written
    refine List.map_congr_left fun i hi => ?_
    have hne : (r.wrptr : Nat) ≠ ahead r.rdptr i := by
      intro heq
      rw [h.wrptr] at heq
      have := ahead_inj hroom ((List.mem_range.mp hi).trans hroom) (Fin.ext heq)
      have := List.mem_range.mp hi
      omega
    exact Vector.getElem_set_ne _ _ hne
  · simp [← h.wrptr]

theorem isEmpty_iff (r : RingBuffer α n) : r.isEmpty = true ↔ r.toList = [] := by
  rw [← List.length_eq_zero_iff, length_toList, isEmpty, decide_eq_true_eq]

theorem toList_eq_cons {r : RingBuffer α n} (h : r.counter ≠ 0) :
    r.toList = r.front :: r.drop.toList := by
  obtain ⟨c, hc⟩ := Nat.exists_eq_succ_of_ne_zero h
  have hdrop : r.drop.counter = c := by simp [drop, hc]
  rw [toList, toList, hdrop, hc, List.range_succ_eq_map, List.map_cons, List.map_map]
  congr 1
  · simp [front, ahead_zero]
  · refine List.map_congr_left fun i _ => ?_
    change r.buffer[ahead r.rdptr (i + 1)] = r.buffer[ahead (next r.rdptr) i]
    simp only [next_eq, ahead_ahead, Nat.add_comm 1 i]

theorem Valid.drop {r : RingBuffer α n} (h : r.Valid) (hne : r.counter ≠ 0) : r.drop.Valid := by
  refine ⟨?_, (Nat.sub_le _ _).trans h.counter_le⟩
  change r.wrptr = ahead (next r.rdptr) (r.counter - 1)
  rw [next_eq, ahead_ahead, h.wrptr]
  congr 1
  omega

end RingBuffer

import Mathlib.Data.List.Sort

/-! Delta lists. Every entry counts from the one before it and the first one from
a base time, so that a list stands for the times of its entries in ascending order. -/

namespace DeltaList

variable {ι : Type*}

/-- The entries with the times that they stand for. -/
def times : Nat → List (ι × Nat) → List (ι × Nat)
  | _, [] => []
  | base, (i, d) :: xs => (i, base + d) :: times (base + d) xs

/-- A new entry stands before those of its own time. -/
def link (i : ι) : Nat → List (ι × Nat) → List (ι × Nat)
  | d, [] => [(i, d)]
  | d, (j, e) :: xs => if e < d then (j, e) :: link i (d - e) xs else (i, d) :: (j, e - d) :: xs

def addFirst (d : Nat) : List (ι × Nat) → List (ι × Nat)
  | [] => []
  | (i, e) :: xs => (i, e + d) :: xs

/-- The entry that follows the removed one takes over its delta. -/
def unlink [DecidableEq ι] (i : ι) : List (ι × Nat) → List (ι × Nat)
  | [] => []
  | (j, e) :: xs => if j = i then addFirst e xs else (j, e) :: unlink i xs

@[simp] theorem times_nil (base : Nat) : times base ([] : List (ι × Nat)) = [] := rfl

@[simp] theorem times_cons (base d : Nat) (i : ι) (xs : List (ι × Nat)) :
    times base ((i, d) :: xs) = (i, base + d) :: times (base + d) xs := rfl

theorem map_fst_times (base : Nat) (xs : List (ι × Nat)) :
    (times base xs).map Prod.fst = xs.map Prod.fst := by
  induction xs generalizing base with
  | nil => rfl
  | cons x xs ih =>
    obtain ⟨i, d⟩ := x
    simp [ih]

theorem le_of_mem_times {base : Nat} {xs : List (ι × Nat)} {x : ι × Nat} (h : x ∈ times base xs) :
    base ≤ x.2 := by
  induction xs generalizing base with
  | nil => simp at h
  | cons y xs ih =>
    obtain ⟨i, d⟩ := y
    rw [times_cons, List.mem_cons] at h
    rcases h with rfl | h
    · simp
    · exact (Nat.le_add_right base d).trans (ih h)

theorem pairwise_times (base : Nat) (xs : List (ι × Nat)) :
    (times base xs).Pairwise (fun x y => x.2 ≤ y.2) := by
  induction xs generalizing base with
  | nil => simp
  | cons x xs ih =>
    obtain ⟨i, d⟩ := x
    rw [times_cons, List.pairwise_cons]
    exact ⟨fun y hy => le_of_mem_times hy, ih _⟩

theorem exists_head?_le {xs : List (ι × Nat)} (h : xs.Pairwise (fun x y => x.2 ≤ y.2)) {x : ι × Nat}
    (hx : x ∈ xs) : ∃ y ∈ xs.head?, y.2 ≤ x.2 := by
  cases xs with
  | nil => simp at hx
  | cons y xs =>
    refine ⟨y, by simp, ?_⟩
    rcases List.mem_cons.mp hx with rfl | hx
    · exact Nat.le_refl _
    · exact (List.pairwise_cons.mp h).1 x hx

theorem times_addFirst (base d : Nat) (xs : List (ι × Nat)) :
    times base (addFirst d xs) = times (base + d) xs := by
  cases xs with
  | nil => rfl
  | cons x xs =>
    obtain ⟨i, e⟩ := x
    simp only [addFirst, times_cons, Nat.add_assoc, Nat.add_comm d e]

theorem times_link (base : Nat) (i : ι) (d : Nat) (xs : List (ι × Nat)) :
    times base (link i d xs) =
      (times base xs).orderedInsert (fun x y => x.2 ≤ y.2) (i, base + d) := by
  induction xs generalizing base d with
  | nil => rfl
  | cons x xs ih =>
    obtain ⟨j, e⟩ := x
    by_cases h : e < d
    · have hsum : base + e + (d - e) = base + d := by omega
      simp [link, h, ih, hsum]
    · have hsum : base + d + (e - d) = base + e := by omega
      have hle : d ≤ e := Nat.le_of_not_lt h
      simp [link, h, hsum, hle]

theorem times_unlink [DecidableEq ι] (base : Nat) (i : ι) (xs : List (ι × Nat)) :
    times base (unlink i xs) = (times base xs).eraseP (fun x => x.1 = i) := by
  induction xs generalizing base with
  | nil => rfl
  | cons x xs ih =>
    obtain ⟨j, e⟩ := x
    by_cases h : j = i
    · simp [unlink, h, times_addFirst]
    · simp [unlink, h, ih]

end DeltaList

import Mathlib.Data.List.Sort

/-! Lists in descending order of priority, with insertion behind or ahead of the
elements of the same priority. -/

namespace PriorityList

variable {α : Type*} (prio : α → Nat)

def Sorted (xs : List α) : Prop := xs.Pairwise (fun a b => prio b ≤ prio a)

def insertBehind (a : α) (xs : List α) : List α := xs.orderedInsert (fun a b => prio b < prio a) a

def insertAhead (a : α) (xs : List α) : List α := xs.orderedInsert (fun a b => prio b ≤ prio a) a

variable {prio}

theorem perm_insertBehind (a : α) (xs : List α) : (insertBehind prio a xs).Perm (a :: xs) :=
  List.perm_orderedInsert _ a xs

theorem perm_insertAhead (a : α) (xs : List α) : (insertAhead prio a xs).Perm (a :: xs) :=
  List.perm_orderedInsert _ a xs

theorem insertBehind_eq_cons {a : α} {xs : List α} (h : ∀ b ∈ xs, prio b < prio a) :
    insertBehind prio a xs = a :: xs := by
  cases xs with
  | nil => rfl
  | cons b xs =>
    rw [insertBehind, List.orderedInsert_cons, if_pos (h b List.mem_cons_self)]

theorem Sorted.insertBehind {xs : List α} (h : Sorted prio xs) (a : α) :
    Sorted prio (insertBehind prio a xs) := by
  induction xs with
  | nil => exact List.pairwise_singleton _ _
  | cons b xs ih =>
    obtain ⟨hb, hxs⟩ := List.pairwise_cons.mp h
    rw [PriorityList.insertBehind, List.orderedInsert_cons]
    split_ifs with hlt
    · refine List.pairwise_cons.mpr ⟨?_, h⟩
      intro c hc
      rcases List.mem_cons.mp hc with rfl | hc
      · exact hlt.le
      · exact (hb c hc).trans hlt.le
    · refine List.pairwise_cons.mpr ⟨?_, ih hxs⟩
      intro c hc
      rcases List.mem_cons.mp ((perm_insertBehind a xs).mem_iff.mp hc) with rfl | hc
      · exact Nat.le_of_not_lt hlt
      · exact hb c hc

theorem Sorted.insertAhead {xs : List α} (h : Sorted prio xs) (a : α) :
    Sorted prio (insertAhead prio a xs) := by
  induction xs with
  | nil => exact List.pairwise_singleton _ _
  | cons b xs ih =>
    obtain ⟨hb, hxs⟩ := List.pairwise_cons.mp h
    rw [PriorityList.insertAhead, List.orderedInsert_cons]
    split_ifs with hle
    · refine List.pairwise_cons.mpr ⟨?_, h⟩
      intro c hc
      rcases List.mem_cons.mp hc with rfl | hc
      · exact hle
      · exact (hb c hc).trans hle
    · refine List.pairwise_cons.mpr ⟨?_, ih hxs⟩
      intro c hc
      rcases List.mem_cons.mp ((perm_insertAhead a xs).mem_iff.mp hc) with rfl | hc
      · exact (Nat.lt_of_not_le hle).le
      · exact hb c hc

theorem sublist_insertBehind (a : α) (xs : List α) : List.Sublist xs (insertBehind prio a xs) :=
  List.sublist_orderedInsert a xs

theorem sublist_insertAhead (a : α) (xs : List α) : List.Sublist xs (insertAhead prio a xs) :=
  List.sublist_orderedInsert a xs

/-- An element goes behind those of its own priority that are there already. -/
theorem Sorted.pair_sublist_insertBehind {a u : α} {xs : List α} (h : Sorted prio xs) (hu : u ∈ xs)
    (hle : prio a ≤ prio u) : List.Sublist [u, a] (PriorityList.insertBehind prio a xs) := by
  induction xs with
  | nil => cases hu
  | cons b xs ih =>
    obtain ⟨hb, hxs⟩ := List.pairwise_cons.mp h
    have hub : prio u ≤ prio b := by
      rcases List.mem_cons.mp hu with rfl | hu
      · exact le_rfl
      · exact hb u hu
    rw [PriorityList.insertBehind, List.orderedInsert_cons, if_neg (hle.trans hub).not_gt]
    rcases List.mem_cons.mp hu with rfl | hu
    · refine List.Sublist.cons_cons _ (List.singleton_sublist.mpr ?_)
      exact (perm_insertBehind a xs).mem_iff.mpr List.mem_cons_self
    · exact (ih hxs hu).cons b

end PriorityList

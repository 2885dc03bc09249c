import Mathlib.Data.List.Sort

/-!
# Choices from sorted lists

The insertion sort is stable, so that it commutes with the filters of a list.  Of the safe
choices from a list, the one which takes each element in turn, as long as the choice stays
safe, is the best when what comes first in the list counts most.
-/

namespace StableSort

variable {α : Type*} {r : α → α → Prop} [DecidableRel r] [IsTrans α r] [Std.Total r]

omit [IsTrans α r] [Std.Total r] in
theorem orderedInsert_of_forall {a : α} {l : List α} (h : ∀ b ∈ l, r a b) :
  l.orderedInsert r a = a :: l
  := by
  obtain _ | ⟨b, l⟩ := l
  · rfl
  · apply List.orderedInsert_cons_of_le
    apply h b List.mem_cons_self

omit [Std.Total r] in
/-- An element which is kept is inserted among the kept ones; another one leaves no trace. -/
theorem filter_orderedInsert (p : α → Bool) (a : α) {l : List α} (hl : l.Pairwise r) :
  (l.orderedInsert r a).filter p
    = if p a then (l.filter p).orderedInsert r a else l.filter p
  := by
  induction l with
  | nil => cases hp : p a <;> simp [hp]
  | cons b l ih =>
    obtain ⟨hb, hl⟩ := List.pairwise_cons.mp hl
    by_cases hab : r a b
    · have hfilter : ∀ x ∈ (b :: l).filter p, r a x := by
        intro x hx
        obtain rfl | hx := List.mem_cons.mp (List.mem_of_mem_filter hx)
        · exact hab
        · apply IsTrans.trans a b x hab (hb x hx)
      rw [List.orderedInsert_cons_of_le r l hab, orderedInsert_of_forall hfilter]
      rw [List.filter_cons]
    · rw [List.orderedInsert_of_not_le r l hab, List.filter_cons, ih hl, List.filter_cons]
      by_cases hpb : p b
      · by_cases hpa : p a
        · simp only [hpa, hpb, if_true]
          rw [List.orderedInsert_of_not_le r _ hab]
        · simp only [hpa, hpb, if_true]
          rfl
      · simp only [hpb]
        rfl

theorem filter_insertionSort (p : α → Bool) (l : List α) :
  (l.insertionSort r).filter p = (l.filter p).insertionSort r
  := by
  induction l with
  | nil => rfl
  | cons a l ih =>
    rw [List.insertionSort_cons, filter_orderedInsert p a (List.pairwise_insertionSort r l), ih]
    rw [List.filter_cons]
    split <;> rfl

/-! ### The greedy choice -/

/-- The choice `chosen` from a list is better than the choice `other`: it takes the first
element on which the two differ. -/
def Better {α : Type*} (l chosen other : List α) : Prop :=
  ∃ before a after common rest rest', l = before ++ a :: after ∧
    chosen = common ++ a :: rest ∧ other = common ++ rest' ∧
    common.Sublist before ∧ rest.Sublist after ∧ rest'.Sublist after

/-- The elements which are chosen from a list, beside those already taken, when each
element is taken as long as this is safe. -/
inductive Greedy {α : Type*} (Safe : List α → Prop) : List α → List α → List α → Prop where
  | nil {taken : List α} : Greedy Safe taken [] []
  | take {taken l chosen : List α} {a : α} (safe : Safe (taken ++ [a]))
      (rest : Greedy Safe (taken ++ [a]) l chosen) : Greedy Safe taken (a :: l) (a :: chosen)
  | leave {taken l chosen : List α} {a : α} (notSafe : ¬ Safe (taken ++ [a]))
      (rest : Greedy Safe taken l chosen) : Greedy Safe taken (a :: l) chosen

namespace Better

variable {α : Type*} {l chosen other : List α}

theorem cons (a : α) (h : Better l chosen other) :
  Better (a :: l) (a :: chosen) (a :: other)
  := by
  obtain ⟨before, b, after, common, rest, rest', rfl, rfl, rfl, hcommon, hrest, hrest'⟩ := h
  exact ⟨a :: before, b, after, a :: common, rest, rest', rfl, rfl, rfl, hcommon.cons_cons a,
    hrest, hrest'⟩

theorem skip (a : α) (h : Better l chosen other) :
  Better (a :: l) chosen other
  := by
  obtain ⟨before, b, after, common, rest, rest', rfl, rfl, rfl, hcommon, hrest, hrest'⟩ := h
  exact ⟨a :: before, b, after, common, rest, rest', rfl, rfl, rfl, hcommon.cons a, hrest,
    hrest'⟩

end Better

namespace Greedy

variable {α : Type*} {Safe : List α → Prop} {taken l chosen : List α}

theorem sublist (h : Greedy Safe taken l chosen) :
  chosen.Sublist l
  := by
  induction h with
  | nil => exact List.Sublist.slnil
  | take _ _ ih => exact ih.cons_cons _
  | leave _ _ ih => exact ih.cons _

theorem safe (h : Greedy Safe taken l chosen) (htaken : Safe taken) :
  Safe (taken ++ chosen)
  := by
  induction h with
  | nil => simpa using htaken
  | take hsafe _ ih => simpa using ih hsafe
  | leave _ _ ih => exact ih htaken

end Greedy

end StableSort

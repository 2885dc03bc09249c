import Plexil.Util.LinkedQueue
import Mathlib.Data.List.MinMax

/-!
# The order of a priority queue

A priority queue is a list of items in the order of their priority values.  What it is for
is said by the list `arrived` of its items in the order in which they were inserted: the
items of one priority value are in this order, and the item which is taken next is the
first one of the least priority value.
-/

namespace PriorityQueue

variable {α β : Type*} [LinearOrder β] {priority : α → β} {item x : α} {q arrived : List α}


/-- The items are in the order of their priority values. -/
def Ordered (priority : α → β) (q : List α) : Prop :=
  q.Pairwise fun x y => priority x ≤ priority y

theorem Ordered.insert (h : Ordered priority q) (item : α) :
  Ordered priority (insert priority item q)
  := by
  induction q with
  | nil => apply List.pairwise_singleton
  | cons cur rest ih =>
    obtain ⟨hcur, hrest⟩ := List.pairwise_cons.mp h
    unfold PriorityQueue.insert
    split
    · rename_i hlt
      apply List.pairwise_cons.mpr
      refine ⟨?_, h⟩
      intro y hy
      obtain rfl | hy := List.mem_cons.mp hy
      · exact hlt.le
      · exact hlt.le.trans (hcur y hy)
    · rename_i hge
      apply List.pairwise_cons.mpr
      refine ⟨?_, ih hrest⟩
      intro y hy
      obtain rfl | hy := mem_insert.mp hy
      · exact not_lt.mp hge
      · exact hcur y hy

/-- Among the items of one priority value the new one is the last. -/
theorem filter_insert (h : Ordered priority q) (item : α) (p : β) :
  (insert priority item q).filter (priority · = p)
    = q.filter (priority · = p) ++ [item].filter (priority · = p)
  := by
  induction q with
  | nil => rfl
  | cons cur rest ih =>
    obtain ⟨hcur, hrest⟩ := List.pairwise_cons.mp h
    unfold PriorityQueue.insert
    split
    · rename_i hlt
      by_cases hp : priority item = p
      · -- no item behind has the priority value of the new one
        have hnone : (cur :: rest).filter (priority · = p) = [] := by
          apply List.filter_eq_nil_iff.mpr
          intro y hy
          have hle : priority cur ≤ priority y := by
            obtain rfl | hy := List.mem_cons.mp hy
            · exact le_refl _
            · exact hcur y hy
          simp only [decide_eq_true_eq]
          rintro rfl
          apply absurd hle
          rw [← hp]
          exact not_le.mpr hlt
        rw [List.filter_cons, hnone]
        simp [hp]
      · rw [List.filter_cons, if_neg (by simpa using hp)]
        simp [hp]
    · rw [List.filter_cons, List.filter_cons, ih hrest]
      split <;> rfl

theorem ordered_nil : Ordered priority ([] : List α)
  := .nil


/-! ### A walk through the queue -/

/-- A walk through the items of a queue, with `walk` still to come.  An item which does not come
any more is blocked, or has no precedence over those which come. -/
structure Walk (priority : α → β) (blocked : α → Prop) (q walk : List α) : Prop where
  ordered : Ordered priority walk
  passed : ∀ x ∈ q, x ∉ walk → blocked x ∨ ∀ y ∈ walk, priority y ≤ priority x

namespace Walk

variable {blocked blocked' : α → Prop} {q' walk init rest : List α} {y : α}

theorem start (h : Ordered priority q) : Walk priority blocked q q
  := by
  use h
  intro x hx hnot
  contradiction

theorem finished : Walk priority blocked q []
  := by
  use ordered_nil
  intro x _ _
  right
  intro y hy
  cases hy

/-- No item which does not come any more is added or freed. -/
theorem mono (h : Walk priority blocked q walk) (hq : ∀ x ∈ q', x ∉ walk → x ∈ q)
    (hblocked : ∀ x ∈ q', x ∉ walk → blocked x → blocked' x) :
  Walk priority blocked' q' walk
  := by
  use h.ordered
  intro x hx hnot
  apply (h.passed x (hq x hx hnot) hnot).imp_left
  apply hblocked x hx hnot

/-- The walk leaves out an item which is blocked or has left the queue. -/
theorem leaveOut (h : Walk priority blocked q (init ++ x :: rest)) (hx : x ∈ q → blocked x) :
  Walk priority blocked q (init ++ rest)
  := by
  have hsub : (init ++ rest).Sublist (init ++ x :: rest) :=
    (List.sublist_cons_self x rest).append_left init
  use h.ordered.sublist hsub
  intro z hz hnot
  by_cases hzx : z = x
  · left
    rw [hzx] at hz ⊢
    exact hx hz
  · have hnot' : z ∉ init ++ x :: rest := by
      intro hmem
      apply hnot
      rw [List.mem_append] at hmem ⊢
      apply hmem.imp_right
      intro hmem
      exact (List.mem_cons.mp hmem).resolve_left hzx
    apply (h.passed z hz hnot').imp_right
    intro hle y hy
    exact hle y (hsub.subset hy)

/-- The walk stops early; those which it would have come to have no precedence. -/
theorem cut (h : Walk priority blocked q (init ++ rest)) : Walk priority blocked q init
  := by
  obtain ⟨hinit, -, hle⟩ := List.pairwise_append.mp h.ordered
  use hinit
  intro z hz hnot
  by_cases hmem : z ∈ rest
  · right
    intro y hy
    exact hle y hy z hmem
  · have hnot' : z ∉ init ++ rest := by
      rw [List.mem_append]
      rintro (hz | hz) <;> contradiction
    apply (h.passed z hz hnot').imp_right
    intro hle y hy
    exact hle y (List.mem_append_left rest hy)

/-- An item with precedence over the one which comes next is blocked. -/
theorem blocked_of_lt (h : Walk priority blocked q (x :: rest)) (hy : y ∈ q)
    (hlt : priority y < priority x) :
  blocked y
  := by
  have hnot : y ∉ x :: rest := by
    intro hmem
    obtain rfl | hmem := List.mem_cons.mp hmem
    · exact lt_irrefl _ hlt
    · exact absurd ((List.pairwise_cons.mp h.ordered).1 y hmem) (not_le.mpr hlt)
  apply (h.passed y hy hnot).resolve_right
  intro hle
  exact absurd (hle x List.mem_cons_self) (not_le.mpr hlt)

end Walk


/-! ### The order of insertion -/

structure InOrder (priority : α → β) (q arrived : List α) : Prop where
  ordered : Ordered priority q
  filter_eq : ∀ p, q.filter (priority · = p) = arrived.filter (priority · = p)

theorem InOrder.insert (h : InOrder priority q arrived) (item : α) :
  InOrder priority (insert priority item q) (arrived ++ [item])
  := by
  use h.ordered.insert item
  intro p
  rw [filter_insert h.ordered item p, h.filter_eq, List.filter_append]

/-- The priority values are moved together. -/
theorem InOrder.map {α' β' : Type*} [LinearOrder β'] {priority' : α' → β'} {f : α → α'} {g : β → β'}
    (h : InOrder priority q arrived) (hg : StrictMono g)
    (hf : ∀ x, priority' (f x) = g (priority x)) :
  InOrder priority' (q.map f) (arrived.map f)
  := by
  constructor
  · apply List.Pairwise.map f _ h.ordered
    intro x y hle
    rw [hf, hf]
    exact hg.monotone hle
  · intro p
    rw [List.filter_map, List.filter_map]
    congr 1
    by_cases hp : ∃ p₀, g p₀ = p
    · obtain ⟨p₀, rfl⟩ := hp
      have hsame : (fun x => decide (priority' x = g p₀)) ∘ f = fun x => decide (priority x = p₀) := by
        funext x
        simp [hf, hg.injective.eq_iff]
      rw [hsame]
      exact h.filter_eq p₀
    · have hnone : ∀ l : List α, l.filter ((fun x => decide (priority' x = p)) ∘ f) = [] := by
        intro l
        apply List.filter_eq_nil_iff.mpr
        intro x _ hx
        apply hp
        use priority x
        rw [← hf]
        simpa using hx
      rw [hnone, hnone]

variable [DecidableEq α]

/-- No item is lost or duplicated. -/
theorem InOrder.perm (h : InOrder priority q arrived) :
  q.Perm arrived
  := by
  apply List.perm_iff_count.mpr
  intro a
  have hcount : ∀ l : List α, l.count a = (l.filter (priority · = priority a)).count a := by
    intro l
    rw [List.count_filter (by simp)]
  rw [hcount q, hcount arrived, h.filter_eq]

theorem InOrder.erase (h : InOrder priority q arrived) (item : α) :
  InOrder priority (q.erase item) (arrived.erase item)
  := by
  constructor
  · exact h.ordered.sublist List.erase_sublist
  · intro p
    rw [← List.erase_filter, h.filter_eq, List.erase_filter]

/-- The first of the least elements of a list. -/
theorem argmin_append_cons {f : α → β} {init rest : List α} (hinit : ∀ a ∈ init, f x < f a)
    (hrest : ∀ a ∈ rest, f x ≤ f a) :
  (init ++ x :: rest).argmin f = some x
  := by
  have hx : x ∉ init := fun hx => lt_irrefl _ (hinit x hx)
  apply List.argmin_eq_some_iff.mpr
  refine ⟨by simp, ?_, ?_⟩
  · intro a ha
    obtain ha | ha := List.mem_append.mp ha
    · exact (hinit a ha).le
    · obtain rfl | ha := List.mem_cons.mp ha
      · exact le_refl _
      · exact hrest a ha
  · intro a _ hle
    have ha : a ∉ init := fun ha => absurd (hinit a ha) (not_lt.mpr hle)
    rw [List.idxOf_append_of_notMem hx, List.idxOf_append_of_notMem ha, List.idxOf_cons_self]
    omega

/-- The head of the queue is the item which arrived first among those of the least priority
value. -/
theorem InOrder.argmin (h : InOrder priority (x :: q) arrived) :
  arrived.argmin priority = some x
  := by
  have hfilter := h.filter_eq (priority x)
  rw [List.filter_cons_of_pos (by simp)] at hfilter
  obtain ⟨init, rest, rfl, hinit, -, -⟩ := List.filter_eq_cons_iff.mp hfilter.symm
  have hleast : ∀ a ∈ init ++ x :: rest, priority x ≤ priority a := by
    intro a ha
    obtain rfl | ha := List.mem_cons.mp (h.perm.mem_iff.mpr ha)
    · exact le_refl _
    · exact (List.pairwise_cons.mp h.ordered).1 a ha
  apply argmin_append_cons
  · intro a ha
    apply lt_of_le_of_ne (hleast a (List.mem_append_left _ ha))
    intro heq
    apply hinit a ha
    simp [heq]
  · intro a ha
    apply hleast a (List.mem_append_right _ (List.mem_cons_of_mem x ha))

end PriorityQueue

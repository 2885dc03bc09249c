import Mathlib.Data.List.Nodup
import Mathlib.Data.List.Perm.Basic
import Mathlib.Order.Lattice

/-!
# Queues

An intrusive queue is the list of its items from the head on: `push` appends an item,
`pop` removes the head, `remove` erases an item.  `PriorityQueue.insert` keeps a list in
nondecreasing order of priority, with the items of one priority in the order of
insertion.
-/

namespace PriorityQueue

variable {α β : Type*} [LinearOrder β]

/-- Inserts an item after all items of lower or equal priority value. -/
def insert (priority : α → β) (item : α) : List α → List α
  | [] => [item]
  | cur :: rest =>
    if priority item < priority cur then item :: cur :: rest
    else cur :: insert priority item rest

variable {priority : α → β} {item : α} {q : List α}

theorem insert_perm (priority : α → β) (item : α) (q : List α) :
  (insert priority item q).Perm (item :: q)
  := by
  induction q with
  | nil => exact .refl _
  | cons cur rest ih =>
    unfold insert
    split
    · exact .refl _
    · exact (ih.cons cur).trans (.swap item cur rest)

@[simp]
theorem mem_insert {x : α} :
  x ∈ insert priority item q ↔ x = item ∨ x ∈ q
  := by
  rw [(insert_perm priority item q).mem_iff, List.mem_cons]

/-- The number of items at the head which have the priority of the first one. -/
def frontCount (priority : α → β) : List α → Nat
  | [] => 0
  | x :: rest => ((x :: rest).takeWhile fun y => priority y = priority x).length

theorem frontCount_cons (priority : α → β) (item : α) (q : List α) :
  frontCount priority (item :: q)
    = 1 + (q.takeWhile fun y => priority y = priority item).length
  := by
  unfold frontCount
  dsimp only
  rw [List.takeWhile_cons_of_pos (by simp), List.length_cons, Nat.add_comm]

end PriorityQueue

import Mathlib.Data.List.Nodup
import Mathlib.Logic.Function.Basic
import Mathlib.Order.Lattice

/-!
# Linked lists

`Chain next start xs` says that the nodes which are reached from `start` along the pointers
`next` are `xs`, in this order, and that the list ends there; `Segment next start xs stop`
says that after `xs` comes `stop`.  The rules say how a chain changes when pointers are
written.
-/

namespace LinkedList

variable {α : Type*} {next next' : α → Option α} {start : Option α} {x : α} {xs : List α}

def Chain (next : α → Option α) : Option α → List α → Prop
  | start, [] => start = none
  | start, x :: xs => start = some x ∧ Chain next (next x) xs

theorem chain_cons :
  Chain next start (x :: xs) ↔ start = some x ∧ Chain next (next x) xs
  := Iff.rfl

theorem Chain.start_eq (h : Chain next start xs) :
  start = xs.head?
  := by
  cases xs with
  | nil => exact h
  | cons x xs => exact h.1

/-- Pointers of nodes which are not in the list do not matter. -/
theorem Chain.congr (h : Chain next start xs) (heq : ∀ y ∈ xs, next' y = next y) :
  Chain next' start xs
  := by
  induction xs generalizing start with
  | nil => exact h
  | cons y ys ih =>
    obtain ⟨rfl, h⟩ := h
    rw [chain_cons, heq y List.mem_cons_self]
    use rfl
    apply ih h
    intro z hz
    apply heq z (List.mem_cons_of_mem y hz)

/-- A node is put in front of a list. -/
theorem Chain.cons (h : Chain next start xs) (hx : next' x = start)
    (heq : ∀ y ∈ xs, next' y = next y) :
  Chain next' (some x) (x :: xs)
  := by
  rw [chain_cons, hx]
  use rfl
  apply h.congr heq

/-- A node is put at the end of a list, where the pointer of the last node is written. -/
theorem Chain.concat (h : Chain next start xs) (hnodup : xs.Nodup) (hx : next' x = none)
    (hlast : ∀ y, xs.getLast? = some y → next' y = some x)
    (heq : ∀ y ∈ xs, xs.getLast? ≠ some y → next' y = next y) :
  Chain next' (start.or (some x)) (xs ++ [x])
  := by
  induction xs generalizing start with
  | nil =>
    obtain rfl : start = none := h
    exact ⟨rfl, hx⟩
  | cons y ys ih =>
    obtain ⟨rfl, h⟩ := h
    obtain ⟨hy, hnodup⟩ := List.nodup_cons.mp hnodup
    use rfl
    cases ys with
    | nil =>
      rw [hlast y rfl]
      exact ⟨rfl, hx⟩
    | cons z zs =>
      have hne : (y :: z :: zs).getLast? ≠ some y := by
        intro hgetLast
        apply hy
        apply List.mem_of_getLast? (l := z :: zs)
        rw [← hgetLast, List.getLast?_cons_cons]
      rw [heq y List.mem_cons_self hne]
      have hrest := ih h hnodup
        (fun w hw => hlast w (by rw [List.getLast?_cons_cons, hw]))
        (fun w hw hne => heq w (List.mem_cons_of_mem y hw)
          (by rwa [List.getLast?_cons_cons]))
      rw [h.1] at hrest ⊢
      exact hrest

/-! ### Segments -/

def Segment (next : α → Option α) : Option α → List α → Option α → Prop
  | start, [], stop => start = stop
  | start, x :: xs, stop => start = some x ∧ Segment next (next x) xs stop

variable {stop : Option α} {ys : List α}

theorem chain_append :
  Chain next start (xs ++ ys) ↔ ∃ stop, Segment next start xs stop ∧ Chain next stop ys
  := by
  induction xs generalizing start with
  | nil => simp [Segment]
  | cons x xs ih =>
    rw [List.cons_append, chain_cons, ih]
    simp only [Segment, and_assoc, exists_and_left]

theorem Segment.congr (h : Segment next start xs stop) (heq : ∀ y ∈ xs, next' y = next y) :
  Segment next' start xs stop
  := by
  induction xs generalizing start with
  | nil => exact h
  | cons y ys ih =>
    obtain ⟨rfl, h⟩ := h
    refine ⟨rfl, ?_⟩
    rw [heq y List.mem_cons_self]
    apply ih h
    intro z hz
    apply heq z (List.mem_cons_of_mem y hz)

theorem segment_concat :
  Segment next start (xs ++ [x]) stop ↔ Segment next start xs (some x) ∧ next x = stop
  := by
  induction xs generalizing start with
  | nil => simp [Segment]
  | cons y ys ih =>
    rw [List.cons_append]
    simp only [Segment, ih, and_assoc]

variable [DecidableEq α]

/-- The pointer of the last node of a segment is written. -/
theorem Segment.write_last (h : Segment next start (xs ++ [x]) stop) (hx : x ∉ xs)
    (stop' : Option α) :
  Segment (Function.update next x stop') start (xs ++ [x]) stop'
  := by
  rw [segment_concat] at h ⊢
  refine ⟨?_, Function.update_self ..⟩
  apply h.1.congr
  intro y hy
  apply Function.update_of_ne
  rintro rfl
  apply hx hy

/-- Pointers are written of a node which is not in the list. -/
theorem Chain.update (h : Chain next start xs) (hx : x ∉ xs) (v : Option α) :
  Chain (Function.update next x v) start xs
  := by
  apply h.congr
  intro y hy
  apply Function.update_of_ne
  rintro rfl
  apply hx hy

theorem Segment.update (h : Segment next start xs stop) (hx : x ∉ xs) (v : Option α) :
  Segment (Function.update next x v) start xs stop
  := by
  apply h.congr
  intro y hy
  apply Function.update_of_ne
  rintro rfl
  apply hx hy

end LinkedList

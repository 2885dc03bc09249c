import Mathlib.Data.Fintype.Option
import Mathlib.Data.List.Basic

/-!
# Three-valued logic

The connectives of Kleene's strong logic on `Option Bool`, where `none` is unknown: the
connectives of two arguments, those of a list of arguments, and the agreement of a list
connective with the left fold of the one of two arguments.
-/

namespace Kleene

/-! ### Connectives of two arguments -/

def or : Option Bool → Option Bool → Option Bool
  | some true, _ => some true
  | some false, y => y
  | none, some true => some true
  | none, _ => none

def and : Option Bool → Option Bool → Option Bool
  | some false, _ => some false
  | some true, y => y
  | none, some false => some false
  | none, _ => none

def xor : Option Bool → Option Bool → Option Bool
  | some x, some y => some (x != y)
  | _, _ => none

theorem or_assoc (x y z : Option Bool) :
  or (or x y) z = or x (or y z)
  := by decide +revert

theorem and_assoc (x y z : Option Bool) :
  and (and x y) z = and x (and y z)
  := by decide +revert

theorem xor_assoc (x y z : Option Bool) :
  xor (xor x y) z = xor x (xor y z)
  := by decide +revert

/-! ### Connectives of a list -/

/-- True if any is true, unknown if none is true and some is unknown, else false. -/
def any (l : List (Option Bool)) : Option Bool :=
  if some true ∈ l then some true else if none ∈ l then none else some false

/-- False if any is false, unknown if none is false and some is unknown, else true. -/
def all (l : List (Option Bool)) : Option Bool :=
  if some false ∈ l then some false else if none ∈ l then none else some true

/-- Unknown if any is unknown, else whether the number of true ones is odd. -/
def parity (l : List (Option Bool)) : Option Bool :=
  if none ∈ l then none else some (l.count (some true) % 2 = 1)

@[simp]
theorem any_singleton (x : Option Bool) :
  any [x] = x
  := by decide +revert

@[simp]
theorem all_singleton (x : Option Bool) :
  all [x] = x
  := by decide +revert

@[simp]
theorem parity_singleton (x : Option Bool) :
  parity [x] = x
  := by decide +revert

theorem any_cons (x : Option Bool) (l : List (Option Bool)) :
  any (x :: l) = or x (any l)
  := by
  obtain _ | _ | _ := x
  · by_cases htrue : some true ∈ l <;> by_cases hnone : none ∈ l <;>
      simp [any, or, htrue, hnone]
  · simp [any, or]
  · simp [any, or]

theorem all_cons (x : Option Bool) (l : List (Option Bool)) :
  all (x :: l) = and x (all l)
  := by
  obtain _ | _ | _ := x
  · by_cases hfalse : some false ∈ l <;> by_cases hnone : none ∈ l <;>
      simp [all, and, hfalse, hnone]
  · simp [all, and]
  · simp [all, and]

theorem parity_cons (x : Option Bool) (l : List (Option Bool)) :
  parity (x :: l) = xor x (parity l)
  := by
  obtain _ | _ | _ := x
  · simp [parity, xor]
  · by_cases hnone : none ∈ l <;> simp [parity, xor, hnone]
  · by_cases hnone : none ∈ l
    · simp [parity, xor, hnone]
    · simp only [parity, xor, hnone, List.mem_cons, reduceCtorEq, or_self, if_false,
        List.count_cons_self]
      by_cases hodd : l.count (some true) % 2 = 1
      · simp [hodd]
        omega
      · simp [hodd]
        omega

/-! ### Left folds -/

/-- A connective which is associative folds to the connective of the list. -/
theorem foldl_eq {op : Option Bool → Option Bool → Option Bool}
    {opList : List (Option Bool) → Option Bool}
    (hassoc : ∀ x y z, op (op x y) z = op x (op y z))
    (hsingleton : ∀ x, opList [x] = x)
    (hcons : ∀ x l, opList (x :: l) = op x (opList l))
    (x : Option Bool) (l : List (Option Bool)) :
  l.foldl op x = opList (x :: l)
  := by
  induction l generalizing x with
  | nil => exact (hsingleton x).symm
  | cons y l ih =>
    rw [List.foldl_cons, ih, hcons, hassoc, ← hcons y, ← hcons x]

theorem foldl_or (x : Option Bool) (l : List (Option Bool)) :
  l.foldl or x = any (x :: l)
  := by
  apply foldl_eq or_assoc any_singleton any_cons

theorem foldl_and (x : Option Bool) (l : List (Option Bool)) :
  l.foldl and x = all (x :: l)
  := by
  apply foldl_eq and_assoc all_singleton all_cons

theorem foldl_xor (x : Option Bool) (l : List (Option Bool)) :
  l.foldl xor x = parity (x :: l)
  := by
  apply foldl_eq xor_assoc parity_singleton parity_cons

end Kleene

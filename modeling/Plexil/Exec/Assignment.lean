import Plexil.Expr.Variable
import Mathlib.Logic.Function.Basic

/-!
# Assignments

The `Assignment` object of an assignment node and the execution of a queue of
assignments.  A variable is named by an element of a type `V`; the state of all
variables is a `Store`.  Right-hand sides and array indices are functions of the store.
The right-hand side is evaluated by `fixValue`, at the transition of the node; the index
of an array element is evaluated at every use of the destination.
-/

namespace Plexil

/-- The variables of the plans, by name. -/
abbrev Store (V α : Type) := V → Variable α

variable {V α : Type} [DecidableEq V]

/-- The destination of an assignment: a variable, or an element of an array variable.
The saved value of an element is `none` when none is saved. -/
inductive Destination (V α : Type) where
  | variable (base : V)
  | element (base : V) (index : Store V α → Option Int) (savedValue : Option (Value α))

namespace Destination

/-- The variable to which the destination resolves. -/
def getBaseVariable : Destination V α → V
  | .variable base => base
  | .element base _ _ => base

/-- The array variable of an element and the index, when the array and the index are
known.  A base which is no array, and a negative index, are plan errors. -/
def mutableSelfCheck (x : Variable α) (index : Option Int) :
    Option (Option (ArrayVariable α × Nat)) :=
  match x with
  | .scalar _ => none
  | .array ary =>
    if ary.known then
      match index with
      | none => some none
      | some idx => if 0 ≤ idx then some (some (ary, idx.toNat)) else none
    else some none

/-- Sets an element of the array variable `x`, at the value `index` of the index. -/
def setElement (x : Variable α) (index : Option Int) (val : Value α) : Option (Variable α) :=
  match mutableSelfCheck x index with
  | none => none
  | some none => some x
  | some (some (ary, idx)) => (ary.setElement idx val).map .array

def setValue (dest : Destination V α) (val : Value α) (store : Store V α) :
    Option (Store V α) :=
  match dest with
  | .variable base => ((store base).setValue val).map (Function.update store base)
  | .element base index _ =>
    (setElement (store base) (index store) val).map (Function.update store base)

/-- The value of an element. -/
def elementValue (ary : ArrayVariable α) (idx : Nat) : Value α :=
  match ary.getElement idx with
  | some a => .scalar a
  | none => .unknown

def saveCurrentValue (dest : Destination V α) (store : Store V α) :
    Option (Destination V α × Store V α) :=
  match dest with
  | .variable base =>
    some (dest, Function.update store base (store base).saveCurrentValue)
  | .element base index _ =>
    (mutableSelfCheck (store base) (index store)).map fun checked =>
      (.element base index (checked.map fun (ary, idx) => elementValue ary idx), store)

def restoreSavedValue [DecidableEq α] (dest : Destination V α) (store : Store V α) :
    Option (Destination V α × Store V α) :=
  match dest with
  | .variable base =>
    some (dest, Function.update store base (store base).restoreSavedValue)
  | .element base index savedValue =>
    match mutableSelfCheck (store base) (index store), savedValue with
    | none, _ => none
    | some none, _ => some (dest, store)
    | some (some _), none => some (dest, store)
    | some (some (ary, idx)), some saved =>
      if saved = elementValue ary idx then some (.element base index none, store)
      else (ary.setElement idx saved).map fun ary' =>
        (.element base index none, Function.update store base (.array ary'))

end Destination

/-- An assignment; `value` is the value fixed for it. -/
structure Assignment (V α : Type) where
  dest : Destination V α
  rhs : Store V α → Value α
  value : Value α
  ack : SimpleBooleanVariable
  abortComplete : SimpleBooleanVariable

namespace Assignment

/-- Saves the current value of the destination and fixes the value to be assigned. -/
def fixValue (assign : Assignment V α) (store : Store V α) :
    Option (Assignment V α × Store V α) :=
  (assign.dest.saveCurrentValue store).map fun (dest, store') =>
    ({ assign with dest, value := assign.rhs store' }, store')

def execute (assign : Assignment V α) (store : Store V α) :
    Option (Assignment V α × Store V α) :=
  (assign.dest.setValue assign.value store).map fun store' =>
    ({ assign with ack := assign.ack.setValue true }, store')

def retract [DecidableEq α] (assign : Assignment V α) (store : Store V α) :
    Option (Assignment V α × Store V α) :=
  (assign.dest.restoreSavedValue store).map fun (dest, store') =>
    ({ assign with dest, abortComplete := assign.abortComplete.setValue true }, store')

end Assignment

/-- Performs an operation on each assignment of a queue, in order. -/
def performEach (operation : Assignment V α → Store V α → Option (Assignment V α × Store V α)) :
    List (Assignment V α) → Store V α → Option (List (Assignment V α) × Store V α)
  | [], store => some ([], store)
  | assign :: assigns, store =>
    (operation assign store).bind fun (assign', store') =>
      (performEach operation assigns store').map fun (assigns', store'') =>
        (assign' :: assigns', store'')

end Plexil

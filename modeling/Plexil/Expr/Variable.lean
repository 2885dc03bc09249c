import Mathlib.Data.List.Basic

/-!
# Variables

The variables of a plan and their assignment.  A scalar is an element of a type `α`
which stands for the Boolean, Integer, Real and String values.  The extraction of a
scalar at the type of a variable, `Value::getValue`, is the field `convert` of the
variable: it is the identity at the variable's own type, the conversion of Integer to
Real, and a plan error otherwise.  An operation which ends in a plan error has no
result.  Listeners are not modelled here.
-/

namespace Plexil

/-! ### Internal Boolean variables -/

/-- A Boolean variable whose value is known at all times and is `false` from its
activation on. -/
structure SimpleBooleanVariable where
  activeCount : Int
  value : Bool
  deriving DecidableEq

namespace SimpleBooleanVariable

/-- A variable which has not been activated. -/
def initial : SimpleBooleanVariable := ⟨0, false⟩

def isActive (x : SimpleBooleanVariable) : Bool := x.activeCount > 0

def activate (x : SimpleBooleanVariable) : SimpleBooleanVariable :=
  ⟨x.activeCount + 1, if x.activeCount = 0 then false else x.value⟩

def deactivate (x : SimpleBooleanVariable) : SimpleBooleanVariable :=
  { x with activeCount := x.activeCount - 1 }

/-- Sets the value, if the variable is active. -/
def setValue (x : SimpleBooleanVariable) (val : Bool) : SimpleBooleanVariable :=
  if x.isActive then { x with value := val } else x

end SimpleBooleanVariable

/-! ### Values -/

/-- A value: unknown, a scalar, or an array of known and unknown elements. -/
inductive Value (α : Type) where
  | unknown
  | scalar (a : α)
  | array (elements : List (Option α))
  deriving DecidableEq

variable {α : Type}

/-- The scalar of a value at the type given by `convert`; `some none` is unknown. -/
def Value.getValue (convert : α → Option α) : Value α → Option (Option α)
  | .unknown => some none
  | .scalar a => (convert a).map some
  | .array _ => none

/-- The array of a value of the array type given by `isTyped`; `some none` is unknown. -/
def Value.getValuePointer (isTyped : List (Option α) → Bool) :
    Value α → Option (Option (List (Option α)))
  | .unknown => some none
  | .scalar _ => none
  | .array elements => if isTyped elements then some (some elements) else none

/-! ### Scalar variables -/

/-- A scalar variable; its value is unknown when it is `none`. -/
structure UserVariable (α : Type) where
  convert : α → Option α
  value : Option α
  savedValue : Option α

namespace UserVariable

def setValue (x : UserVariable α) (val : Value α) : Option (UserVariable α) :=
  (val.getValue x.convert).map fun value => { x with value := value }

def saveCurrentValue (x : UserVariable α) : UserVariable α :=
  { x with savedValue := x.value }

def restoreSavedValue (x : UserVariable α) : UserVariable α :=
  { x with value := x.savedValue }

end UserVariable

/-! ### Array variables -/

/-- An array variable.  Its contents are kept while it is unknown.  The sizes of its
values are limited by `maxSize`, if there is one. -/
structure ArrayVariable (α : Type) where
  convert : α → Option α
  isTyped : List (Option α) → Bool
  maxSize : Option Nat
  known : Bool
  value : List (Option α)
  savedKnown : Bool
  savedValue : List (Option α)

namespace ArrayVariable

/-- The array extended by unknown elements up to the maximum size. -/
def resized (x : ArrayVariable α) (ary : List (Option α)) : List (Option α) :=
  ary ++ List.replicate (x.maxSize.getD 0 - ary.length) none

def setUnknown (x : ArrayVariable α) : ArrayVariable α :=
  { x with known := false }

def setValueImpl (x : ArrayVariable α) (ary : List (Option α)) : Option (ArrayVariable α) :=
  if x.maxSize.all (ary.length ≤ ·) then
    some { x with known := true, value := x.resized ary }
  else none

def setValue (x : ArrayVariable α) (val : Value α) : Option (ArrayVariable α) :=
  match val.getValuePointer x.isTyped with
  | none => none
  | some none => some x.setUnknown
  | some (some ary) => x.setValueImpl ary

/-- The element at an index; it is unknown when the index is outside of the array. -/
def getElement (x : ArrayVariable α) (idx : Nat) : Option α :=
  x.value[idx]?.join

/-- Sets an element.  Nothing changes when the index is outside of the array. -/
def setElement (x : ArrayVariable α) (idx : Nat) (val : Value α) : Option (ArrayVariable α) :=
  match val.getValue x.convert with
  | none => none
  | some (some v) => some { x with value := x.value.set idx (some v) }
  | some none =>
    if (x.getElement idx).isSome then some { x with value := x.value.set idx none }
    else some x

def saveCurrentValue (x : ArrayVariable α) : ArrayVariable α :=
  if x.known then { x with savedKnown := true, savedValue := x.value }
  else { x with savedKnown := false }

/-- Restores the saved value.  The contents are restored only when the variable is known
both now and in the saved state. -/
def restoreSavedValue (x : ArrayVariable α) : ArrayVariable α :=
  if x.known && x.savedKnown then { x with known := true, value := x.savedValue }
  else { x with known := x.savedKnown }

end ArrayVariable

/-- A variable of a plan. -/
inductive Variable (α : Type) where
  | scalar (x : UserVariable α)
  | array (x : ArrayVariable α)

namespace Variable

def setValue (val : Value α) : Variable α → Option (Variable α)
  | .scalar x => (x.setValue val).map .scalar
  | .array x => (x.setValue val).map .array

def saveCurrentValue : Variable α → Variable α
  | .scalar x => .scalar x.saveCurrentValue
  | .array x => .array x.saveCurrentValue

def restoreSavedValue : Variable α → Variable α
  | .scalar x => .scalar x.restoreSavedValue
  | .array x => .array x.restoreSavedValue

end Variable
end Plexil

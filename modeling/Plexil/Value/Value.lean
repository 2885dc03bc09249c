import Plexil.Value.ValueType
import Plexil.Util.Lexicographic

/-!
# Values

A value is known and of a type, or unknown and of a type.  The vectors `m_known` and
`m_contents` of an array are resized together, so that an array is a list of elements; an
element which is set unknown keeps its contents.
-/

namespace Plexil

/-- An element of an array. -/
structure ArrayElement (α : Type) where
  known : Bool
  contents : α
  deriving DecidableEq

abbrev ArrayImpl (α : Type) := List (ArrayElement α)

namespace ArrayImpl

variable {α : Type}

def getKnownVector (ary : ArrayImpl α) : List Bool := ary.map ArrayElement.known

def getContentsVector (ary : ArrayImpl α) : List α := ary.map ArrayElement.contents

/-- Writes an element; it is known from then on. -/
def setElement (ary : ArrayImpl α) (index : Nat) (newval : α) : ArrayImpl α :=
  List.set ary index ⟨true, newval⟩

/-- Makes an element unknown. -/
def setElementUnknown (ary : ArrayImpl α) (index : Nat) : ArrayImpl α :=
  List.modify ary index fun element => { element with known := false }

/-- `operator==`, where `eq` is the equality of contents. -/
def equals (eq : α → α → Bool) (arya aryb : ArrayImpl α) : Bool :=
  if arya.getKnownVector ≠ aryb.getKnownVector then false
  else Lexicographic.equal eq arya.getContentsVector aryb.getContentsVector

/-- The comparison of elements in the loop of `operator<`, where `less` is the order of
contents. -/
def elementLess (less : α → α → Bool) (a b : ArrayElement α) : Bool :=
  if !a.known && b.known then true
  else if a.known && !b.known then false
  else if !a.known then false
  else less a.contents b.contents

/-- `operator<`, where `less` is the order of contents. -/
def lessThan (less : α → α → Bool) (arya aryb : ArrayImpl α) : Bool :=
  if arya.length < aryb.length then true
  else if arya.length > aryb.length then false
  else Lexicographic.less (elementLess less) arya aryb

end ArrayImpl

inductive Intfc.Value where
  | unknown (type : ValueType)
  | boolean (value : Boolean)
  | integer (value : Integer)
  | real (value : Real)
  | string (value : StringValue)
  | booleanArray (value : ArrayImpl Boolean)
  | integerArray (value : ArrayImpl Integer)
  | realArray (value : ArrayImpl Real)
  | stringArray (value : ArrayImpl StringValue)
  | nodeState (value : NodeState)
  | outcome (value : NodeOutcome)
  | failure (value : FailureType)
  | commandHandle (value : CommandHandleValue)
  deriving DecidableEq

namespace Intfc.Value

def valueType : Value → ValueType
  | unknown type => type
  | boolean _ => .boolean
  | integer _ => .integer
  | real _ => .real
  | string _ => .string
  | booleanArray _ => .booleanArray
  | integerArray _ => .integerArray
  | realArray _ => .realArray
  | stringArray _ => .stringArray
  | nodeState _ => .nodeState
  | outcome _ => .outcome
  | failure _ => .failure
  | commandHandle _ => .commandHandle

def isKnown : Value → Bool
  | unknown _ => false
  | _ => true

/-- The order of `Boolean`s as numbers. -/
def booleanLess (x y : Boolean) : Bool := !x && y

/-- The order of strings, byte by byte. -/
def stringLess (x y : StringValue) : Bool := decide (x < y)

def equals : Value → Value → Bool
  | unknown .integer, unknown type => type = .integer || type = .real
  | unknown .real, unknown type => type = .real || type = .integer
  | unknown type, unknown type' => type' = type
  | integer x, integer y => x = y
  | integer x, real y => y.eq x.toReal
  | real x, real y => x.eq y
  | real x, integer y => x.eq y.toReal
  | boolean x, boolean y => x = y
  | nodeState x, nodeState y => x = y
  | outcome x, outcome y => x = y
  | failure x, failure y => x = y
  | commandHandle x, commandHandle y => x = y
  | string x, string y => x = y
  | booleanArray x, booleanArray y => x.equals (· = ·) y
  | integerArray x, integerArray y => x.equals (· = ·) y
  | realArray x, realArray y => x.equals Binary64.eq y
  | stringArray x, stringArray y => x.equals (· = ·) y
  | _, _ => false

def lessThan : Value → Value → Bool
  -- Unknowns of the types Integer and Real are compared by their types too.
  | unknown type, unknown type' => type.code < type'.code
  | unknown _, _ => true
  | _, unknown _ => false
  | integer x, integer y => x.slt y
  | integer x, real y => x.toReal.lt y
  | real x, real y => x.lt y
  | real x, integer y => x.lt y.toReal
  | boolean x, boolean y => booleanLess x y
  | nodeState x, nodeState y => x.code < y.code
  | outcome x, outcome y => x.code < y.code
  | failure x, failure y => x.code < y.code
  | commandHandle x, commandHandle y => x.code < y.code
  | string x, string y => stringLess x y
  | booleanArray x, booleanArray y => x.lessThan booleanLess y
  | integerArray x, integerArray y => x.lessThan BitVec.slt y
  | realArray x, realArray y => x.lessThan Binary64.lt y
  | stringArray x, stringArray y => x.lessThan stringLess y
  -- The types are different.
  | v, other => v.valueType.code < other.valueType.code

end Intfc.Value
end Plexil

/-!
# The types of the compiler

The data types of expressions.  Some are placeholders: an expression without a value is of type
`void`, one which fails its check of type `error`, and an array literal whose elements have not
been looked at of type `unknownArray`.
-/

namespace Plexil.Compiler

inductive PlexilDataType where
  | void | error
  | boolean | integer | real | string | date | duration
  | commandHandle | nodeState | nodeOutcome | nodeFailure | stateName
  | any
  | booleanArray | integerArray | realArray | stringArray | dateArray | durationArray
  | unknownArray
  deriving DecidableEq, Repr

namespace PlexilDataType

def typeName : PlexilDataType → String
  | void => "Void"
  | error => "Error"
  | boolean => "Boolean"
  | integer => "Integer"
  | real => "Real"
  | string => "String"
  | date => "Date"
  | duration => "Duration"
  | commandHandle => "NodeCommandHandle"
  | nodeState => "NodeState"
  | nodeOutcome => "NodeOutcome"
  | nodeFailure => "NodeFailure"
  | stateName => "StateName"
  | any => "Any"
  | booleanArray | integerArray | realArray | stringArray | dateArray | durationArray
  | unknownArray => "Array"

def isNumeric : PlexilDataType → Bool
  | integer | real | any => true
  | _ => false

/-- The type of the elements of an array, or null. -/
def arrayElementType : PlexilDataType → Option PlexilDataType
  | booleanArray => some boolean
  | integerArray => some integer
  | realArray => some real
  | stringArray => some string
  | dateArray => some date
  | durationArray => some duration
  | unknownArray => some error
  | _ => none

/-- The type of the arrays with elements of a type, or null. -/
def arrayType : PlexilDataType → Option PlexilDataType
  | boolean => some booleanArray
  | integer => some integerArray
  | real => some realArray
  | string => some stringArray
  | date => some dateArray
  | duration => some durationArray
  | error => some unknownArray
  | _ => none

def isArray (type : PlexilDataType) : Bool := type.arrayElementType.isSome

/-- `isValid` for a type other than null. -/
def isValid : PlexilDataType → Bool
  | void | error | unknownArray => false
  | _ => true

/-- A value of the type `other` can be given where one of this type is expected. -/
def canReceiveType (type other : PlexilDataType) : Bool :=
  if !other.isValid then false
  else if type = other || type = any then true
  else if other.isNumeric then type = real
  else false

theorem arrayElementType_eq_some_iff (type elementType : PlexilDataType) :
  type.arrayElementType = some elementType ↔ elementType.arrayType = some type
  := by
  cases type <;> cases elementType <;> simp [arrayElementType, arrayType]

end PlexilDataType

end Plexil.Compiler

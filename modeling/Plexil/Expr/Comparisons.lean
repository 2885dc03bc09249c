import Plexil.Intfc.CachedValue
import Plexil.Util.Exceptions

/-!
# Comparison operators

The operators `EQ` and `NEQ` and the orderings read their two operands when they are evaluated,
the second one only when the first one is known.  How an operand is read depends on the class
of the expression: a lookup has the type of the value which it has at the moment, an array
reference the type of the elements of the array which it has at the moment.  It is an error to
read an operand as a type for which its class has no method.
-/

namespace Plexil

/-- What goes wrong when an operator is chosen or applied. -/
inductive ComparisonError where
  /-- `OperationFactory::allocate`: no operator found -/
  | noOperator
  /-- `errorMsg` or `reportPlanError` -/
  | typeError
  deriving DecidableEq

namespace ValueType

/-- The types `T` of the expressions which implement `GetValueImpl<T>`. -/
def isNative : ValueType → Bool
  | .boolean | .integer | .real | .string => true
  | .booleanArray | .integerArray | .realArray | .stringArray => true
  | .nodeState | .outcome | .failure | .commandHandle => true
  | _ => false

/-- The types of values which the classes for lookups have methods for; all kinds of arrays are
read as `Array`. -/
def isExternal : ValueType → Bool
  | .boolean | .integer | .real | .string | .array => true
  | _ => false

/-- The types of elements of arrays. -/
def isElement : ValueType → Bool
  | .boolean | .integer | .real | .string => true
  | _ => false

/-- A value of type `actual` can be read as one of the type: an Integer as Real, and every array
as `Array`. -/
def readableAs (type actual : ValueType) : Bool :=
  match type, actual with
  | .real, .integer => true
  | .array, .booleanArray | .array, .integerArray | .array, .realArray | .array, .stringArray =>
    true
  | _, _ => type = actual

end ValueType

/-- The value as it is read. -/
def Intfc.Value.readAs (type : ValueType) (val : Intfc.Value) : Intfc.Value :=
  match type, val with
  | .real, .integer n => .real n.toReal
  | _, _ => val

/-! ### Operands -/

/-- What a `LookupOnChange` reads: the value of its entry in the cache, and the copy of it which
it made when it set its thresholds. -/
structure ChangeLookup where
  m_value : Option Intfc.CachedValue
  m_cachedValue : Option Intfc.CachedValue
  sameType : ∀ c ∈ m_cachedValue, c.valueType.isNumericType = true ∧
    ∃ e ∈ m_value, e.valueType = c.valueType

/-- An operand while it is active. -/
inductive Operand where
  /-- An expression with a type of its own: a variable, a constant, a function, or the state,
  outcome, failure type or command handle of a node. -/
  | typed (val : { val : Intfc.Value // val.valueType.isNative = true })
  /-- The time at which a node entered or left a state. -/
  | nodeTimepoint (time : Option Real)
  /-- A lookup with the value of its entry in the cache, if there is one. -/
  | lookup (declaredType : ValueType) (m_value : Option Intfc.CachedValue)
  | lookupOnChange (declaredType : ValueType) (change : ChangeLookup)
  /-- An array reference.  The type of the elements need not be known before the array is, and
  then that of the element is `unknown`. -/
  | arrayReference (declaredType : ValueType)
    (val : { val : Intfc.Value //
      (val.valueType.isElement || val.valueType = .unknown) = true })

namespace Operand

/-- The value of a lookup has a type of its own unless it is a `VoidCachedValue`. -/
def lookupType (declaredType : ValueType) (m_value : Option Intfc.CachedValue) : ValueType :=
  match m_value with
  | some c => if c.valueType ≠ .unknown then c.valueType else declaredType
  | none => declaredType

/-- `valueType` before the plan runs. -/
def staticType : Operand → ValueType
  | typed val => val.val.valueType
  | nodeTimepoint _ => .date
  | lookup declaredType _ | lookupOnChange declaredType _ | arrayReference declaredType _ =>
    declaredType

/-- `valueType` at the moment. -/
def valueType : Operand → ValueType
  | typed val => val.val.valueType
  | nodeTimepoint _ => .date
  | lookup declaredType m_value => lookupType declaredType m_value
  | lookupOnChange declaredType change => lookupType declaredType change.m_value
  | arrayReference _ val => val.val.valueType

/-- The value which the operand has. -/
def toValue : Operand → Intfc.Value
  | typed val => val.val
  | nodeTimepoint (some time) => .real time
  | nodeTimepoint none => .unknown .date
  | lookup _ m_value => Intfc.cachedValue m_value
  | lookupOnChange _ change => Intfc.cachedValue (change.m_cachedValue.or change.m_value)
  | arrayReference _ val => val.val

def isKnown (o : Operand) : Bool := o.toValue.isKnown

/-- The methods of a class for one type: they are there for that type only. -/
def readTyped (type : ValueType) (val : Intfc.Value) :
    Except ComparisonError (Option Intfc.Value) :=
  if type.readableAs val.valueType then
    .ok (if val.isKnown then some (val.readAs type) else none)
  else .error .typeError

/-- The methods of a `CachedValue`; those of a `VoidCachedValue` answer that it is unknown. -/
def readCached (type : ValueType) (c : Intfc.CachedValue) :
    Except ComparisonError (Option Intfc.Value) :=
  if c.valueType = .unknown then .ok none else readTyped type c.toValue

/-- `LookupImpl::getValue` and `getValuePointer` -/
def readLookup (type : ValueType) (m_value : Option Intfc.CachedValue) :
    Except ComparisonError (Option Intfc.Value) :=
  if type.isExternal then
    match m_value with
    | none => .ok none
    | some c => readCached type c
  else .error .typeError

/-- `getValue` or `getValuePointer` for a type. -/
def getValue (type : ValueType) : Operand → Except ComparisonError (Option Intfc.Value)
  | typed val => readTyped type val
  | nodeTimepoint time => if type = .real then .ok (time.map .real) else .error .typeError
  | lookup _ m_value => readLookup type m_value
  | lookupOnChange _ change =>
    -- only the methods for numbers differ from those of other lookups
    if type = .integer ∨ type = .real then
      match change.m_value with
      | none => .ok none
      | some entry =>
        match change.m_cachedValue with
        | some c => readCached type c
        | none => if entry.isKnown then readCached type entry else .ok none
    else readLookup type change.m_value
  | arrayReference _ val =>
    if type.isElement then if val.val.isKnown then readTyped type val else .ok none
    else .error .typeError

end Operand

/-! ### Operators -/

/-- Both operands are read as the type, and their values are compared. -/
def compareValues (compare : Intfc.Value → Intfc.Value → Bool) (type : ValueType)
    (argA argB : Operand) : Except ComparisonError (Option Boolean) := do
  match ← argA.getValue type with
  | none => return none
  | some tempA =>
    match ← argB.getValue type with
    | none => return none
    | some tempB => return some (compare tempA tempB)

def compareEqual : ValueType → Operand → Operand → Except ComparisonError (Option Boolean) :=
  compareValues Intfc.Value.equals

/-- The type as which `isEqual` reads the operands; there is none when the type of the first one
is not known.  It is an error when `isEqual` has no case for the type. -/
def equalityType (typeA typeB : ValueType) : Except ComparisonError (Option ValueType) :=
  match typeA with
  | .unknown => .ok none
  | .boolean => .ok (some .boolean)
  | .integer => .ok (some (if typeB = .integer then .integer else .real))
  | .real => .ok (some .real)
  | .string => .ok (some .string)
  | .booleanArray | .integerArray | .realArray | .stringArray => .ok (some .array)
  | .nodeState => .ok (some .nodeState)
  | .outcome => .ok (some .outcome)
  | .failure => .ok (some .failure)
  | .commandHandle => .ok (some .commandHandle)
  | _ => .error .typeError

def isEqual (argA argB : Operand) : Except ComparisonError (Option Boolean) := do
  match ← equalityType argA.valueType argB.valueType with
  | none => return none
  | some type => compareEqual type argA argB

def equal (argA argB : Operand) : Except ComparisonError (Option Boolean) := isEqual argA argB

def notEqual (argA argB : Operand) : Except ComparisonError (Option Boolean) := do
  match ← isEqual argA argB with
  | none => return none
  | some tempResult => return some !tempResult

def greaterThan : ValueType → Operand → Operand → Except ComparisonError (Option Boolean) :=
  compareValues fun tempA tempB => tempB.lessThan tempA

def greaterEqual : ValueType → Operand → Operand → Except ComparisonError (Option Boolean) :=
  compareValues fun tempA tempB => tempB.lessThan tempA || tempA.equals tempB

def lessThan : ValueType → Operand → Operand → Except ComparisonError (Option Boolean) :=
  compareValues fun tempA tempB => tempA.lessThan tempB

def lessEqual : ValueType → Operand → Operand → Except ComparisonError (Option Boolean) :=
  compareValues fun tempA tempB => tempA.lessThan tempB || tempA.equals tempB

end Plexil

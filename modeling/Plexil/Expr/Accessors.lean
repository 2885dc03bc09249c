import Plexil.Intfc.CachedValue
import Plexil.Expr.Function
import Plexil.Util.Exceptions
import Mathlib.Logic.Function.Basic

/-!
# Accessors of expressions

The value of an expression is read through virtual functions: `isKnown`, `toValue`, one
`getValue` for each scalar type and one `getValuePointer` for each type which is stored.  The
classes implement them separately.  An expression is given here by what its functions return
while it is active, and a class by a function from its parts to an expression.
-/

namespace Plexil.Expr

/-- What is raised instead of an answer. -/
inductive ReadError where
  /-- `reportPlanError`, `checkPlanError` -/
  | planError
  /-- `errorMsg` -/
  | error
  deriving DecidableEq

/-- The answer of an accessor. -/
abbrev Read := Except ReadError

/-! ### Types -/

/-- The types `T` of the methods `getValue(T &)`. -/
inductive ScalarType where
  | boolean | integer | real | string | nodeState | outcome | failure | commandHandle
  deriving DecidableEq

namespace ScalarType

abbrev Carrier : ScalarType → Type
  | boolean => Boolean
  | integer => Integer
  | real => Real
  | string => StringValue
  | nodeState => NodeState
  | outcome => NodeOutcome
  | failure => FailureType
  | commandHandle => CommandHandleValue

/-- `PlexilValueType<T>::value` -/
def valueType : ScalarType → ValueType
  | boolean => .boolean
  | integer => .integer
  | real => .real
  | string => .string
  | nodeState => .nodeState
  | outcome => .outcome
  | failure => .failure
  | commandHandle => .commandHandle

/-- The constructors of the class `Value`. -/
def value : (T : ScalarType) → T.Carrier → Intfc.Value
  | boolean => .boolean
  | integer => .integer
  | real => .real
  | string => .string
  | nodeState => .nodeState
  | outcome => .outcome
  | failure => .failure
  | commandHandle => .commandHandle

end ScalarType

/-- The types `T` of the elements of the arrays `ArrayImpl<T>`. -/
inductive ElementType where
  | boolean | integer | real | string
  deriving DecidableEq

namespace ElementType

abbrev Carrier : ElementType → Type
  | boolean => Boolean
  | integer => Integer
  | real => Real
  | string => StringValue

/-- `PlexilValueType<T>::arrayValue` -/
def arrayType : ElementType → ValueType
  | boolean => .booleanArray
  | integer => .integerArray
  | real => .realArray
  | string => .stringArray

/-- `getElementType` -/
def valueType : ElementType → ValueType
  | boolean => .boolean
  | integer => .integer
  | real => .real
  | string => .string

def value : (T : ElementType) → ArrayImpl T.Carrier → Intfc.Value
  | boolean => .booleanArray
  | integer => .integerArray
  | real => .realArray
  | string => .stringArray

/-- The `Value` of an element. -/
def elementValue : (T : ElementType) → T.Carrier → Intfc.Value
  | boolean => .boolean
  | integer => .integer
  | real => .real
  | string => .string

end ElementType

/-- `arrayElementType`, for the types which pass `isArrayType`. -/
def arrayElementType : ValueType → ValueType
  | .booleanArray => .boolean
  | .integerArray => .integer
  | .realArray => .real
  | .stringArray => .string
  | _ => .unknown

/-! ### Arrays -/

/-- The class `Array`: an array with the type of its elements. -/
structure AnyArray where
  elementType : ElementType
  contents : ArrayImpl elementType.Carrier

namespace AnyArray

def getKnownVector (ary : AnyArray) : List Bool := ary.contents.getKnownVector

/-- The element at an index, if there is one and it is known. -/
def element (ary : AnyArray) (index : Nat) : Option ary.elementType.Carrier :=
  match ary.contents[index]? with
  | some ⟨true, contents⟩ => some contents
  | _ => none

def getElementValue (ary : AnyArray) (index : Nat) : Intfc.Value :=
  match ary.element index with
  | some contents => ary.elementType.elementValue contents
  | none => .unknown .unknown

/-- `getElement` and, for a string, `getElementPointer`: the methods for types other than that of
the elements report an error. -/
def getElement : (T : ScalarType) → AnyArray → Nat → Read (Option T.Carrier)
  | .boolean, ⟨.boolean, contents⟩, index => .ok (element ⟨.boolean, contents⟩ index)
  | .integer, ⟨.integer, contents⟩, index => .ok (element ⟨.integer, contents⟩ index)
  | .real, ⟨.real, contents⟩, index => .ok (element ⟨.real, contents⟩ index)
  | .string, ⟨.string, contents⟩, index => .ok (element ⟨.string, contents⟩ index)
  | _, _, _ => .error .planError

end AnyArray

/-! ### Expressions -/

/-- The types `T` of the methods `getValuePointer(T const *&)`. -/
inductive PointerType where
  | string
  | array
  | arrayOf (T : ElementType)
  deriving DecidableEq

abbrev PointerType.Carrier : PointerType → Type
  | string => StringValue
  | array => AnyArray
  | arrayOf T => ArrayImpl T.Carrier

/-- The class `Expression`; an accessor which returns false has the answer `none`. -/
structure Expression where
  valueType : ValueType
  isKnown : Read Bool
  toValue : Read Intfc.Value
  getValue : (T : ScalarType) → Read (Option T.Carrier)
  getValuePointer : (P : PointerType) → Read (Option P.Carrier)

/-- The conversion of the answer for Integer to the one for Real. -/
def toReal (answer : Read (Option Integer)) : Read (Option Real) :=
  answer.map (Option.map Integer.toReal)

/-- The methods of `Expression`, where `getInteger` is the method for Integer. -/
def baseGetValue (valueType : ValueType) (getInteger : Read (Option Integer)) :
    (T : ScalarType) → Read (Option T.Carrier)
  | .real => if valueType = .integer then toReal getInteger else .error .planError
  | _ => .error .planError

/-- The methods of `Expression`. -/
def baseGetValuePointer (P : PointerType) : Read (Option P.Carrier) := .error .planError

/-- The method for Integer of a class which has only one for `T`. -/
def getIntegerOf : (T : ScalarType) → Read (Option T.Carrier) → Read (Option Integer)
  | .integer, own => own
  | _, _ => .error .planError

/-- Whether there is an answer. -/
def known {α : Type} (answer : Read (Option α)) : Read Bool := answer.map Option.isSome

/-- The answer as a `Value`. -/
def valueOf {α : Type} (type : ValueType) (value : α → Intfc.Value) (answer : Read (Option α)) :
    Read Intfc.Value :=
  answer.map fun result => (result.map value).getD (.unknown type)

/-! ### Classes with a type of their own -/

/-- `GetValueImpl<T>` for scalar types other than `String`, where `own` is the method for `T`. -/
def getValueImpl (T : ScalarType) (valueType : ValueType) (own : Read (Option T.Carrier)) :
    Expression where
  valueType := valueType
  isKnown := known own
  toValue := valueOf valueType T.value own
  getValue := Function.update (baseGetValue valueType (getIntegerOf T own)) T own
  getValuePointer := baseGetValuePointer

/-- `GetValueImpl<String>` -/
def getStringImpl (own pointer : Read (Option StringValue)) : Expression where
  valueType := .string
  isKnown := known pointer
  toValue := valueOf .string .string pointer
  getValue := Function.update (baseGetValue .string (.error .planError)) .string own
  getValuePointer := Function.update baseGetValuePointer .string pointer

/-- `GetValueImpl<ArrayImpl<T> >` -/
def getArrayImpl (T : ElementType) (pointer : Read (Option (ArrayImpl T.Carrier))) :
    Expression where
  valueType := T.arrayType
  isKnown := known pointer
  toValue := valueOf T.arrayType T.value pointer
  getValue := baseGetValue T.arrayType (.error .planError)
  getValuePointer := Function.update (Function.update baseGetValuePointer (.arrayOf T) pointer)
    .array (pointer.map (Option.map (AnyArray.mk T)))

/-- `Constant<T>` and `UserVariable<T>`: the value, if it is known. -/
def userVariable : (T : ScalarType) → Option T.Carrier → Expression
  | .string, m_value =>
    { getStringImpl (.ok m_value) (.ok m_value) with isKnown := .ok m_value.isSome }
  | T, m_value => { getValueImpl T T.valueType (.ok m_value) with isKnown := .ok m_value.isSome }

def constant (T : ScalarType) (m_value : Option T.Carrier) : Expression := userVariable T m_value

/-- `ArrayVariableImpl<T>` and `Constant<ArrayImpl<T> >` -/
def arrayVariable (T : ElementType) (m_value : Option (ArrayImpl T.Carrier)) : Expression :=
  { getArrayImpl T (.ok m_value) with isKnown := .ok m_value.isSome }

def stateVariable (state : NodeState) : Expression :=
  { getValueImpl .nodeState .nodeState (.ok (some state)) with isKnown := .ok true }

def outcomeVariable (outcome : NodeOutcome) : Expression :=
  { getValueImpl .outcome .outcome
      (.ok (if outcome = .noOutcome then none else some outcome)) with
    isKnown := .ok (decide (outcome ≠ .noOutcome)) }

def failureVariable (ftype : FailureType) : Expression :=
  { getValueImpl .failure .failure (.ok (if ftype = .noFailure then none else some ftype)) with
    isKnown := .ok (decide (ftype ≠ .noFailure)) }

def commandHandleVariable (handle : CommandHandleValue) : Expression :=
  { getValueImpl .commandHandle .commandHandle
      (.ok (if handle = .noCommandHandle then none else some handle)) with
    isKnown := .ok (decide (handle ≠ .noCommandHandle)) }

/-- The time of a transition of a node, if there was one. -/
def nodeTimepointValue (m_time : Option Real) : Expression :=
  { getValueImpl .real .date (.ok m_time) with isKnown := .ok m_time.isSome }

/-- A `NodeFunction`: what its operator computes from the node. -/
def nodeFunction (computed : Read (Option Boolean)) : Expression :=
  getValueImpl .boolean .boolean computed

/-! ### Lookups -/

namespace Lookup

/-- `CachedValue::getValue`.  A `VoidCachedValue` answers for each of the types. -/
def getCachedValue : (T : ScalarType) → Intfc.Value → Read (Option T.Carrier)
  | .boolean, .unknown .unknown | .integer, .unknown .unknown | .real, .unknown .unknown
  | .string, .unknown .unknown => .ok none
  | .boolean, .boolean value => .ok (some value)
  | .boolean, .unknown .boolean => .ok none
  | .integer, .integer value => .ok (some value)
  | .integer, .unknown .integer => .ok none
  | .real, .integer value => .ok (some value.toReal)
  | .real, .unknown .integer => .ok none
  | .real, .real value => .ok (some value)
  | .real, .unknown .real => .ok none
  | .string, .string value => .ok (some value)
  | .string, .unknown .string => .ok none
  | _, _ => .error .error

/-- The array which a cached value has, if it has one; it is an error to ask a cached value which
is not for arrays. -/
def getCachedArray : Intfc.Value → Read (Option AnyArray)
  | .booleanArray ary => .ok (some ⟨.boolean, ary⟩)
  | .integerArray ary => .ok (some ⟨.integer, ary⟩)
  | .realArray ary => .ok (some ⟨.real, ary⟩)
  | .stringArray ary => .ok (some ⟨.string, ary⟩)
  | .unknown .unknown | .unknown .booleanArray | .unknown .integerArray | .unknown .realArray
  | .unknown .stringArray => .ok none
  | _ => .error .error

/-- `CachedValue::getValuePointer` -/
def getCachedPointer : (P : PointerType) → Intfc.Value → Read (Option P.Carrier)
  | .string, value => getCachedValue .string value
  | .array, value => getCachedArray value
  | .arrayOf .boolean, .booleanArray ary => .ok (some ary)
  | .arrayOf .integer, .integerArray ary => .ok (some ary)
  | .arrayOf .real, .realArray ary => .ok (some ary)
  | .arrayOf .string, .stringArray ary => .ok (some ary)
  | .arrayOf T, .unknown type =>
    if type = .unknown ∨ type = T.arrayType then .ok none else .error .error
  | _, _ => .error .error

def valueType (declaredType : ValueType) (m_value : Option Intfc.CachedValue) : ValueType :=
  match m_value with
  | some c => if c.valueType ≠ .unknown then c.valueType else declaredType
  | none => declaredType

/-- `LookupImpl` has no methods for the types of node states and the like. -/
def getValue (m_value : Option Intfc.CachedValue) (T : ScalarType) : Read (Option T.Carrier) :=
  match T, m_value with
  | .nodeState, _ | .outcome, _ | .failure, _ | .commandHandle, _ => .error .planError
  | _, none => .ok none
  | T, some c => getCachedValue T c.toValue

def getValuePointer (m_value : Option Intfc.CachedValue) (P : PointerType) :
    Read (Option P.Carrier) :=
  match m_value with
  | none => .ok none
  | some c => getCachedPointer P c.toValue

end Lookup

/-- A `LookupImpl` with the value of its entry in the state cache, if it has an entry with one. -/
def lookup (declaredType : ValueType) (m_value : Option Intfc.CachedValue) : Expression where
  valueType := Lookup.valueType declaredType m_value
  isKnown := .ok (m_value.any Intfc.CachedValue.isKnown)
  toValue := .ok (Intfc.cachedValue m_value)
  getValue := Lookup.getValue m_value
  getValuePointer := Lookup.getValuePointer m_value

/-! ### Aliases and array references -/

/-- The class `Alias`: every function calls the one of the same name. -/
def inAlias (m_exp : Expression) : Expression where
  valueType := m_exp.valueType
  isKnown := m_exp.isKnown
  toValue := m_exp.toValue
  getValue := m_exp.getValue
  getValuePointer := m_exp.getValuePointer

namespace ArrayReference

/-- The array and the index, when the element is known. -/
def selfCheck (m_array m_index : Expression) : Read (Option (AnyArray × Nat)) := do
  match ← m_index.getValue .integer with
  | none => return none
  | some idxTemp =>
    if idxTemp.toInt < 0 then throw .planError
    let idx := idxTemp.toNat
    match ← m_array.getValuePointer .array with
    | none => return none
    | some ary =>
      match ary.getKnownVector[idx]? with
      | none => throw .planError
      | some known => return if known then some (ary, idx) else none

/-- The answer of the element, when it is known. -/
def element {α : Type} (check : Read (Option (AnyArray × Nat)))
    (read : AnyArray → Nat → Read (Option α)) : Read (Option α) := do
  match ← check with
  | none => return none
  | some (ary, idx) => read ary idx

/-- `ArrayReference::getValue`; an element of an Integer array can be read as a Real. -/
def getValue (check : Read (Option (AnyArray × Nat))) (T : ScalarType) : Read (Option T.Carrier) :=
  match T with
  | .real => element check fun ary idx =>
    if ary.elementType = .integer then toReal (ary.getElement .integer idx)
    else ary.getElement .real idx
  | .nodeState | .outcome | .failure | .commandHandle => .error .planError
  | T => element check (AnyArray.getElement T)

end ArrayReference

def arrayReference (m_array m_index : Expression) : Expression where
  valueType := arrayElementType m_array.valueType
  isKnown := known (ArrayReference.selfCheck m_array m_index)
  toValue := valueOf .unknown (fun (ary, idx) => ary.getElementValue idx)
    (ArrayReference.selfCheck m_array m_index)
  getValue := ArrayReference.getValue (ArrayReference.selfCheck m_array m_index)
  getValuePointer := Function.update baseGetValuePointer .string
    (ArrayReference.element (ArrayReference.selfCheck m_array m_index) (AnyArray.getElement .string))

/-! ### Operators -/

/-- The methods of an operator for one argument, for two, and for a function with any number. -/
structure Methods (α : Type) where
  one : Expression → Read (Option α)
  two : Expression → Expression → Read (Option α)
  many : List Expression → Read (Option α)

namespace Methods

variable {α β : Type}

/-- Methods which only report an error. -/
def notImplemented : Methods α where
  one _ := .error .planError
  two _ _ := .error .planError
  many _ := .error .planError

def map (f : α → β) (methods : Methods α) : Methods β where
  one arg := (methods.one arg).map (Option.map f)
  two arg0 arg1 := (methods.two arg0 arg1).map (Option.map f)
  many args := (methods.many args).map (Option.map f)

/-- The method which the functions of one and of two arguments call, and the others. -/
def byArity (methods : Methods α) : List Expression → Read (Option α)
  | [arg] => methods.one arg
  | [arg0, arg1] => methods.two arg0 arg1
  | args => methods.many args

end Methods

/-- The class `OperatorImpl<R>`: the methods `operator()` with a result of the type `R`, which call
those named `calc` unless a derived class overrides them itself. -/
structure OperatorImpl (R : ScalarType) where
  calcMethods : Methods R.Carrier
  operatorMethods : Methods R.Carrier := calcMethods

namespace OperatorImpl

variable {R : ScalarType}

/-- The methods with a result of another type: those of `Operator` report an error; the ones of
`OperatorImpl<Integer>` with a Real result call `calc`. -/
def convert : {R : ScalarType} → OperatorImpl R → (T : ScalarType) → Methods T.Carrier
  | .integer, oper, .real => oper.calcMethods.map Integer.toReal
  | _, _, _ => Methods.notImplemented

/-- The methods `operator()` with a result of the type `T`. -/
def apply (oper : OperatorImpl R) : (T : ScalarType) → Methods T.Carrier :=
  Function.update oper.convert R oper.operatorMethods

end OperatorImpl

/-- A `Function`.  Those of one and of two arguments call the methods for as many arguments only
for the most common types of results. -/
def function {R : ScalarType} (m_op : OperatorImpl R) (args : List Expression) : Expression :=
  let getValue : (T : ScalarType) → Read (Option T.Carrier)
    | .boolean => (m_op.apply .boolean).byArity args
    | .integer => (m_op.apply .integer).byArity args
    | .real => (m_op.apply .real).byArity args
    | T => (m_op.apply T).many args
  { valueType := R.valueType
    isKnown := known (getValue R)
    toValue := valueOf R.valueType R.value (getValue R)
    getValue := getValue
    getValuePointer := baseGetValuePointer }

/-- A `CachedFunction`, as operators with string results have it.  Those of three and of four
arguments get a pointer by calling the method for one argument with themselves. -/
def cachedFunction (m_op : OperatorImpl .string) (args : List Expression) : Expression :=
  let self : Expression :=
    { valueType := .string
      isKnown := known ((m_op.apply .string).byArity args)
      toValue := valueOf .string .string ((m_op.apply .string).byArity args)
      getValue := Function.update (fun _ => .error .planError) .string
        ((m_op.apply .string).byArity args)
      getValuePointer := baseGetValuePointer }
  { self with
    getValuePointer := Function.update baseGetValuePointer .string
      (if args.length = 3 ∨ args.length = 4 then (m_op.apply .string).one self
        else (m_op.apply .string).byArity args) }

/-- `StringLength` overrides `operator()` itself. -/
def stringLength : OperatorImpl .integer where
  calcMethods := Methods.notImplemented
  operatorMethods := { Methods.notImplemented with
    one := fun arg =>
      (arg.getValuePointer .string).map (Option.map fun str => BitVec.ofNat 32 str.length) }

/-- `ArraySize` overrides `operator()` itself. -/
def arraySize : OperatorImpl .integer where
  calcMethods := Methods.notImplemented
  operatorMethods := { Methods.notImplemented with
    one := fun arg => (arg.getValuePointer .array).map
      (Option.map fun ary => BitVec.ofNat 32 ary.getKnownVector.length) }

/-- `ArrayMaxSize` overrides `operator()` itself. -/
def arrayMaxSize : OperatorImpl .integer where
  calcMethods := Methods.notImplemented
  operatorMethods := { Methods.notImplemented with
    one := fun arg => (arg.getValuePointer .array).map
      (Option.map fun ary => BitVec.ofNat 32 ary.getKnownVector.length) }

namespace StringConcat

/-- The loops over the arguments: the strings one after another, if all are known. -/
def concatenate : List Expression → Read (Option StringValue)
  | [] => .ok (some [])
  | arg :: args => do
    match ← arg.getValuePointer .string with
    | none => return none
    | some str => return (← concatenate args).map (str ++ ·)

end StringConcat

def stringConcat : OperatorImpl .string where
  calcMethods := Methods.notImplemented
  operatorMethods :=
    { one := fun arg => arg.getValue .string
      two := fun argA argB => StringConcat.concatenate [argA, argB]
      many := StringConcat.concatenate }

/-! ### Expression trees -/

/-- An expression with the values which variables, entries of the state cache and nodes have at the
moment.  The methods of operators which read the value of their arguments in the common way are
given by what they return. -/
inductive ExprTree where
  | constant (T : ScalarType) (m_value : Option T.Carrier)
  | userVariable (T : ScalarType) (m_value : Option T.Carrier)
  | array (T : ElementType) (m_value : Option (ArrayImpl T.Carrier))
  | state (nodeState : NodeState)
  | outcome (nodeOutcome : NodeOutcome)
  | failure (ftype : FailureType)
  | commandHandle (handle : CommandHandleValue)
  | timepoint (m_time : Option Real)
  | nodeFunction (computed : Read (Option Boolean))
  | lookup (declaredType : ValueType) (m_value : Option Intfc.CachedValue)
  | inAlias (m_exp : ExprTree)
  | arrayReference (m_array m_index : ExprTree)
  /-- The logical operators, comparisons and tests, which override `operator()`. -/
  | booleanFunction (operatorMethods : Methods Boolean) (args : List ExprTree)
  /-- The arithmetic operators and conversions on Integers, which override `calc`. -/
  | integerFunction (calcMethods : Methods Integer) (args : List ExprTree)
  /-- The arithmetic operators and conversions on Reals, which override `calc`. -/
  | realFunction (calcMethods : Methods Real) (args : List ExprTree)
  | stringLength (args : List ExprTree)
  | arraySize (args : List ExprTree)
  | arrayMaxSize (args : List ExprTree)
  | concat (args : List ExprTree)

namespace ExprTree

mutual

/-- The expression which the parser makes for the tree. -/
def expression : ExprTree → Expression
  | constant T m_value => Expr.constant T m_value
  | userVariable T m_value => Expr.userVariable T m_value
  | array T m_value => arrayVariable T m_value
  | state nodeState => stateVariable nodeState
  | outcome nodeOutcome => outcomeVariable nodeOutcome
  | failure ftype => failureVariable ftype
  | commandHandle handle => commandHandleVariable handle
  | timepoint m_time => nodeTimepointValue m_time
  | nodeFunction computed => Expr.nodeFunction computed
  | lookup declaredType m_value => Expr.lookup declaredType m_value
  | inAlias m_exp => Expr.inAlias m_exp.expression
  | arrayReference m_array m_index => Expr.arrayReference m_array.expression m_index.expression
  | booleanFunction operatorMethods args =>
    function (R := .boolean) ⟨Methods.notImplemented, operatorMethods⟩ (expressions args)
  | integerFunction calcMethods args =>
    function (R := .integer) ⟨calcMethods, calcMethods⟩ (expressions args)
  | realFunction calcMethods args =>
    function (R := .real) ⟨calcMethods, calcMethods⟩ (expressions args)
  | stringLength args => function Expr.stringLength (expressions args)
  | arraySize args => function Expr.arraySize (expressions args)
  | arrayMaxSize args => function Expr.arrayMaxSize (expressions args)
  | concat args => cachedFunction stringConcat (expressions args)

def expressions : List ExprTree → List Expression
  | [] => []
  | arg :: args => arg.expression :: expressions args

end

end ExprTree

end Plexil.Expr

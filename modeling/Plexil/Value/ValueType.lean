import Plexil.Node.Types
import Plexil.Util.Binary64
import Plexil.Util.Buffer

/-!
# Value types

The data types of values and the scalar types.  A `std::string` is the list of its bytes.
-/

namespace Plexil

abbrev Boolean := Bool

abbrev Integer := BitVec 32

abbrev Real := Binary64

abbrev StringValue := List Byte

/-- The conversion of an `Integer` to a `Real`. -/
def Integer.toReal (n : Integer) : Real := Binary64.ofInt n.toInt

inductive ValueType where
  | unknown | boolean | integer | real | string | date | duration | scalarMax
  | array | booleanArray | integerArray | realArray | stringArray | arrayMax
  | state
  | internalOffset | nodeState | outcome | failure | commandHandle | max
  deriving DecidableEq, Repr

namespace ValueType

/-- The number of an enumerator. -/
def code : ValueType → Byte
  | unknown => 0
  | boolean => 1
  | integer => 2
  | real => 3
  | string => 4
  | date => 5
  | duration => 6
  | scalarMax => 7
  | array => 16
  | booleanArray => 17
  | integerArray => 18
  | realArray => 19
  | stringArray => 20
  | arrayMax => 21
  | state => 32
  | internalOffset => 48
  | nodeState => 49
  | outcome => 50
  | failure => 51
  | commandHandle => 52
  | max => 53

/-- All enumerators. -/
def all : List ValueType :=
  [unknown, boolean, integer, real, string, date, duration, scalarMax, array, booleanArray,
    integerArray, realArray, stringArray, arrayMax, state, internalOffset, nodeState, outcome,
    failure, commandHandle, max]

/-- The enumerator of a number. -/
def ofCode (b : Byte) : Option ValueType := all.find? fun type => type.code = b

theorem ofCode_code (type : ValueType) :
  ofCode type.code = some type
  := by
  cases type <;> rfl

theorem code_injective :
  Function.Injective code
  := by
  intro s t h
  apply Option.some.inj
  rw [← ofCode_code s, ← ofCode_code t, h]

end ValueType

/-- The number of an enumerator. -/
def NodeState.code : NodeState → Byte
  | noNodeState => 0
  | inactive => 1
  | waiting => 2
  | executing => 3
  | iterationEnded => 4
  | finished => 5
  | failing => 6
  | finishing => 7

theorem NodeState.code_injective :
  Function.Injective NodeState.code
  := by
  intro x y h
  cases x <;> cases y <;> first | rfl | contradiction

/-- The number of an enumerator. -/
def NodeOutcome.code : NodeOutcome → Byte
  | noOutcome => 16
  | success => 17
  | failure => 18
  | skipped => 19
  | interrupted => 20

theorem NodeOutcome.code_injective :
  Function.Injective NodeOutcome.code
  := by
  intro x y h
  cases x <;> cases y <;> first | rfl | contradiction

/-- The number of an enumerator. -/
def FailureType.code : FailureType → Byte
  | noFailure => 32
  | preConditionFailed => 33
  | postConditionFailed => 34
  | invariantConditionFailed => 35
  | parentFailed => 36
  | exited => 37
  | parentExited => 38

theorem FailureType.code_injective :
  Function.Injective FailureType.code
  := by
  intro x y h
  cases x <;> cases y <;> first | rfl | contradiction

namespace CommandHandleValue

/-- The number of an enumerator. -/
def code : CommandHandleValue → Byte
  | noCommandHandle => 48
  | sentToSystem => 49
  | accepted => 50
  | rcvdBySystem => 51
  | failed => 52
  | denied => 53
  | success => 54
  | aborted => 55
  | abortFailed => 56
  | interfaceError => 57

/-- All enumerators. -/
def all : List CommandHandleValue :=
  [noCommandHandle, sentToSystem, accepted, rcvdBySystem, failed, denied, success, aborted,
    abortFailed, interfaceError]

/-- The enumerator of a number. -/
def ofCode (b : Byte) : Option CommandHandleValue := all.find? fun handle => handle.code = b

theorem ofCode_code (handle : CommandHandleValue) :
  ofCode handle.code = some handle
  := by
  cases handle <;> rfl

theorem code_injective :
  Function.Injective code
  := by
  intro x y h
  apply Option.some.inj
  rw [← ofCode_code x, ← ofCode_code y, h]

end CommandHandleValue

end Plexil

import Plexil.Value.Value
import Plexil.Xml.ArraySize
import Plexil.Xml.Check
import Plexil.Xml.CheckNode

/-!
# The launcher

The command `StartPlan` is given the name of a library, and names and values of parameters.  The
launcher builds a wrapper plan which calls the library.  The values are printed as the literals
of its aliases, and are read again when the plan is parsed.

A text of a plan is a list of characters, with a character for each byte.
-/

namespace Plexil.Launcher

open Xml

/-! ### Texts -/

/-- What is kept of a text which is handed over as a C string. -/
def cString (text : List Char) : List Char := text.takeWhile fun c => c ≠ '\x00'

def charOf (b : Byte) : Char := Char.ofNat b.toNat

def byteOf (c : Char) : Byte := BitVec.ofNat 8 c.toNat

def chars (s : StringValue) : List Char := s.map charOf

def bytes (text : List Char) : StringValue := text.map byteOf

/-- The name which a plan has for a string. -/
def nameOf (s : StringValue) : String := String.ofList (cString (chars s))

/-! ### Names -/

def nodeStateName : NodeState → String
  | .noNodeState => "NO_STATE"
  | .inactive => "INACTIVE"
  | .waiting => "WAITING"
  | .executing => "EXECUTING"
  | .iterationEnded => "ITERATION_ENDED"
  | .finished => "FINISHED"
  | .failing => "FAILING"
  | .finishing => "FINISHING"

def outcomeName : NodeOutcome → String
  | .noOutcome => "NO_OUTCOME"
  | .success => "SUCCESS"
  | .failure => "FAILURE"
  | .skipped => "SKIPPED"
  | .interrupted => "INTERRUPTED"

def failureTypeName : FailureType → String
  | .noFailure => "NO_FAILURE"
  | .preConditionFailed => "PRE_CONDITION_FAILED"
  | .postConditionFailed => "POST_CONDITION_FAILED"
  | .invariantConditionFailed => "INVARIANT_CONDITION_FAILED"
  | .parentFailed => "PARENT_FAILED"
  | .exited => "EXITED"
  | .parentExited => "PARENT_EXITED"

def commandHandleValueName : CommandHandleValue → String
  | .noCommandHandle => "NO_COMMAND_HANDLE"
  | .sentToSystem => "COMMAND_SENT_TO_SYSTEM"
  | .accepted => "COMMAND_ACCEPTED"
  | .rcvdBySystem => "COMMAND_RCVD_BY_SYSTEM"
  | .failed => "COMMAND_FAILED"
  | .denied => "COMMAND_DENIED"
  | .success => "COMMAND_SUCCESS"
  | .aborted => "COMMAND_ABORTED"
  | .abortFailed => "COMMAND_ABORT_FAILED"
  | .interfaceError => "COMMAND_INTERFACE_ERROR"

/-- The first of the enumerators which has the name. -/
def findName {α : Type} (name : α → String) (text : List Char) (enumerators : List α) : Option α :=
  enumerators.find? fun x => (name x).toList = text

def parseNodeState (text : List Char) : Option NodeState :=
  findName nodeStateName text
    [.inactive, .waiting, .executing, .iterationEnded, .finished, .failing, .finishing]

def parseNodeOutcome (text : List Char) : Option NodeOutcome :=
  findName outcomeName text [.success, .failure, .skipped, .interrupted]

def parseFailureType (text : List Char) : Option FailureType :=
  findName failureTypeName text
    [.preConditionFailed, .postConditionFailed, .invariantConditionFailed, .parentFailed, .exited,
      .parentExited]

/-- There are constants for these only. -/
def commandHandleConstant (text : List Char) : Option CommandHandleValue :=
  findName commandHandleValueName text
    [.sentToSystem, .accepted, .rcvdBySystem, .failed, .denied, .success]

def typeNameAsValue : ValueType → String
  | .boolean => "BooleanValue"
  | .integer => "IntegerValue"
  | .real => "RealValue"
  | .string => "StringValue"
  | .date => "DateValue"
  | .duration => "DurationValue"
  | .nodeState => "NodeStateValue"
  | .outcome => "NodeOutcomeValue"
  | .failure => "NodeFailureValue"
  | .commandHandle => "NodeCommandHandleValue"
  | _ => ""

/-- The type of a type name, or `unknown`. -/
def parseValueType (typeStr : String) : ValueType :=
  match typeStr with
  | "Array" => .array
  | "Boolean" => .boolean
  | "BooleanArray" => .booleanArray
  | "Date" => .date
  | "Duration" => .duration
  | "Integer" => .integer
  | "IntegerArray" => .integerArray
  | "NodeState" => .nodeState
  | "NodeFailure" => .failure
  | "NodeOutcome" => .outcome
  | "NodeCommandHandle" => .commandHandle
  | "Real" => .real
  | "RealArray" => .realArray
  | "State" => .state
  | "String" => .string
  | "StringArray" => .stringArray
  | _ => .unknown

/-! ### Values as literals -/

/-- The element of a literal.  The elements of an `ArrayValue` have their tags and texts. -/
inductive LiteralXml where
  | scalar (tag : String) (text : List Char)
  | array (type : String) (elements : List (String × List Char))

/-- How real numbers are written to a stream with 15 digits, and read with `strtod`. -/
structure RealFormat where
  print : Real → List Char
  parse : List Char → Except ParseValueError (Option Real)

variable (reals : RealFormat)

def printBoolean (value : Boolean) : List Char := if value then "true".toList else "false".toList

def printInteger (value : Integer) : List Char :=
  Strtol.numeral (value.toInt < 0) value.toInt.natAbs

/-- The text for the value of an enumeration which has no enumerator. -/
def printInvalid (kind : String) (code : Byte) : List Char :=
  "<INVALID ".toList ++ kind.toList ++ [ ' ', charOf code, '>']

def printNodeState (value : NodeState) : List Char :=
  if value = .noNodeState then printInvalid "NODE STATE" value.code
  else (nodeStateName value).toList

def printNodeOutcome (value : NodeOutcome) : List Char :=
  if value = .noOutcome then printInvalid "NODE OUTCOME" value.code
  else (outcomeName value).toList

def printFailureType (value : FailureType) : List Char :=
  if value = .noFailure then printInvalid "FAILURE TYPE" value.code
  else (failureTypeName value).toList

def printCommandHandleValue (value : CommandHandleValue) : List Char :=
  if value = .noCommandHandle then printInvalid "COMMAND HANDLE VALUE" value.code
  else (commandHandleValueName value).toList

/-- The text of an unknown value. -/
def unknownValue : List Char := "[unknown_value]".toList

def scalarXml (type : ValueType) (text : List Char) : LiteralXml :=
  .scalar (typeNameAsValue type) (cString text)

/-- The type name of the elements is the tag of their literals. -/
def arrayXml {α : Type} (eltType : ValueType) (print : α → List Char) (ary : ArrayImpl α) :
    LiteralXml :=
  .array (typeNameAsValue eltType) (ary.map fun element =>
    (typeNameAsValue eltType,
      cString (if element.known then print element.contents else unknownValue)))

/-- `StartPlan` is not given unknown values. -/
def valueToExprXml : Intfc.Value → LiteralXml
  | .unknown type => scalarXml type unknownValue
  | .boolean value => scalarXml .boolean (printBoolean value)
  | .integer value => scalarXml .integer (printInteger value)
  | .real value => scalarXml .real (reals.print value)
  | .string value => scalarXml .string (chars value)
  | .booleanArray ary => arrayXml .boolean printBoolean ary
  | .integerArray ary => arrayXml .integer printInteger ary
  | .realArray ary => arrayXml .real reals.print ary
  | .stringArray ary => arrayXml .string chars ary
  | .nodeState value => scalarXml .nodeState (printNodeState value)
  | .outcome value => scalarXml .outcome (printNodeOutcome value)
  | .failure value => scalarXml .failure (printFailureType value)
  | .commandHandle value => scalarXml .commandHandle (printCommandHandleValue value)

/-! ### Reading literals -/

/-- Why a wrapper plan is rejected. -/
inductive LaunchError where
  | check (error : Document.ParserError)
  | malformedValue
  | noLibrary
  | parseValue (error : ParseValueError)
  | invalidConstant
  | invalidElementType
  | noFactory
  | condition
  | finalize (error : ParserException)

def parseBoolean (str : List Char) : Except ParseValueError (Option Boolean) :=
  if str = ['0'] then .ok (some false)
  else if str = ['1'] then .ok (some true)
  else if str.map Char.toLower = "true".toList then .ok (some true)
  else if str.map Char.toLower = "false".toList then .ok (some false)
  else if str = "UNKNOWN".toList then .ok none
  else .error .invalid

/-- A constant for the value which has been read, or for an unknown value. -/
def constant {α : Type} (type : ValueType) (known : α → Intfc.Value) :
    Except ParseValueError (Option α) → Except LaunchError Intfc.Value
  | .error e => .error (.parseValue e)
  | .ok none => .ok (.unknown type)
  | .ok (some x) => .ok (known x)

/-- A constant which is known by its name. -/
def namedConstant {α : Type} (known : α → Intfc.Value) : Option α → Except LaunchError Intfc.Value
  | none => .error .invalidConstant
  | some x => .ok (known x)

/-- An unknown element has the default value of its type. -/
def createArrayLiteral {α : Type} (parse : List Char → Except ParseValueError (Option α))
    (default : α) (elements : List (String × List Char)) :
    Except LaunchError (ArrayImpl α) :=
  elements.mapM fun element =>
    match parse element.2 with
    | .error e => .error (.parseValue e)
    | .ok none => .ok ⟨false, default⟩
    | .ok (some x) => .ok ⟨true, x⟩

def parseInteger32 (text : List Char) : Except ParseValueError (Option Integer) :=
  (parseInteger text).map fun value => value.map (BitVec.ofInt 32)

def parseString (text : List Char) : Except ParseValueError (Option StringValue) :=
  .ok (some (bytes text))

/-- The value of the constant which is created for a literal. -/
def createExpression : LiteralXml → Except LaunchError Intfc.Value
  | .scalar tag text =>
    match tag with
    | "BooleanValue" => constant .boolean .boolean (parseBoolean text)
    | "IntegerValue" => constant .integer .integer (parseInteger32 text)
    | "RealValue" => constant .real .real (reals.parse text)
    | "StringValue" => constant .string .string (parseString text)
    | "NodeStateValue" => namedConstant .nodeState (parseNodeState text)
    | "NodeOutcomeValue" => namedConstant .outcome (parseNodeOutcome text)
    | "NodeFailureValue" => namedConstant .failure (parseFailureType text)
    | "NodeCommandHandleValue" => namedConstant .commandHandle (commandHandleConstant text)
    | _ => .error .noFactory
  | .array type elements =>
    match parseValueType type with
    | .boolean => (createArrayLiteral parseBoolean false elements).map .booleanArray
    | .integer => (createArrayLiteral parseInteger32 0 elements).map .integerArray
    | .real => (createArrayLiteral reals.parse 0 elements).map .realArray
    | .string => (createArrayLiteral parseString [] elements).map .stringArray
    | _ => .error .invalidElementType

/-! ### Wrapper plans -/

/-- What `makeWrapperPlanXml` writes: the `NodeId` of the root node, which is also the argument of
the lookup in its `ExitCondition`, and the `LibraryNodeCall` in its body. -/
structure WrapperPlan where
  callerName : List Char
  calleeName : List Char
  aliases : List (List Char × LiteralXml)

def makeWrapperPlanXml (callerName calleeName : List Char) (formals : List (List Char))
    (actuals : List Intfc.Value) : WrapperPlan where
  callerName := cString callerName
  calleeName := cString calleeName
  aliases := (formals.zip actuals).map fun p => (cString p.1, valueToExprXml reals p.2)

namespace LiteralXml

/-- The element has a child. -/
def hasChild : LiteralXml → Bool
  | scalar _ _ => true
  | array _ elements => !elements.isEmpty

def tag : LiteralXml → String
  | scalar tag _ => tag
  | array _ _ => "ArrayValue"

def element : LiteralXml → Document.ExprElement
  | scalar tag text => .other tag (String.ofList text) []
  | array type _ => .other "ArrayValue" type []

end LiteralXml

namespace WrapperPlan

variable (plan : WrapperPlan)

/-- The plan has asked to be exited: `ExitPlan(callerName)`. -/
def exitLookup : Document.ExprElement :=
  .lookup false (.stringValue "ExitPlan") [] true [.stringValue (String.ofList plan.callerName)]

def children : List Document.NodeChild :=
  [.nodeId (String.ofList plan.callerName), .condition "ExitCondition" plan.exitLookup, .nodeBody]

/-- The names of the aliases, with what stands for their values in the check of a call. -/
def aliasElements : List (String × Document.ExprElement) :=
  plan.aliases.map fun a => (String.ofList a.1, a.2.element)

end WrapperPlan

/-- A library which has been loaded, with the calls in it expanded.  Its document has been checked,
and so the names of its root's parameters and variables are not empty and differ. -/
structure Library where
  root : Xml.Node
  globalMutexes : List String
  named : ∀ decl ∈ root.header.variables, decl.name ≠ ""
  distinct : (root.header.variables.map Declaration.name).Nodup

/-- The libraries which are found under their names; a library has a name. -/
structure Libraries where
  getLibraryNode : String → Option Library
  named : getLibraryNode "" = none

/-- A plan which has been parsed, with the aliases of the call and the nodes. -/
structure LoadedPlan where
  rootId : String
  aliases : List (String × Intfc.Value)
  nodes : List FinalizedNode

variable (factories : Document.Factories) (libraries : Libraries)

/-- Only a string may be empty. -/
def checkAliasValue (value : LiteralXml) : Except LaunchError Unit :=
  if value.hasChild ∨ value.tag = "StringValue" then .ok () else .error .malformedValue

/-- The first pass. -/
def checkPlan (plan : WrapperPlan) : Except LaunchError Unit := do
  (Document.checkChildren factories {} [] false true plan.children).mapError .check
  (Document.checkLibraryCall (String.ofList plan.calleeName) plan.aliasElements).mapError .check
  plan.aliases.forM fun a => checkAliasValue a.2

/-- The exit condition is created. -/
def createConditions (plan : WrapperPlan) : Except LaunchError Unit := do
  let cond ← (Document.createExpression factories {} [] .unknown plan.exitLookup).mapError .check
  if cond.valueType = .boolean ∨ cond.valueType = .unknown then .ok () else .error .condition

/-- The root node of a wrapper plan. -/
def callNode (callerName : String) (aliases : List (String × ValueType)) (library : Library) :
    Xml.Node :=
  .libraryNodeCall { nodeId := callerName } (aliases.map fun a => (a.1, .other a.2 true))
    library.globalMutexes library.root

def finalizeAliases (plan : WrapperPlan) : Except LaunchError (List (String × Intfc.Value)) :=
  plan.aliases.mapM fun a => (createExpression reals a.2).map fun value =>
    (String.ofList a.1, value)

def parsePlan (plan : WrapperPlan) : Except LaunchError LoadedPlan := do
  checkPlan factories plan
  match libraries.getLibraryNode (String.ofList plan.calleeName) with
  | none => .error .noLibrary
  | some library => do
    createConditions factories plan
    let aliases ← finalizeAliases reals plan
    let root := callNode (String.ofList plan.callerName)
      (aliases.map fun a => (a.1, a.2.valueType)) library
    let nodes ← (Xml.parsePlan [] root).mapError .finalize
    return ⟨String.ofList plan.callerName, aliases, nodes⟩

/-- The value which the called node has under a name: that of the alias, unless the called node has
a variable of its own. -/
def LoadedPlan.valueOf (plan : LoadedPlan) (name : String) : Option Intfc.Value :=
  match plan.nodes with
  | _ :: callee :: _ =>
    if (callee.scope.findLocalVariable name).isSome then none else plan.aliases.lookup name
  | _ => none

/-! ### The command -/

/-- The calls of the interface. -/
inductive AdapterCall where
  | handleAddPlan (plan : LoadedPlan)
  | handleCommandReturn (value : Intfc.Value)
  | handleCommandAck (value : CommandHandleValue)
  | notifyOfExternalEvent

/-- The acknowledgement when the command fails. -/
def commandFailed : List AdapterCall := [.handleCommandAck .failed, .notifyOfExternalEvent]

def checkPlanNameArgument : List Intfc.Value → Option StringValue
  | .string nodeName :: _ => some nodeName
  | _ => none

/-- The names and values behind the name of the plan. -/
def readPairs : List Intfc.Value → Option (List StringValue × List Intfc.Value)
  | [] => some ([], [])
  | [_] => none
  | .string formal :: actual :: rest =>
    if actual.isKnown then
      (readPairs rest).map fun (formals, actuals) => (formal :: formals, actual :: actuals)
    else none
  | _ :: _ :: _ => none

/-- The name of a caller, for the next serial number. -/
def callerId (nodeName : StringValue) (serial : BitVec 32) : List Char :=
  chars nodeName ++ '_' :: Nat.toDigits 10 serial.toNat

/-- The handler of `StartPlan`: the last serial number, and the calls of the interface. -/
def executeStartPlanCommand (serial : BitVec 32) (args : List Intfc.Value) :
    BitVec 32 × List AdapterCall :=
  match checkPlanNameArgument args with
  | none => (serial, commandFailed)
  | some nodeName =>
    match readPairs args.tail with
    | none => (serial, commandFailed)
    | some (formals, actuals) =>
      let next := serial + 1
      let callerId := callerId nodeName next
      let doc := makeWrapperPlanXml reals callerId (chars nodeName) (formals.map chars) actuals
      match parsePlan reals factories libraries doc with
      | .error _ => (next, commandFailed)
      | .ok plan =>
        (next, [.handleAddPlan plan, .handleCommandReturn (.string (bytes callerId)),
          .handleCommandAck .success, .notifyOfExternalEvent])

/-- The calls for one command after the other. -/
def executeCommands (serial : BitVec 32) : List (List Intfc.Value) → List (List AdapterCall)
  | [] => []
  | args :: rest =>
    let result := executeStartPlanCommand reals factories libraries serial args
    result.2 :: executeCommands result.1 rest

end Plexil.Launcher

import Plexil.Epx.Loops

/-!
# OnCommand

An `OnCommand` waits for its command with one command node, gets every parameter with another
one, and then does its action.  The command which has been received is known by its handle.  The
translator gives the handle to the commands of the action which send a return value, as their
first argument, and adds a node which sends one when the action does not.
-/

namespace Plexil.Epx

/-! ### Plans with commands -/

/-- The name of a command: a `StringValue`, or another expression of the plan. -/
inductive CommandName where
  | stringValue (text : String)
  | expression (index : Nat)
  deriving DecidableEq

/-- An argument of a command: one which the translator builds, or an expression of the plan. -/
inductive Argument where
  | stringVariable (name : String)
  | stringValue (text : String)
  | integerValue (value : Nat)
  | booleanValue (value : Bool)
  | expression (index : Nat)
  deriving DecidableEq

/-- A `Command` element, with the name of its destination. -/
structure Command where
  dest : Option String
  name : Option CommandName
  arguments : List Argument
  deriving DecidableEq

/-- The command is `SendReturnValue`. -/
def Command.isSendReturnValue (c : Command) : Bool :=
  c.name = some (.stringValue "SendReturnValue")

/-- The bodies without children and without a command. -/
inductive PlainBody where
  | assignment | update | empty | libraryNodeCall

def PlainBody.nodeType : PlainBody → PlexilNodeType
  | assignment => .assignment
  | update => .update
  | empty => .empty
  | libraryNodeCall => .libraryNodeCall

/-- A `Node` element with the commands of its body. -/
inductive PlanNode where
  | list (element : ActionElement) (children : List PlanNode)
  | command (element : ActionElement) (command : Command)
  | plain (element : ActionElement) (body : PlainBody)

namespace PlanNode

/-- What the node has besides its body. -/
def element : PlanNode → ActionElement
  | list x _ | command x _ | plain x _ => x

def withElement (x : ActionElement) : PlanNode → PlanNode
  | list _ children => list x children
  | command _ c => command x c
  | plain _ body => plain x body

/-- `NodeBody/Command` at the node. -/
def bodyCommand : PlanNode → Option Command
  | command _ c => some c
  | list _ _ | plain _ _ => none

mutual

/-- The node as far as its conditions and its children go. -/
def core : PlanNode → CoreNode
  | list x children => ⟨x.nodeId, .nodeList, x.usingMutex, x.conditions, coreAll children⟩
  | command x _ => ⟨x.nodeId, .command, x.usingMutex, x.conditions, []⟩
  | plain x body => ⟨x.nodeId, body.nodeType, x.usingMutex, x.conditions, []⟩

def coreAll : List PlanNode → List CoreNode
  | [] => []
  | child :: rest => core child :: coreAll rest

end

mutual

/-- The commands of the node, in document order. -/
def commands : PlanNode → List Command
  | list _ children => commandsAll children
  | command _ c => [c]
  | plain _ _ => []

def commandsAll : List PlanNode → List Command
  | [] => []
  | child :: rest => commands child ++ commandsAll rest

end

/-- How many commands send a return value. -/
def returnCount (node : PlanNode) : Nat := node.commands.countP Command.isSendReturnValue

mutual

/-- `amend-send-return`, where `context` is the command in the body of the context item. -/
def amendSendReturn (hdlRef : Argument) (context : Option Command) : PlanNode → PlanNode
  | list x children => list x (amendChildren hdlRef children)
  | command x c =>
    command x
      (if c.isSendReturnValue then
        { dest := context.bind Command.dest
          name := context.bind Command.name
          arguments := hdlRef :: (context.map Command.arguments).getD [] }
      else c)
  | plain x body => plain x body

/-- The loop over the children, each of which is the context item for its body. -/
def amendChildren (hdlRef : Argument) : List PlanNode → List PlanNode
  | [] => []
  | child :: rest =>
    amendSendReturn hdlRef child.bodyCommand child :: amendChildren hdlRef rest

end

end PlanNode

/-! ### The translation -/

/-- A parameter of a command: a `DeclareVariable` or a `DeclareArray` element. -/
structure Parameter where
  name : String
  isArray : Bool
  initialValue : Bool

/-- What has to be known of a parameter: the variable, or the first element of the array. -/
def Parameter.tested (p : Parameter) : String := if p.isArray then p.name ++ "[0]" else p.name

/-- `param-node-id`. -/
def paramNodeId (index : Nat) : String := generatedId "CmdGetParam" ++ "_" ++ toString index

/-- The NodeId of the node which is added to send a return value. -/
def returnNodeId (cmdName : String) : String := generatedId "OnCommandReturn" ++ "_" ++ cmdName

/-- An `OnCommand` element, with its action translated.  `sends` tells whether there is a
`SendReturnValue` command in the element as it is written; the translation of the action has
this command, and it has others when there is an `OnCommand` in the action. -/
structure OnCommandElement where
  action : ActionElement
  cmdName : String
  parameters : List Parameter
  body : PlanNode
  sends : Bool
  named : action.nodeId ≠ ""
  distinct : (action.conditions.map Prod.fst).Nodup
  written : ∀ c ∈ action.conditions, c.2.refs = []
  checked : checkNode none body.core = true
  commandsNamed : ∀ c ∈ body.commands, c.name.isSome = true
  sent : sends = true → 0 < body.returnCount
  declared : (generatedId "hdl" :: parameters.map Parameter.tested).Nodup
  nodeIds : body.element.nodeId ∉ generatedId "CmdWait" :: returnNodeId cmdName ::
    (List.range parameters.length).map paramNodeId

namespace OnCommandElement

variable (t : OnCommandElement)

/-- The command identifier variable. -/
def hdlName : String := generatedId "hdl"

def hdlRef : Argument := .stringVariable hdlName

def nParams : Nat := t.parameters.length

/-- The post condition of the nodes which receive a value. -/
def handleSuccess : ConditionName × CoreExpr := (.post, .eqInternal .self .success)

/-- `on-command-command-wait`. -/
def commandWait : PlanNode :=
  .command ⟨generatedId "CmdWait", false, [(.end, .isKnown hdlName), handleSuccess]⟩
    ⟨some hdlName, some (.stringValue "ReceiveCommand"), [.stringValue t.cmdName]⟩

/-- `get-param-command-node`. -/
def getParamCommandNode (index : Nat) (p : Parameter) : PlanNode :=
  .command
    ⟨paramNodeId index, false,
      [(.start, .isKnown hdlName), (.end, .isKnown p.tested), handleSuccess]⟩
    ⟨some p.name, some (.stringValue "GetParameter"), [hdlRef, .integerValue index]⟩

/-- `on-command-body-start-condition`. -/
def bodyStartCondition : CoreExpr :=
  match t.nParams with
  | 0 => .isKnown hdlName
  | 1 => .succeeded (.sibling (paramNodeId 0))
  | n => .and ((List.range n).map fun i => .succeeded (.sibling (paramNodeId i)))

/-- The body of the action.  The context item is the `OnCommand` element, which has no
`NodeBody`. -/
def amendedBody : PlanNode := t.body.amendSendReturn hdlRef none

/-- `on-command-action-body`.  The conditions which are copied are those of
`tr:conditions($action) except StartCondition`, and `StartCondition` is that of the context
item. -/
def actionBody : PlanNode :=
  t.amendedBody.withElement
    { t.body.element with
      conditions := t.body.element.conditions ++ [(.start, t.bodyStartCondition)] }

/-- The node which is added to send a return value. -/
def returnNode : PlanNode :=
  .command
    ⟨returnNodeId t.cmdName, false, [(.start, .finished (.sibling t.body.element.nodeId))]⟩
    ⟨none, some (.stringValue "SendReturnValue"), [hdlRef, .booleanValue true]⟩

def children : List PlanNode :=
  t.commandWait :: t.parameters.mapIdx getParamCommandNode ++
    t.actionBody :: if t.sends then [] else [t.returnNode]

/-- `OnCommand-staging`. -/
def staging : PlanNode :=
  .list
    { t.action with
      conditions := (t.action.conditions.filter fun element => element.1 ≠ .invariant) ++
        [successInvariantCondition (select t.action.conditions .invariant)] }
    t.children

/-- The list node of the translation. -/
def node : CoreNode := t.staging.core

end OnCommandElement

end Plexil.Epx

import Plexil.Epx.If

/-!
# Loops

The body of a `While` is a list node which repeats while its first child, the test node, has
succeeded; the second one is the action.  When the `While` declares variables, uses mutexes or
has a repeat or start condition, the body is wrapped in a node which has them and the other
conditions of the `While`; otherwise all of these are conditions of the body.

The body of a `For` is skipped when its condition is false, and repeats for ever; the loop
variable is updated by its second child, when the action is finished.
-/

namespace Plexil.Epx

/-! ### While -/

/-- A `While` element.  The NodeIds of its children are different. -/
structure WhileElement where
  action : ActionElement
  declares : Bool
  condition : Nat
  body : Action
  distinct : body.node.nodeId ≠ generatedId "WhileTest"

namespace WhileElement

variable (t : WhileElement)

/-- The conditions which require a wrapper. -/
def isWrapped : Bool :=
  t.declares || t.action.usingMutex ||
    t.action.conditions.any fun element => element.1 = .repeat || element.1 = .start

/-- `while-body-2`.  The action is merged as a clause of an `If` is. -/
def whileBody2 : CoreNode :=
  ifClauseBody "WhileAction" (.succeeded (.sibling (generatedId "WhileTest")))
    (.postconditionFailed (.sibling (generatedId "WhileTest"))) t.body.node

/-- `while-body-1`, for a node with these conditions. -/
def whileBody1 (nodeId : String) (usingMutex : Bool)
    (conditions : List (ConditionName × CoreExpr)) : CoreNode where
  nodeId := nodeId
  nodeType := .nodeList
  usingMutex := usingMutex
  conditions := conditions ++ [(.repeat, .succeeded (.child (generatedId "WhileTest")))]
  children :=
    [conditionNode (generatedId "WhileTest") [] (.user t.condition), t.whileBody2]

/-- The node which repeats. -/
def loop : CoreNode :=
  if t.isWrapped then t.whileBody1 (generatedId "WhileBody") false []
  else t.whileBody1 t.action.nodeId t.action.usingMutex t.action.conditions

/-- The translation of a `While`. -/
def translate : CoreNode :=
  if t.isWrapped then
    { nodeId := t.action.nodeId
      nodeType := .nodeList
      usingMutex := t.action.usingMutex
      conditions := t.action.conditions
      children := [t.loop] }
  else t.loop

end WhileElement

/-! ### For -/

/-- A `For` element, with different NodeIds of the children of its body. -/
structure ForElement where
  action : ActionElement
  condition : Nat
  body : Action
  distinct : body.node.nodeId ≠ generatedId "ForLoopUpdater"

namespace ForElement

variable (t : ForElement)

/-- The assignment which updates the loop variable. -/
def updater : CoreNode where
  nodeId := generatedId "ForLoopUpdater"
  nodeType := .assignment
  usingMutex := false
  conditions := [(.start, .finished (.sibling t.body.node.nodeId))]
  children := []

/-- `for-body`. -/
def loop : CoreNode where
  nodeId := generatedId "ForLoop"
  nodeType := .nodeList
  usingMutex := false
  conditions := [(.skip, .not (.user t.condition)), (.repeat, .boolean true)]
  children := [t.body.node, t.updater]

/-- The translation of a `For`. -/
def translate : CoreNode where
  nodeId := t.action.nodeId
  nodeType := .nodeList
  usingMutex := t.action.usingMutex
  conditions := t.action.conditions
  children := [t.loop]

end ForElement

end Plexil.Epx

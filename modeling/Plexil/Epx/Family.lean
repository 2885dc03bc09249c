import Plexil.Epx.CorePlexil
import Plexil.Util.StateMachine

/-!
# A list node and its children at run time

The executive transitions nodes in batches.  The destination states of all nodes are found
first, in the state before the batch, and then every node with a destination makes its
transition; only a node which has to acquire resources may be left waiting for them.

The batches are followed for one list node and its children.  What is around them is given
by `Surroundings`, anew for each batch: the ancestors of the list node, the bodies of the
children, and what the expressions read besides the nodes of the family.
-/

namespace Plexil

namespace NodeStatus

/-- Leaving FINISHED, and repeating, clears the outcome and the failure type. -/
def leave (x : NodeStatus) (next : NodeState) : NodeStatus :=
  if x.state = .finished ∨ (x.state = .iterationEnded ∧ next = .waiting) then
    { x with outcome := .noOutcome, failureType := .noFailure }
  else x

/-- The status after a transition.  A failure type comes with an outcome. -/
def transition (x : NodeStatus) (d : Dest) : NodeStatus :=
  let y := x.leave d.state
  match d.outcome with
  | none => { y with state := d.state }
  | some outcome => ⟨d.state, outcome, d.failureType.getD y.failureType⟩

@[simp]
theorem transition_state (x : NodeStatus) (d : Dest) :
  (x.transition d).state = d.state
  := by
  unfold transition
  dsimp only
  split <;> rfl

end NodeStatus

namespace Epx

/-- What the body of a node tells: for a list node about its children, for a command, an
assignment or an update about itself. -/
structure Body where
  allFinished : Bool
  allWaitingOrFinished : Bool
  handle : CommandHandleValue
  ack : Bool
  abortComplete : Bool

namespace CoreNode

/-- The end condition, with what the node type makes of the one of the plan. -/
def endCondition (node : CoreNode) (σ : Valuation) (b : Body) : Condition :=
  let user := node.value σ .end
  match node.nodeType with
  | .nodeList | .libraryNodeCall => some (user.getD (some b.allFinished))
  | .command =>
    match node.condition .end with
    | some (.boolean true) => user
    | _ => user.map (kleeneOr (some (Exec.commandHandleInterruptible b.handle)))
  | .update => some (kleeneAnd (some b.ack) (user.getD (some true)))
  | .assignment | .empty => user

def actionCompleteCondition (node : CoreNode) (b : Body) : Condition :=
  match node.nodeType with
  | .nodeList | .libraryNodeCall => some (some b.allWaitingOrFinished)
  | .command => some (some (b.handle ≠ .noCommandHandle))
  | .assignment | .update => some (some b.ack)
  | .empty => none

def abortCompleteCondition (node : CoreNode) (b : Body) : Condition :=
  match node.nodeType with
  | .assignment | .command => some (some b.abortComplete)
  | .nodeList | .libraryNodeCall | .update | .empty => none

/-- The conditions of the ancestors of a node. -/
structure AncestorConditions where
  exit : Condition
  invariant : Condition
  «end» : Condition

/-- What is consulted for the destination state of a node. -/
def view (node : CoreNode) (σ : Valuation) (b : Body) (ancestor : AncestorConditions)
    (parentState : Option NodeState) (x : NodeStatus) : NodeView where
  ancestorExit := ancestor.exit
  ancestorInvariant := ancestor.invariant
  ancestorEnd := ancestor.end
  skip := node.value σ .skip
  start := node.value σ .start
  pre := node.value σ .pre
  exit := node.value σ .exit
  invariant := node.value σ .invariant
  «end» := node.endCondition σ b
  post := node.value σ .post
  «repeat» := node.value σ .repeat
  actionComplete := node.actionCompleteCondition b
  abortComplete := node.abortCompleteCondition b
  nodeType := node.nodeType
  state := x.state
  failureType := x.failureType
  parentState := parentState

/-- The conditions of the ancestors of a child of a list node. -/
def childAncestors (node : CoreNode) (σ : Valuation) (ancestor : AncestorConditions) :
    AncestorConditions where
  exit := (node.value σ .exit).combine kleeneOr ancestor.exit
  invariant := (node.value σ .invariant).combine kleeneAnd ancestor.invariant
  «end» := (node.value σ .end).combine kleeneOr ancestor.end

/-- The status of a node after a batch, where `v` is what the node consults and `blocked`
tells whether the resources it has to acquire are not available. -/
def move (node : CoreNode) (blocked : Bool) (v : NodeView) (x : NodeStatus) : NodeStatus :=
  match destState v with
  | none => x
  | some d =>
    if d.state = .executing ∧ node.acquiresResources ∧ blocked then x else x.transition d

end CoreNode

/-- The members of a family: the list node, and its children by their positions. -/
inductive Member where
  | list
  | child (i : Nat)
  deriving DecidableEq

/-- What is around a family when a batch begins. -/
structure Surroundings where
  ancestor : CoreNode.AncestorConditions
  grandparent : Option NodeState
  body : Nat → Body
  base : Member → Valuation
  blocked : Member → Bool

/-- The states of the list node and of its children. -/
structure Family where
  list : NodeStatus
  child : Nat → NodeStatus

namespace Family

/-- No node has started. -/
def initial : Family := ⟨.initial, fun _ => .initial⟩

variable (node : CoreNode) (e : Surroundings) (s : Family)

/-- The child with a node id. -/
def find (nodeId : String) : Option NodeStatus :=
  (node.children.findIdx? fun c => c.nodeId = nodeId).map s.child

def allFinished : Bool := ∀ i < node.children.length, (s.child i).state = .finished

def allWaitingOrFinished : Bool :=
  ∀ i < node.children.length, (s.child i).state = .waiting ∨ (s.child i).state = .finished

/-- `NoChildFailed` is false. -/
def childFailed : Bool := ∃ i < node.children.length, (s.child i).failed

/-- What the expressions of the list node read. -/
def listValuation : Valuation :=
  { e.base .list with
    status := fun
      | .self => some s.list
      | .child nodeId => s.find node nodeId
      | ref => (e.base .list).status ref
    childFailed := fun
      | .self => s.childFailed node
      | ref => (e.base .list).childFailed ref }

/-- What the expressions of a child read. -/
def childValuation (i : Nat) : Valuation :=
  { e.base (.child i) with
    status := fun
      | .self => some (s.child i)
      | .parent => some s.list
      | .sibling nodeId => s.find node nodeId
      | ref => (e.base (.child i)).status ref
    childFailed := fun
      | .parent => s.childFailed node
      | ref => (e.base (.child i)).childFailed ref }

/-- The body of the list node. -/
def listBody : Body where
  allFinished := s.allFinished node
  allWaitingOrFinished := s.allWaitingOrFinished node
  handle := .noCommandHandle
  ack := false
  abortComplete := false

def listView : NodeView :=
  node.view (s.listValuation node e) (s.listBody node) e.ancestor e.grandparent s.list

/-- The conditions of the ancestors of the children. -/
def childAncestors : CoreNode.AncestorConditions :=
  node.childAncestors (s.listValuation node e) e.ancestor

def childView (i : Nat) (c : CoreNode) : NodeView :=
  c.view (s.childValuation node e i) (e.body i) (s.childAncestors node e) (some s.list.state)
    (s.child i)

/-- A batch. -/
def step : Family where
  list := node.move (e.blocked .list) (s.listView node e) s.list
  child i :=
    match node.children[i]? with
    | none => s.child i
    | some c => c.move (e.blocked (.child i)) (s.childView node e i c) (s.child i)

/-- The batches as a state machine. -/
def machine : Family → Surroundings → Option Family := fun s e => some (s.step node e)

end Family

end Epx

end Plexil

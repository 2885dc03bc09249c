import Plexil.Exec.State

/-!
# The conditions of a node

The values of the conditions of a node in a state of the executive.  The conditions which
the plan specifies have the values given by the environment.  The ancestor conditions are
built from those of the ancestors, and a few conditions are provided by the node type:
the default end condition of a list node, the wrapped end conditions of command and
update nodes, and the action complete and abort complete conditions.
-/

namespace Plexil

/-! ### Logic of known and unknown values -/

/-- Disjunction: true when an argument is known to be true. -/
def kleeneOr : Option Bool → Option Bool → Option Bool
  | some true, _ => some true
  | _, some true => some true
  | some false, some false => some false
  | _, _ => none

/-- Conjunction: false when an argument is known to be false. -/
def kleeneAnd : Option Bool → Option Bool → Option Bool
  | some false, _ => some false
  | _, some false => some false
  | some true, some true => some true
  | _, _ => none

/-- A condition and the one of the parent, combined by an operator if both exist. -/
def Condition.combine (op : Option Bool → Option Bool → Option Bool) :
    Condition → Condition → Condition
  | some own, some ancestor => some (op own ancestor)
  | some own, none => some own
  | none, ancestor => ancestor

/-- The ancestor condition built from the condition `own` of the ancestors, which are
listed from the parent on. -/
def ancestorCondition (op : Option Bool → Option Bool → Option Bool)
    (own : NodePtr → Condition) : List NodePtr → Condition
  | [] => none
  | p :: ancestors => (own p).combine op (ancestorCondition op own ancestors)

namespace Exec

/-- A condition specified by the plan. -/
def userCondition (F : Forest) (s : Exec) (n : NodePtr) (c : ConditionIndex) : Condition :=
  if (F.decl n).hasCondition c then
    some (if c = .end ∧ (F.decl n).endIsTrue then some true else s.world.condition n c)
  else none

/-- `AllFinished`. -/
def allFinished (F : Forest) (s : Exec) (n : NodePtr) : Bool :=
  (F.decl n).children.all fun c => (s.node c).state = .finished

/-- `AllWaitingOrFinished`. -/
def allWaitingOrFinished (F : Forest) (s : Exec) (n : NodePtr) : Bool :=
  (F.decl n).children.all fun c => (s.node c).state = .waiting ∨ (s.node c).state = .finished

/-- `CommandHandleInterruptible`. -/
def commandHandleInterruptible (h : CommandHandleValue) : Bool :=
  match h with
  | .denied | .failed | .interfaceError => true
  | _ => false

def endCondition (F : Forest) (s : Exec) (n : NodePtr) : Condition :=
  let user := s.userCondition F n .end
  match (F.decl n).nodeType with
  | .nodeList | .libraryNodeCall =>
    match user with
    | some value => some value
    | none => some (some (s.allFinished F n))
  | .command =>
    if (F.decl n).endIsTrue then user
    else user.map (kleeneOr (some (commandHandleInterruptible (s.node n).commandHandle)))
  | .update =>
    let ack := some (s.node n).ack.value
    match user with
    | some value => if (F.decl n).endIsTrue then some ack else some (kleeneAnd ack value)
    | none => some ack
  | .assignment | .empty => user

def actionCompleteCondition (F : Forest) (s : Exec) (n : NodePtr) : Condition :=
  match (F.decl n).nodeType with
  | .nodeList | .libraryNodeCall => some (some (s.allWaitingOrFinished F n))
  | .command => some (some ((s.node n).commandHandle ≠ .noCommandHandle))
  | .assignment | .update => some (some (s.node n).ack.value)
  | .empty => none

def abortCompleteCondition (F : Forest) (s : Exec) (n : NodePtr) : Condition :=
  match (F.decl n).nodeType with
  | .assignment | .command => some (some (s.node n).abortComplete.value)
  | .nodeList | .libraryNodeCall | .update | .empty => none

/-- The values of all conditions of a node. -/
def conditionValues (F : Forest) (s : Exec) (n : NodePtr) : ConditionValues where
  ancestorExit := ancestorCondition kleeneOr (s.userCondition F · .exit) (F.ancestors n)
  ancestorInvariant :=
    ancestorCondition kleeneAnd (s.userCondition F · .invariant) (F.ancestors n)
  ancestorEnd := ancestorCondition kleeneOr (s.userCondition F · .end) (F.ancestors n)
  skip := s.userCondition F n .skip
  start := s.userCondition F n .start
  pre := s.userCondition F n .pre
  exit := s.userCondition F n .exit
  invariant := s.userCondition F n .invariant
  «end» := s.endCondition F n
  post := s.userCondition F n .post
  «repeat» := s.userCondition F n .repeat
  actionComplete := s.actionCompleteCondition F n
  abortComplete := s.abortCompleteCondition F n

/-- What a node consults. -/
def view (F : Forest) (s : Exec) (n : NodePtr) : NodeView where
  toConditionValues := s.conditionValues F n
  nodeType := (F.decl n).nodeType
  state := (s.node n).state
  failureType := (s.node n).failureType
  parentState := (F.decl n).parent.map fun p => (s.node p).state

/-- The transition a node is to make, if any. -/
def dest (F : Forest) (s : Exec) (n : NodePtr) : Option Dest :=
  destState (s.view F n)

end Exec

/-- The node with the destination which `getDestState` has found.  The next outcome and
failure type keep their values where the destination does not set them. -/
def NodeImpl.setDest (d : Option Dest) (x : NodeImpl) : NodeImpl :=
  match d with
  | none => { x with nextState := .noNodeState }
  | some d =>
    { x with
      nextState := d.state
      nextOutcome := d.outcome.getD x.nextOutcome
      nextFailureType := d.failureType.getD x.nextFailureType }

/-- `getDestState`, which finds the destination `d`. -/
def Core.getDestState (F : Forest) (n : NodePtr) (d : Option Dest) (c : Core) : Core :=
  let c' := c.modifyNode n (NodeImpl.setDest d)
  if (F.decl n).nodeType.hasState (c.node n).state then c' else c'.fail .invalidState

end Plexil

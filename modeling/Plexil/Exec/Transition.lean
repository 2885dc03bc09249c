import Plexil.Exec.Conditions
import Plexil.Exec.Resources

/-!
# Node transitions

`NodeImpl::transition` and what the node types do when they leave and enter a state.  The
activation of conditions is counted in the node; the ancestor conditions of a node are
activated by its parent, so that the node does nothing for them.
-/

namespace Plexil

namespace Forest

/-- Whether the condition is present in `m_conditions` of the node. -/
def hasCondition (F : Forest) (n : NodePtr) (c : ConditionIndex) : Bool :=
  match c with
  | .ancestorExit => (n :: F.ancestors n).any fun p => (F.decl p).hasCondition .exit
  | .ancestorInvariant => (n :: F.ancestors n).any fun p => (F.decl p).hasCondition .invariant
  | .ancestorEnd => (n :: F.ancestors n).any fun p => (F.decl p).hasCondition .end
  | .end =>
    match (F.decl n).nodeType with
    | .nodeList | .libraryNodeCall | .update => true
    | _ => (F.decl n).hasCondition .end
  | .actionComplete => (F.decl n).nodeType ≠ .empty
  | .abortComplete => (F.decl n).nodeType = .assignment ∨ (F.decl n).nodeType = .command
  | c => (F.decl n).hasCondition c

end Forest

namespace NodeImpl

/-- Counts an activation of a condition.  The action complete and abort complete
conditions are internal variables, and the end condition of an update has its
acknowledgement as an argument. -/
def activateCondition (d : NodeDecl) (x : NodeImpl) (c : ConditionIndex) : NodeImpl :=
  let x' := { x with activations := Function.update x.activations c (x.activations c + 1) }
  match d.nodeType, c with
  | .assignment, .actionComplete | .update, .actionComplete | .update, .end =>
    { x' with ack := x.ack.activate }
  | .assignment, .abortComplete | .command, .abortComplete =>
    { x' with abortComplete := x.abortComplete.activate }
  | _, _ => x'

def deactivateCondition (d : NodeDecl) (x : NodeImpl) (c : ConditionIndex) : NodeImpl :=
  let x' := { x with activations := Function.update x.activations c (x.activations c - 1) }
  match d.nodeType, c with
  | .assignment, .actionComplete | .update, .actionComplete | .update, .end =>
    { x' with ack := x.ack.deactivate }
  | .assignment, .abortComplete | .command, .abortComplete =>
    { x' with abortComplete := x.abortComplete.deactivate }
  | _, _ => x'

def activateLocalVariables (x : NodeImpl) : NodeImpl :=
  { x with
    localVariables := x.localVariables + 1
    variablesActivated := x.variablesActivated + 1 }

def deactivateLocalVariables (x : NodeImpl) : NodeImpl :=
  { x with localVariables := x.localVariables - 1 }

/-- Clears the outcome and the failure type. -/
def reset (x : NodeImpl) : NodeImpl :=
  { x with outcome := .noOutcome, failureType := .noFailure }

/-- Updates the timepoints for a transition to `newState` at the time `tym`. -/
def logTransition (tym : Time) (newState : NodeState) (x : NodeImpl) : NodeImpl :=
  let timepoint := if newState = .inactive then fun _ _ => none else x.timepoint
  { x with
    currentStateStartTime := tym
    timepoint := fun state isEnd =>
      if (state = x.state ∧ isEnd) ∨ (state = newState ∧ !isEnd) then some tym
      else timepoint state isEnd }

/-- Sets the outcome and the failure type which `getDestState` has found. -/
def setOutcome (x : NodeImpl) : NodeImpl :=
  if x.nextOutcome ≠ .noOutcome then
    { x with
      outcome := x.nextOutcome
      failureType :=
        if x.nextFailureType ≠ .noFailure then x.nextFailureType else x.failureType }
  else x

/-- Clears what `getDestState` has found. -/
def clearNext (x : NodeImpl) : NodeImpl :=
  { x with
    nextState := .noNodeState
    nextOutcome := .noOutcome
    nextFailureType := .noFailure }

end NodeImpl

namespace Core

/-- The children which a list node notifies when it enters a state. -/
def notifiedChildren (F : Forest) (n : NodePtr) (newValue : NodeState) (c : Core) :
    List NodePtr :=
  if (F.decl n).nodeType.isList then
    match newValue with
    | .waiting => (F.decl n).children.filter fun m => (c.node m).state = .finished
    | .executing | .finished =>
      (F.decl n).children.filter fun m => (c.node m).state = .inactive
    | _ => []
  else []

end Core

namespace Exec

/-! ### Conditions and the body of the node -/

/-- Activates those of the conditions which the node has. -/
def activate (F : Forest) (n : NodePtr) (cs : List ConditionIndex) (s : Exec) : Exec :=
  s.modifyNode n fun x =>
    (cs.filter (F.hasCondition n)).foldl (NodeImpl.activateCondition (F.decl n)) x

/-- Deactivates those of the conditions which the node has. -/
def deactivate (F : Forest) (n : NodePtr) (cs : List ConditionIndex) (s : Exec) : Exec :=
  s.modifyNode n fun x =>
    (cs.filter (F.hasCondition n)).foldl (NodeImpl.deactivateCondition (F.decl n)) x

/-- `CommandImpl::deactivate`: the resources are released, unless the command was
denied. -/
def deactivateCommand (n : NodePtr) (s : Exec) : Exec :=
  let arbiter :=
    if (s.node n).commandHandle ≠ .denied then s.arbiter.releaseResourcesForCommand n
    else s.arbiter
  { s with arbiter }.modifyNode n fun x =>
    { x with bodyActive := false, abortComplete := x.abortComplete.deactivate }

def specializedDeactivateExecutable (F : Forest) (n : NodePtr) (s : Exec) : Exec :=
  match (F.decl n).nodeType with
  | .assignment => s.modifyNode n fun x => { x with bodyActive := false }
  | .command => s.deactivateCommand n
  | .update => s.modifyNode n fun x => { x with bodyActive := false, ack := x.ack.deactivate }
  | .empty | .nodeList | .libraryNodeCall => s

def deactivateExecutable (F : Forest) (n : NodePtr) (s : Exec) : Exec :=
  (s.specializedDeactivateExecutable F n).modifyNode n NodeImpl.deactivateLocalVariables

/-! ### Output queues -/

def enqueueAssignment (n : NodePtr) (s : Exec) : Exec :=
  { s with
    output := { s.output with assignmentsToExecute := s.output.assignmentsToExecute ++ [n] }
    log := s.log ++ [.enqueueAssignment n] }

def enqueueAssignmentForRetraction (n : NodePtr) (s : Exec) : Exec :=
  { s with
    output := { s.output with assignmentsToRetract := s.output.assignmentsToRetract ++ [n] }
    log := s.log ++ [.enqueueAssignmentForRetraction n] }

def enqueueCommand (n : NodePtr) (s : Exec) : Exec :=
  { s with
    output := { s.output with commandsToExecute := s.output.commandsToExecute ++ [n] }
    log := s.log ++ [.enqueueCommand n] }

def enqueueAbortCommand (n : NodePtr) (s : Exec) : Exec :=
  { s with
    output := { s.output with commandsToAbort := s.output.commandsToAbort ++ [n] }
    log := s.log ++ [.enqueueAbortCommand n] }

def enqueueUpdate (n : NodePtr) (s : Exec) : Exec :=
  { s with
    output := { s.output with updatesToExecute := s.output.updatesToExecute ++ [n] }
    log := s.log ++ [.enqueueUpdate n] }

/-! ### Leaving a state -/

def transitionFromWaiting (F : Forest) (n : NodePtr) (s : Exec) : Exec :=
  let s' := s.deactivate F n [.skip, .start, .pre]
  match (s.node n).nextState with
  | .executing => s'
  | .finished | .iterationEnded => s'.deactivate F n [.exit]
  | _ => s'.fail .invalidTransition

def transitionFromIterationEnded (F : Forest) (n : NodePtr) (s : Exec) : Exec :=
  let s' := s.deactivate F n [.repeat]
  match (s.node n).nextState with
  | .finished => s'
  | .waiting => s'.modifyNode n NodeImpl.reset
  | _ => s'.fail .invalidTransition

end Exec

namespace EmptyNode

def transitionFromExecuting (F : Forest) (n : NodePtr) (s : Exec) : Exec :=
  let s' := s.deactivate F n [.exit, .invariant, .end, .post]
  (match (s.node n).nextState with
    | .finished | .iterationEnded => s'
    | _ => s'.fail .invalidTransition).deactivateExecutable F n

end EmptyNode

namespace AssignmentNode

def transitionFromExecuting (F : Forest) (n : NodePtr) (s : Exec) : Exec :=
  let s' := s.deactivate F n [.exit, .invariant, .end, .post, .actionComplete]
  match (s.node n).nextState with
  | .failing => s'
  | .iterationEnded => s'.deactivateExecutable F n
  | _ => s'.fail .invalidTransition

def transitionFromFailing (F : Forest) (n : NodePtr) (s : Exec) : Exec :=
  let s' := (s.deactivate F n [.abortComplete]).deactivateExecutable F n
  match (s.node n).nextState with
  | .finished | .iterationEnded => s'
  | _ => s'.fail .invalidTransition

end AssignmentNode

namespace CommandNode

def transitionFromExecuting (F : Forest) (n : NodePtr) (s : Exec) : Exec :=
  match (s.node n).nextState with
  | .failing => (s.deactivate F n [.exit, .invariant]).deactivate F n [.end]
  | .finishing => s.deactivate F n [.end]
  | _ => s.fail .invalidTransition

def transitionFromFinishing (F : Forest) (n : NodePtr) (s : Exec) : Exec :=
  (match (s.node n).nextState with
    | .failing => s
    | .iterationEnded => s.deactivateExecutable F n
    | _ => s.fail .invalidTransition).deactivate F n
      [.exit, .invariant, .post, .actionComplete]

def transitionFromFailing (F : Forest) (n : NodePtr) (s : Exec) : Exec :=
  let s' := (s.deactivate F n [.abortComplete]).deactivateExecutable F n
  match (s.node n).nextState with
  | .finished | .iterationEnded => s'
  | _ => s'.fail .invalidTransition

end CommandNode

namespace UpdateNode

def transitionFromExecuting (F : Forest) (n : NodePtr) (s : Exec) : Exec :=
  let s' := s.deactivate F n [.exit, .invariant, .end, .post]
  match (s.node n).nextState with
  | .failing => s'.activate F n [.actionComplete]
  | .iterationEnded => s'.deactivateExecutable F n
  | _ => s'.fail .invalidTransition

def transitionFromFailing (F : Forest) (n : NodePtr) (s : Exec) : Exec :=
  let s' := (s.deactivate F n [.actionComplete]).deactivateExecutable F n
  match (s.node n).nextState with
  | .finished | .iterationEnded => s'
  | _ => s'.fail .invalidTransition

end UpdateNode

namespace ListNode

/-- The conditions for the children. -/
def childConditions : List ConditionIndex := [.ancestorExit, .ancestorInvariant, .ancestorEnd]

def transitionFromExecuting (F : Forest) (n : NodePtr) (s : Exec) : Exec :=
  let s' := s.deactivate F n [.end]
  match (s.node n).nextState with
  | .failing => (s'.deactivate F n [.exit, .invariant]).activate F n [.actionComplete]
  | .finishing => s'.activate F n [.actionComplete]
  | _ => s'.fail .invalidTransition

def transitionFromFinishing (F : Forest) (n : NodePtr) (s : Exec) : Exec :=
  let s' := s.deactivate F n [.exit, .invariant, .post]
  match (s.node n).nextState with
  | .iterationEnded =>
    ((s'.deactivate F n childConditions).deactivate F n [.actionComplete]).deactivateExecutable F n
  | .failing => s'
  | _ => s'.fail .invalidTransition

def transitionFromFailing (F : Forest) (n : NodePtr) (s : Exec) : Exec :=
  let s' := ((s.deactivate F n childConditions).deactivate F n
    [.actionComplete]).deactivateExecutable F n
  match (s.node n).nextState with
  | .finished | .iterationEnded => s'
  | _ => s'.fail .invalidTransition

end ListNode

namespace Exec

def transitionFromExecuting (F : Forest) (n : NodePtr) (s : Exec) : Exec :=
  match (F.decl n).nodeType with
  | .empty => EmptyNode.transitionFromExecuting F n s
  | .assignment => AssignmentNode.transitionFromExecuting F n s
  | .command => CommandNode.transitionFromExecuting F n s
  | .update => UpdateNode.transitionFromExecuting F n s
  | .nodeList | .libraryNodeCall => ListNode.transitionFromExecuting F n s

def transitionFromFinishing (F : Forest) (n : NodePtr) (s : Exec) : Exec :=
  match (F.decl n).nodeType with
  | .command => CommandNode.transitionFromFinishing F n s
  | .nodeList | .libraryNodeCall => ListNode.transitionFromFinishing F n s
  | .empty | .assignment | .update => s.fail .invalidTransition

def transitionFromFailing (F : Forest) (n : NodePtr) (s : Exec) : Exec :=
  match (F.decl n).nodeType with
  | .assignment => AssignmentNode.transitionFromFailing F n s
  | .command => CommandNode.transitionFromFailing F n s
  | .update => UpdateNode.transitionFromFailing F n s
  | .nodeList | .libraryNodeCall => ListNode.transitionFromFailing F n s
  | .empty => s.fail .invalidTransition

/-- Transition out of the current state. -/
def transitionFrom (F : Forest) (n : NodePtr) (s : Exec) : Exec :=
  match (s.node n).state with
  | .inactive => s
  | .waiting => s.transitionFromWaiting F n
  | .executing => s.transitionFromExecuting F n
  | .finishing => s.transitionFromFinishing F n
  | .finished => s.modifyNode n NodeImpl.reset
  | .failing => s.transitionFromFailing F n
  | .iterationEnded => s.transitionFromIterationEnded F n
  | .noNodeState => s.fail .invalidTransition

/-! ### Entering a state -/

def transitionToExecuting (F : Forest) (n : NodePtr) (s : Exec) : Exec :=
  let s' := s.modifyNode n NodeImpl.activateLocalVariables
  match (F.decl n).nodeType with
  | .empty | .update => s'.activate F n [.invariant, .end, .post]
  | .assignment => (s'.activate F n [.invariant, .end, .post]).activate F n [.actionComplete]
  | .command => s'.activate F n [.invariant, .exit, .end]
  | .nodeList | .libraryNodeCall =>
    (s'.activate F n [.invariant, .end]).activate F n ListNode.childConditions

def transitionToFinishing (F : Forest) (n : NodePtr) (s : Exec) : Exec :=
  match (F.decl n).nodeType with
  | .command => s.activate F n [.post, .actionComplete]
  | .nodeList | .libraryNodeCall => s.activate F n [.post]
  | .empty | .assignment | .update => s.fail .invalidTransition

def transitionToFailing (F : Forest) (n : NodePtr) (s : Exec) : Exec :=
  match (F.decl n).nodeType with
  | .assignment => (s.activate F n [.abortComplete]).enqueueAssignmentForRetraction n
  | .command => (s.activate F n [.abortComplete]).enqueueAbortCommand n
  | .update | .nodeList | .libraryNodeCall => s
  | .empty => s.fail .invalidTransition

/-- An assignment node releases its variable before its mutexes. -/
def transitionToIterationEnded (F : Forest) (n : NodePtr) (s : Exec) : Exec :=
  let s₁ : Exec :=
    match (F.decl n).nodeType with
    | .assignment =>
      if (s.node n).state ≠ .waiting then
        s.onCore (Core.release n · (.variable (F.decl n).baseVariable))
      else s
    | _ => s
  let s₂ : Exec :=
    if (s.node n).state ≠ .waiting then s₁.onCore (Core.releaseAll n (F.decl n).mutexes) else s₁
  s₂.activate F n [.repeat]

/-- The mutexes are released when the node comes from WAITING, and only then; the comment
of the source speaks of FAILING. -/
def transitionToFinished (F : Forest) (n : NodePtr) (s : Exec) : Exec :=
  let s₁ : Exec :=
    match (F.decl n).nodeType with
    | .assignment =>
      if (s.node n).state = .failing then
        s.onCore (Core.release n · (.variable (F.decl n).baseVariable))
      else s
    | _ => s
  if (s.node n).state = .waiting then s₁.onCore (Core.releaseAll n (F.decl n).mutexes) else s₁

/-- Transition into the next state. -/
def transitionTo (F : Forest) (n : NodePtr) (s : Exec) : Exec :=
  match (s.node n).nextState with
  | .inactive => s
  | .waiting => s.activate F n [.exit, .skip, .start, .pre]
  | .executing => s.transitionToExecuting F n
  | .finishing => s.transitionToFinishing F n
  | .finished => s.transitionToFinished F n
  | .failing => s.transitionToFailing F n
  | .iterationEnded => s.transitionToIterationEnded F n
  | .noNodeState => s.fail .invalidTransition

/-! ### The transition -/

/-- `setState`; a finished root node is marked for deletion, any other node is notified,
and a list node notifies children. -/
def setState (F : Forest) (n : NodePtr) (newValue : NodeState) (s : Exec) : Exec :=
  let s' := s.modifyNode n fun x =>
    { x.logTransition s.time newValue with state := newValue }
  let queues :=
    if newValue = .finished ∧ (F.decl n).parent = none then s'.queues.addFinishedRootNode n
    else s'.queues.notify n
  { s' with queues := queues.notifyAll (s'.notifiedChildren F n newValue) }

/-- Fixes the output values and the resource requests of a node. -/
def fixValues (n : NodePtr) (s : Exec) : Exec :=
  s.modifyNode n fun x =>
    { x with
      fixed := s.world.operands n s.published
      resourceValues := s.world.resourceValues n }

/-- `specializedHandleExecution`: activates the body, fixes its values and enqueues it. -/
def execute (F : Forest) (n : NodePtr) (s : Exec) : Exec :=
  match (F.decl n).nodeType with
  | .assignment =>
    ((s.modifyNode n fun x => { x with bodyActive := true }).fixValues n).enqueueAssignment n
  | .command =>
    ((s.modifyNode n fun x =>
      { x with
        bodyActive := true
        commandHandle := .noCommandHandle
        abortComplete := x.abortComplete.activate }).fixValues n).enqueueCommand n
  | .update =>
    ((s.modifyNode n fun x =>
      { x with bodyActive := true, ack := x.ack.activate }).fixValues n).enqueueUpdate n
  | .empty | .nodeList | .libraryNodeCall => s

/-- `NodeImpl::transition`. -/
def transition (F : Forest) (n : NodePtr) (s : Exec) : Exec :=
  let nextState := (s.node n).nextState
  if nextState = (s.node n).state then s
  else
    let s₁ := (s.transitionFrom F n).transitionTo F n
    let s₂ := (s₁.setState F n nextState).modifyNode n NodeImpl.setOutcome
    let s₃ := if nextState = .executing then s₂.execute F n else s₂
    s₃.modifyNode n NodeImpl.clearNext

end Exec
end Plexil

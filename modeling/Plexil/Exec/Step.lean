import Plexil.Exec.Transition

/-!
# The executive as a state machine

`PlexilExecImpl::step` is broken into small steps: one queue operation with what belongs
to it, one node transition, or one output.  `perform` has the small steps and the other
operations of the executive as events.  Where a transition or an output can change what
the conditions of nodes depend on, the event gives the world afterwards and the nodes
which the change notifies.
-/

namespace Plexil

/-- What can happen to the executive. -/
inductive Event where
  /-- `addPlan`. -/
  | addPlan (root : NodePtr)
  /-- `NodeImpl::notify`. -/
  | notify (n : NodePtr)
  /-- `NodeImpl::notifyResourceAvailable`. -/
  | notifyResourceAvailable (n : NodePtr)
  /-- A change of the environment between two steps. -/
  | change (w : World) (notified : List NodePtr)
  /-- A command handle value arrives for the command of `n`. -/
  | commandHandle (n : NodePtr) (h : CommandHandleValue) (w : World) (notified : List NodePtr)
  /-- An abort acknowledgement arrives for the command of `n`. -/
  | commandAbortAck (n : NodePtr) (ack : Bool) (w : World) (notified : List NodePtr)
  /-- An acknowledgement arrives for the update of `n`. -/
  | updateAck (n : NodePtr) (ack : Bool) (w : World) (notified : List NodePtr)
  /-- `step` is called. -/
  | step (startTime : Time)
  /-- The next small step of `step`. -/
  | next (w : World) (notified : List NodePtr)
  /-- `deleteFinishedPlans`. -/
  | deleteFinishedPlans

namespace Event

/-- The nodes notified by a change that comes with the event. -/
def notified : Event → List NodePtr
  | .change _ ns | .commandHandle _ _ _ ns | .commandAbortAck _ _ _ ns | .updateAck _ _ _ ns
  | .next _ ns => ns
  | _ => []

/-- Small steps in a world which does not change. -/
def nexts (k : Nat) (w : World) : List Event := List.replicate k (.next w [])

end Event

namespace Core

/-! ### Evaluation of the candidates -/

/-- Whether the transition of a node has to acquire resources. -/
def resourceCheckRequired (F : Forest) (n : NodePtr) (c : Core) : Bool :=
  (c.node n).nextState = .executing && (F.decl n).acquiresResources

/-- The candidate `n` is taken from the candidate queue `n :: rest`; `getDestState` finds
the destination `d`. -/
def evaluateCandidate (F : Forest) (n : NodePtr) (rest : List NodePtr) (d : Option Dest)
    (c : Core) : Core :=
  let c' := (c.withQueues (Queues.getCandidateNode n rest)).getDestState F n d
  match d with
  | none => c'
  | some _ =>
    if c'.resourceCheckRequired F n then c'.withQueues (Queues.addPendingNode F.priority n)
    else c'.withQueues (Queues.addStateChangeNode n)

/-! ### Resolution of resource conflicts -/

/-- A node of the pending queue is evaluated again; `getDestState` finds the destination
`d`.  Unless the node is still to execute it leaves the queue, for the state change queue
if it makes another transition.  The result tells whether it stays. -/
def recheckPending (F : Forest) (n : NodePtr) (d : Option Dest) (c : Core) : Core × Bool :=
  let c' := c.getDestState F n d
  match d with
  | none => (c'.removePendingNode F n, false)
  | some _ =>
    if (c'.node n).nextState ≠ .executing then
      ((c'.removePendingNode F n).withQueues (Queues.addStateChangeNode n), false)
    else (c', true)

/-- `resourceCheckEligible`.  In the case QUEUE_PENDING_CHECK the status is set to
QUEUE_PENDING also when the node has left the queue. -/
def resourceCheckEligible (F : Forest) (n : NodePtr) (d : Option Dest) (c : Core) :
    Core × Bool :=
  match c.queues.status n with
  | .pendingCheck =>
    ((c.recheckPending F n d).1.withQueues (Queues.setStatus n .pending), false)
  | .pendingTryCheck => c.recheckPending F n d
  | .pendingTry => (c, true)
  | .pending => (c, false)
  | _ => (c.fail .pendingInvalidStatus, false)

/-- The attempt of a node to acquire its resources, and what follows from it. -/
def acquire (F : Forest) (n : NodePtr) (c : Core) : Core :=
  let (c', success) := c.tryResourceAcquisition F n
  if success then (c'.removePendingNode F n).withQueues (Queues.addStateChangeNode n)
  else c'.withQueues (Queues.setStatus n .pending)

end Core

namespace Exec

/-- A change of the world, and the notification of the nodes it concerns. -/
def changeWorld (w : World) (notified : List NodePtr) (s : Exec) : Exec :=
  { s.onCore (Core.withQueues (Queues.notifyAll notified)) with world := w }

/-- `needsStep`. -/
def needsStep (s : Exec) : Bool := !s.queues.candidate.isEmpty

/-! ### Evaluation -/

def evaluateCandidate (F : Forest) (n : NodePtr) (rest : List NodePtr) (s : Exec) : Exec :=
  s.onCore (Core.evaluateCandidate F n rest (s.dest F n))

/-- The loop body which collects the nodes of one priority, for `temp`.  The next of a
node which has left the pending queue is null. -/
def gather (F : Forest) (thisPriority : Int) (priorityNodes : List NodePtr) (temp : NodePtr)
    (rest : List NodePtr) (s : Exec) : Exec :=
  let (c, eligible) := s.resourceCheckEligible F temp (s.dest F temp)
  { s with
    toCore := c
    phase := .gathering thisPriority
      (if eligible then priorityNodes ++ [temp] else priorityNodes)
      (if temp ∈ c.queues.pending then rest else []) }

/-- The loop body which lets the node `n` acquire its resources. -/
def acquireNode (F : Forest) (n : NodePtr) (rest chain : List NodePtr) (s : Exec) : Exec :=
  { s.onCore (Core.acquire F n) with phase := .acquiring rest chain }

/-! ### Transitions -/

/-- The node `n` is taken from the state change queue `n :: rest` and makes its
transition. -/
def transitionNode (F : Forest) (n : NodePtr) (rest : List NodePtr) (s : Exec) : Exec :=
  (s.onCore (Core.withQueues (Queues.getStateChangeNode n rest))).transition F n

/-- The condition under which the quiescence loop goes on. -/
def continuesLoop (s : Exec) : Bool :=
  s.output.assignmentsToExecute.isEmpty && s.output.assignmentsToRetract.isEmpty &&
    s.output.commandsToExecute.isEmpty && s.output.commandsToAbort.isEmpty &&
    !s.queues.candidate.isEmpty

/-! ### Outputs -/

def executeAssignment (n : NodePtr) (s : Exec) : Exec :=
  { s.modifyNode n fun x => { x with ack := x.ack.setValue true } with
    log := s.log ++ [.executeAssignment n] }

def retractAssignment (n : NodePtr) (s : Exec) : Exec :=
  { s.modifyNode n fun x => { x with abortComplete := x.abortComplete.setValue true } with
    log := s.log ++ [.retractAssignment n] }

/-- `CommandImpl::setCommandHandle`. -/
def setCommandHandle (n : NodePtr) (h : CommandHandleValue) (s : Exec) : Exec :=
  s.modifyNode n fun x => if x.bodyActive then { x with commandHandle := h } else x

/-- `CommandImpl::acknowledgeAbort`. -/
def acknowledgeAbort (n : NodePtr) (ack : Bool) (s : Exec) : Exec :=
  s.modifyNode n fun x =>
    if x.bodyActive then { x with abortComplete := x.abortComplete.setValue ack } else x

/-- `UpdateImpl::acknowledge`. -/
def acknowledgeUpdate (n : NodePtr) (ack : Bool) (s : Exec) : Exec :=
  s.modifyNode n fun x => { x with ack := x.ack.setValue ack }

/-- A recursion depth which is enough for a hierarchy without cycles. -/
def arbiterDepth (s : Exec) : Nat := s.arbiter.resourceHierarchy.entries.length + 1

/-- The commands to be executed are arbitrated, if there are any. -/
def arbitrate (s : Exec) : Option Exec :=
  match s.output.commandsToExecute with
  | [] => some { s with phase := .executingCommands [] [] }
  | cmds =>
    (s.arbiter.arbitrateCommands s.arbiterDepth (fun n => (s.node n).resourceValues) cmds).map
      fun (arbiter, accepted, rejected) =>
        { s with
          arbiter
          output := { s.output with commandsToExecute := [] }
          phase := .executingCommands accepted rejected }

def executeCommand (n : NodePtr) (accepted rejected : List NodePtr) (s : Exec) : Exec :=
  { s with
    phase := .executingCommands accepted rejected
    log := s.log ++ [.executeCommand n] }

def reportCommandArbitrationFailure (n : NodePtr) (rejected : List NodePtr) (s : Exec) : Exec :=
  { s.setCommandHandle n .denied with
    phase := .executingCommands [] rejected
    log := s.log ++ [.reportCommandArbitrationFailure n] }

def invokeAbort (n : NodePtr) (rest : List NodePtr) (s : Exec) : Exec :=
  { s with
    output := { s.output with commandsToAbort := rest }
    log := s.log ++ [.invokeAbort n] }

def executeUpdate (n : NodePtr) (rest : List NodePtr) (s : Exec) : Exec :=
  { s with
    output := { s.output with updatesToExecute := rest }
    log := s.log ++ [.executeUpdate n] }

/-! ### The loops of `step` -/

/-- The end of the quiescence loop: the assignments are executed next. -/
def leaveLoop (s : Exec) : Exec :=
  { s with phase := .executingAssignments s.output.assignmentsToExecute }

/-- After the conflicts are resolved: the transitions, if there are any. -/
def beginTransitions (s : Exec) : Exec :=
  match s.queues.stateChange with
  | [] => s.leaveLoop
  | _ :: _ => { s with phase := .transitioning }

/-- The collection of the nodes of the priority of the first node of `chain`. -/
def beginGathering (F : Forest) (chain : List NodePtr) (s : Exec) : Exec :=
  match chain with
  | [] => s.beginTransitions
  | head :: _ => { s with phase := .gathering (F.priority head) [] chain }

/-- The next small step of `step`; `w` and `notified` are the changes caused by a
transition or an output. -/
def advance (F : Forest) (w : World) (notified : List NodePtr) (s : Exec) : Option Exec :=
  match s.phase with
  | .idle => none
  | .evaluating =>
    match s.queues.candidate with
    | n :: rest => some (s.evaluateCandidate F n rest)
    | [] => some (s.beginGathering F s.queues.pending)
  | .gathering thisPriority priorityNodes chain =>
    match chain with
    | [] => some { s with phase := .acquiring priorityNodes [] }
    | temp :: rest =>
      if F.priority temp = thisPriority then
        some (s.gather F thisPriority priorityNodes temp rest)
      else some { s with phase := .acquiring priorityNodes chain }
  | .acquiring priorityNodes chain =>
    match priorityNodes with
    | n :: rest => some (s.acquireNode F n rest chain)
    | [] => some (s.beginGathering F chain)
  | .transitioning =>
    match s.queues.stateChange with
    | n :: rest => some ((s.transitionNode F n rest).changeWorld w notified)
    | [] => some (if s.continuesLoop then { s with phase := .evaluating } else s.leaveLoop)
  | .executingAssignments (n :: rest) =>
    some ({ s.executeAssignment n with phase := .executingAssignments rest }.changeWorld w notified)
  | .executingAssignments [] =>
    some { s with
      output := { s.output with assignmentsToExecute := [] }
      phase := .retractingAssignments s.output.assignmentsToRetract }
  | .retractingAssignments (n :: rest) =>
    some ({ s.retractAssignment n with phase := .retractingAssignments rest }.changeWorld w
      notified)
  | .retractingAssignments [] =>
    ({ s with output := { s.output with assignmentsToRetract := [] } }).arbitrate
  | .executingCommands (n :: accepted) rejected =>
    some ((s.executeCommand n accepted rejected).changeWorld w notified)
  | .executingCommands [] (n :: rejected) =>
    some ((s.reportCommandArbitrationFailure n rejected).changeWorld w notified)
  | .executingCommands [] [] => some { s with phase := .abortingCommands }
  | .abortingCommands =>
    match s.output.commandsToAbort with
    | n :: rest => some ((s.invokeAbort n rest).changeWorld w notified)
    | [] => some { s with phase := .executingUpdates }
  | .executingUpdates =>
    match s.output.updatesToExecute with
    | n :: rest => some ((s.executeUpdate n rest).changeWorld w notified)
    | [] => some { s with phase := .idle }

/-! ### Events -/

/-- `addPlan`: the root is notified and activated. -/
def addPlan (root : NodePtr) (s : Exec) : Exec :=
  { s with
    plan := s.plan ++ [root]
    added := s.added ++ [root]
    queues := s.queues.notify root }

/-- `deleteFinishedPlans`. -/
def deleteFinishedPlans (s : Exec) : Exec :=
  { s with
    plan := s.plan.filter (· ∉ s.queues.finishedRoot)
    queues := { s.queues with finishedRoot := [] } }

/-- Whether the nodes all belong to loaded plans. -/
def allExist (F : Forest) (ns : List NodePtr) (s : Exec) : Bool :=
  ns.all (s.exists F ·)

/-- The state after an event, when the event is possible.  Only nodes which exist are
notified, a plan is added once, and events from outside come between two steps. -/
def perform (F : Forest) (s : Exec) : Event → Option Exec
  | .addPlan root =>
    if s.phase = .idle ∧ (F.decl root).parent = none ∧ root ∉ s.added then
      some (s.addPlan root)
    else none
  | .notify n =>
    if s.exists F n then some (s.onCore (Core.withQueues (Queues.notify n))) else none
  | .notifyResourceAvailable n =>
    if s.exists F n then some (s.onCore (Core.withQueues (Queues.notifyResourceAvailable n))) else none
  | .change w ns =>
    if s.phase = .idle ∧ s.allExist F ns then some (s.changeWorld w ns) else none
  | .commandHandle n h w ns =>
    if s.phase = .idle ∧ (F.decl n).nodeType = .command ∧ h ≠ .noCommandHandle ∧
        s.allExist F (n :: ns) then
      some ((s.setCommandHandle n h).changeWorld w ns)
    else none
  | .commandAbortAck n ack w ns =>
    if s.phase = .idle ∧ (F.decl n).nodeType = .command ∧ s.allExist F (n :: ns) then
      some ((s.acknowledgeAbort n ack).changeWorld w ns)
    else none
  | .updateAck n ack w ns =>
    if s.phase = .idle ∧ (F.decl n).nodeType = .update ∧ s.allExist F (n :: ns) then
      some ((s.acknowledgeUpdate n ack).changeWorld w ns)
    else none
  | .step startTime =>
    -- `step` requires an empty state change queue.
    if s.phase = .idle ∧ s.queues.stateChange = [] then
      some { s with time := startTime, phase := .evaluating }
    else none
  | .next w ns => if s.allExist F ns then s.advance F w ns else none
  | .deleteFinishedPlans => if s.phase = .idle then some s.deleteFinishedPlans else none

/-- The step function of the executive: an event is possible when no check fails. -/
def apply (F : Forest) (s : Exec) (e : Event) : Option Exec :=
  (s.perform F e).filter fun s' => !s'.hasFailed

end Exec
end Plexil

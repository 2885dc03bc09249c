import Plexil.Expr.Variable
import Plexil.Intfc.ResourceArbiter
import Plexil.Node.DestState
import Plexil.Node.Forest
import Plexil.Util.LinkedQueue

/-!
# The state of the executive

The state of `PlexilExecImpl` together with the state of the nodes and of the mutexes
and variables.  The intrusive queues are lists of node pointers.  An internal error or a
plan error ends the process; it is recorded in an `error` field, and a step which ends
in an error is no step of a run.  Messages, listeners and the memory of expressions are
left out.
-/

namespace Plexil

/-! ### Checks which end the process -/

/-- The checks of the executive which can fail. -/
inductive ExecError where
  /-- `notify` of a finished root node. -/
  | notifyDeleted
  /-- `notify` in a queue status for which it has no case. -/
  | notifyInvalidStatus
  /-- `addStateChangeNode` of a node which is in a queue. -/
  | stateChangeInvalidStatus
  /-- `addFinishedRootNode` of a node which is in the pending or state change queue. -/
  | finishedRootInvalidStatus
  /-- A node of the pending queue has another queue status. -/
  | pendingInvalidStatus
  /-- `getDestState` in a state which the node type does not have. -/
  | invalidState
  /-- `transition` to a state which is no successor. -/
  | invalidTransition
  /-- A mutex to be acquired is held by an ancestor. -/
  | recursiveAcquisition
  deriving DecidableEq, Repr

/-! ### The queues -/

/-- The queues of nodes and the queue status of each node. -/
structure Queues where
  status : NodePtr → QueueStatus
  candidate : List NodePtr
  stateChange : List NodePtr
  pending : List NodePtr
  finishedRoot : List NodePtr
  error : Option ExecError

namespace Queues

/-- The nodes of a queue. -/
def members (q : Queues) : QueueName → List NodePtr
  | .candidate => q.candidate
  | .pending => q.pending
  | .stateChange => q.stateChange
  | .finishedRoot => q.finishedRoot

def setStatus (n : NodePtr) (x : QueueStatus) (q : Queues) : Queues :=
  { q with status := Function.update q.status n x }

/-- Records an error, unless there is one already. -/
def fail (e : ExecError) (q : Queues) : Queues :=
  { q with error := q.error.or (some e) }

/-- `NodeImpl::notify`. -/
def notify (n : NodePtr) (q : Queues) : Queues :=
  match q.status n with
  | .none => { q.setStatus n .check with candidate := q.candidate ++ [n] }
  | .pending => q.setStatus n .pendingCheck
  | .pendingTry => q.setStatus n .pendingTryCheck
  | .transition => q.setStatus n .transitionCheck
  | .check => q
  | .pendingCheck => q
  | .transitionCheck => q
  | .delete => q.fail .notifyDeleted
  | .pendingTryCheck => q.fail .notifyInvalidStatus

/-- `NodeImpl::notifyResourceAvailable`. -/
def notifyResourceAvailable (n : NodePtr) (q : Queues) : Queues :=
  match q.status n with
  | .pendingTry => q
  | .pending => q.setStatus n .pendingTry
  | .pendingCheck => q.setStatus n .pendingTryCheck
  | _ => q

def notifyAll (ns : List NodePtr) (q : Queues) : Queues :=
  ns.foldl (fun q n => q.notify n) q

def notifyAllResourceAvailable (ns : List NodePtr) (q : Queues) : Queues :=
  ns.foldl (fun q n => q.notifyResourceAvailable n) q

/-- Takes the node `n` from the candidate queue `n :: rest`. -/
def getCandidateNode (n : NodePtr) (rest : List NodePtr) (q : Queues) : Queues :=
  { q.setStatus n .none with candidate := rest }

/-- Takes the node `n` from the state change queue `n :: rest`. -/
def getStateChangeNode (n : NodePtr) (rest : List NodePtr) (q : Queues) : Queues :=
  let q' := { q.setStatus n .none with stateChange := rest }
  if q.status n = .transitionCheck then q'.notify n else q'

def addStateChangeNode (n : NodePtr) (q : Queues) : Queues :=
  match q.status n with
  | .none => { q.setStatus n .transition with stateChange := q.stateChange ++ [n] }
  | _ => q.fail .stateChangeInvalidStatus

/-- `addPendingNode`; `priority` is the priority of the nodes. -/
def addPendingNode (priority : NodePtr → Int) (n : NodePtr) (q : Queues) : Queues :=
  { q.setStatus n .pendingTry with pending := PriorityQueue.insert priority n q.pending }

/-- The part of `removePendingNode` which concerns the queues. -/
def removePending (n : NodePtr) (q : Queues) : Queues :=
  { q.setStatus n .none with pending := q.pending.erase n }

def addFinishedRootNode (n : NodePtr) (q : Queues) : Queues :=
  match q.status n with
  | .check =>
    { q.setStatus n .delete with
      candidate := q.candidate.erase n
      finishedRoot := q.finishedRoot ++ [n] }
  | .none => { q.setStatus n .delete with finishedRoot := q.finishedRoot ++ [n] }
  | .delete => q
  | _ => q.fail .finishedRootInvalidStatus

end Queues

/-! ### Mutexes and variables as resources -/

/-- The holder of a resource, and the nodes waiting for it. -/
structure Reservable where
  holder : Option NodePtr
  waiters : List NodePtr
  deriving DecidableEq

namespace Reservable

def addWaitingNode (n : NodePtr) (r : Reservable) : Reservable :=
  if n ∈ r.waiters then r else { r with waiters := r.waiters ++ [n] }

def removeWaitingNode (n : NodePtr) (r : Reservable) : Reservable :=
  { r with waiters := r.waiters.erase n }

/-- The resource after an attempt to acquire it, and whether the attempt succeeds. -/
def acquire (n : NodePtr) (r : Reservable) : Reservable × Bool :=
  match r.holder with
  | some _ => (r.addWaitingNode n, false)
  | none => ({ r with holder := some n }.removeWaitingNode n, true)

end Reservable

/-- All resources. -/
abbrev Reservables := ReservableId → Reservable

/-! ### Nodes -/

/-- A value of one of the scalar types; a Real is given by its bits. -/
inductive Scalar where
  | boolean (b : Bool)
  | integer (i : Int)
  | real (bits : BitVec 64)
  | string (s : String)
  deriving DecidableEq

/-- A point in time. -/
abbrev Time := Rat

/-- What expressions can read of a node: its internal variables, its timepoints, how often
its local variables have been activated, and its command handle. -/
structure Published where
  state : NodeState
  outcome : NodeOutcome
  failureType : FailureType
  currentStateStartTime : Time
  timepoint : NodeState → Bool → Option Time
  variablesActivated : Nat
  commandHandle : CommandHandleValue

/-- The state of a node.  `activations` is what the node has contributed to the activation
counts of its conditions, `localVariables` the same for its local variables, and
`bodyActive` tells whether its assignment, command or update is active.  An assignment
has the variables `ack` and `abortComplete`, a command `abortComplete`, an update `ack`.
`fixed` are the values fixed for its output, and `resourceValues` the resource requests
fixed for a command. -/
structure NodeImpl extends Published where
  nextState : NodeState
  nextOutcome : NodeOutcome
  nextFailureType : FailureType
  activations : ConditionIndex → Int
  localVariables : Int
  bodyActive : Bool
  ack : SimpleBooleanVariable
  abortComplete : SimpleBooleanVariable
  fixed : List (Value Scalar)
  resourceValues : List ResourceValue

/-- A node which has just been constructed. -/
def NodeImpl.initial : NodeImpl where
  state := .inactive
  outcome := .noOutcome
  failureType := .noFailure
  currentStateStartTime := 0
  timepoint _ _ := none
  variablesActivated := 0
  nextState := .noNodeState
  nextOutcome := .noOutcome
  nextFailureType := .noFailure
  activations _ := 0
  localVariables := 0
  bodyActive := false
  ack := .initial
  abortComplete := .initial
  commandHandle := .noCommandHandle
  fixed := []
  resourceValues := []

/-! ### Outputs -/

/-- The output queues.  An assignment, command or update is named by its node. -/
structure OutputQueues where
  assignmentsToExecute : List NodePtr
  assignmentsToRetract : List NodePtr
  commandsToExecute : List NodePtr
  commandsToAbort : List NodePtr
  updatesToExecute : List NodePtr

/-- What happens to an assignment, command or update: it is put into an output queue, or
it is handled and leaves its queue. -/
inductive OutputEvent where
  | enqueueAssignment (n : NodePtr)
  | executeAssignment (n : NodePtr)
  | enqueueAssignmentForRetraction (n : NodePtr)
  | retractAssignment (n : NodePtr)
  | enqueueCommand (n : NodePtr)
  | executeCommand (n : NodePtr)
  | reportCommandArbitrationFailure (n : NodePtr)
  | enqueueAbortCommand (n : NodePtr)
  | invokeAbort (n : NodePtr)
  | enqueueUpdate (n : NodePtr)
  | executeUpdate (n : NodePtr)
  deriving DecidableEq

/-! ### The environment -/

/-- What the environment decides: the values of the conditions given by the plans, and
what the output values and resource requests of a node evaluate to.  The output values
also depend on what the nodes publish. -/
structure World where
  condition : NodePtr → ConditionIndex → Option Bool
  operands : NodePtr → (NodePtr → Published) → List (Value Scalar)
  resourceValues : NodePtr → List ResourceValue

/-- The world in which no condition is known and nothing has a value. -/
def World.unknown : World where
  condition _ _ := none
  operands _ _ := []
  resourceValues _ := []

/-! ### The executive -/

/-- Where the executive is.  Outside of `step` it is `idle`; inside, the phase is the
loop which is running, with the local variables of that loop. -/
inductive Phase where
  | idle
  /-- The loop over the candidate queue. -/
  | evaluating
  /-- The loop of `resolveResourceConflicts` which collects the nodes of one priority:
  `chain` is the pending queue from `temp` on, `[]` when `temp` is null. -/
  | gathering (thisPriority : Int) (priorityNodes chain : List NodePtr)
  /-- The loop over `priorityNodes`; `chain` is the pending queue from `priorityHead`. -/
  | acquiring (priorityNodes chain : List NodePtr)
  /-- The loop over the state change queue. -/
  | transitioning
  /-- The two loops of `performAssignments`, with the part of the queue still to do. -/
  | executingAssignments (rest : List NodePtr)
  | retractingAssignments (rest : List NodePtr)
  /-- The loops of `executeOutboundQueue`. -/
  | executingCommands (accepted rejected : List NodePtr)
  | abortingCommands
  | executingUpdates
  deriving DecidableEq

/-- The part of the executive which decides what the nodes do: the plans, the queues of
nodes, the nodes themselves and the resources.  `added` are the roots given to `addPlan`
so far, `plan` those not yet deleted. -/
structure Core where
  plan : List NodePtr
  added : List NodePtr
  queues : Queues
  node : NodePtr → NodeImpl
  reservable : Reservables
  error : Option ExecError

namespace Core

/-- Records an error, unless there is one already. -/
def fail (e : ExecError) (c : Core) : Core :=
  { c with error := c.error.or (some e) }

/-- Whether a check has failed. -/
def hasFailed (c : Core) : Bool :=
  c.error.isSome || c.queues.error.isSome

/-- Whether the node belongs to a plan which is loaded. -/
def «exists» (F : Forest) (n : NodePtr) (c : Core) : Bool :=
  F.root n ∈ c.plan

/-- Changes the state of one node. -/
def modifyNode (n : NodePtr) (f : NodeImpl → NodeImpl) (c : Core) : Core :=
  { c with node := Function.update c.node n (f (c.node n)) }

/-- Changes the queues. -/
def withQueues (f : Queues → Queues) (c : Core) : Core :=
  { c with queues := f c.queues }

end Core

/-- The executive, with the nodes of all plans.  `log` is the history of the output
queues. -/
structure Exec extends Core where
  output : OutputQueues
  arbiter : ResourceArbiter NodePtr
  world : World
  time : Time
  phase : Phase
  log : List OutputEvent

namespace Exec

/-- What the nodes publish. -/
def published (s : Exec) : NodePtr → Published :=
  fun n => (s.node n).toPublished

/-- Changes the core. -/
def onCore (f : Core → Core) (s : Exec) : Exec :=
  { s with toCore := f s.toCore }

/-- Records an error, unless there is one already. -/
def fail (e : ExecError) (s : Exec) : Exec := s.onCore (Core.fail e)

/-- Changes the state of one node. -/
def modifyNode (n : NodePtr) (f : NodeImpl → NodeImpl) (s : Exec) : Exec :=
  s.onCore (Core.modifyNode n f)

/-- The executive before any plan is added. -/
def initial (hierarchy : ResourceHierarchyMap) (w : World) : Exec where
  plan := []
  added := []
  queues := ⟨fun _ => .none, [], [], [], [], none⟩
  node _ := .initial
  reservable _ := ⟨none, []⟩
  error := none
  output := ⟨[], [], [], [], []⟩
  arbiter := .start hierarchy
  world := w
  time := 0
  phase := .idle
  log := []

end Exec
end Plexil

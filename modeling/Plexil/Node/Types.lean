import Mathlib.Init

/-!
# Node states, outcomes and queue status

The enumerations of the node and of the executive.
-/

namespace Plexil

/-- A pointer to a node. -/
abbrev NodePtr := Nat

inductive PlexilNodeType where
  | nodeList | command | assignment | update | empty | libraryNodeCall
  deriving DecidableEq, Repr

namespace PlexilNodeType

/-- The types of the class `ListNode`. -/
def isList : PlexilNodeType → Bool
  | nodeList | libraryNodeCall => true
  | _ => false

end PlexilNodeType

inductive NodeState where
  | noNodeState | inactive | waiting | executing | iterationEnded | finished | failing
  | finishing
  deriving DecidableEq, Repr

/-- The states in which a node is carrying out its body. -/
def NodeState.isActive : NodeState → Bool
  | executing | finishing | failing => true
  | _ => false

inductive NodeOutcome where
  | noOutcome | success | failure | skipped | interrupted
  deriving DecidableEq, Repr

inductive FailureType where
  | noFailure | preConditionFailed | postConditionFailed | invariantConditionFailed
  | parentFailed | exited | parentExited
  deriving DecidableEq, Repr

inductive CommandHandleValue where
  | noCommandHandle | sentToSystem | accepted | rcvdBySystem | failed | denied | success
  | aborted | abortFailed | interfaceError
  deriving DecidableEq, Repr

/-- The status of a node with respect to the queues of the executive. -/
inductive QueueStatus where
  | none | check | pendingTry | pendingTryCheck | pending | pendingCheck | transition
  | transitionCheck | delete
  deriving DecidableEq, Repr

/-- The queues of nodes of the executive. -/
inductive QueueName where
  | candidate | pending | stateChange | finishedRoot
  deriving DecidableEq, Repr

/-- The queue in which a node of the status is to be, as the comments of the source say. -/
def QueueStatus.queue : QueueStatus → Option QueueName
  | none => Option.none
  | check => some .candidate
  | pendingTry | pendingTryCheck | pending | pendingCheck => some .pending
  | transition | transitionCheck => some .stateChange
  | delete => some .finishedRoot

/-- The conditions of a node, as indices into `m_conditions`.  For a list node the
ancestor conditions are those it provides for its children. -/
inductive ConditionIndex where
  | ancestorExit | ancestorInvariant | ancestorEnd | skip | start | pre | exit | invariant
  | end | post | repeat | actionComplete | abortComplete
  deriving DecidableEq, Repr

end Plexil

import Plexil.Node.Types
import Mathlib.Data.Option.Basic

/-!
# Destination states

`getDestState` of the node types.  What a node consults is gathered in a `NodeView`: its
type, its state and failure type, the state of its parent, and the values of its
conditions.  A condition is `none` when the node does not have it, and its value is
`none` when it is unknown.  `destState` has the transition the node is to make, if any.
-/

namespace Plexil

/-- A condition of a node, if present, with its value, if known. -/
abbrev Condition := Option (Option Bool)

namespace Condition

/-- The condition is present and known to be true. -/
def isTrue (c : Condition) : Bool := c = some (some true)

/-- The condition is present and known to be false. -/
def isFalse (c : Condition) : Bool := c = some (some false)

/-- The condition is present and not known to be true. -/
def isNotTrue (c : Condition) : Bool := c.isSome && !c.isTrue

end Condition

/-- The values of the conditions which a node consults. -/
structure ConditionValues where
  ancestorExit : Condition
  ancestorInvariant : Condition
  ancestorEnd : Condition
  skip : Condition
  start : Condition
  pre : Condition
  exit : Condition
  invariant : Condition
  «end» : Condition
  post : Condition
  «repeat» : Condition
  actionComplete : Condition
  abortComplete : Condition
  deriving DecidableEq

/-- What a node consults to find its destination state. -/
structure NodeView extends ConditionValues where
  nodeType : PlexilNodeType
  state : NodeState
  failureType : FailureType
  parentState : Option NodeState
  deriving DecidableEq

/-- A transition: the next state, and the next outcome and failure type where they are
set. -/
structure Dest where
  state : NodeState
  outcome : Option NodeOutcome := none
  failureType : Option FailureType := none
  deriving DecidableEq

/-- The transition to FINISHED of a node which did not start. -/
def Dest.skipped : Dest := ⟨.finished, some .skipped, none⟩

section

open Condition

/-! ### States common to all node types -/

def getDestStateFromInactive (v : NodeView) : Option Dest :=
  match v.parentState with
  | some .finished => some .skipped
  | some .executing =>
    if isTrue v.ancestorExit then some .skipped
    else if isFalse v.ancestorInvariant then some .skipped
    else if isTrue v.ancestorEnd then some .skipped
    else some { state := .waiting }
  | some _ => none
  | none => some { state := .waiting }

def getDestStateFromWaiting (v : NodeView) : Option Dest :=
  if isTrue v.ancestorExit then some .skipped
  else if isTrue v.exit then some .skipped
  else if isFalse v.ancestorInvariant then some .skipped
  else if isTrue v.ancestorEnd then some .skipped
  else if isTrue v.skip then some .skipped
  else if isNotTrue v.start then none
  else if isNotTrue v.pre then
    some ⟨.iterationEnded, some .failure, some .preConditionFailed⟩
  else some { state := .executing }

def getDestStateFromIterationEnded (v : NodeView) : Option Dest :=
  if isTrue v.ancestorExit then some ⟨.finished, some .interrupted, some .parentExited⟩
  else if isFalse v.ancestorInvariant then some ⟨.finished, some .failure, some .parentFailed⟩
  else if isTrue v.ancestorEnd then some { state := .finished }
  else
    match v.repeat with
    | some none => none
    | some (some true) => some { state := .waiting }
    | _ => some { state := .finished }

def getDestStateFromFinished (v : NodeView) : Option Dest :=
  if v.parentState = some .waiting then some { state := .inactive } else none

/-! ### Interruptions -/

/-- The checks which come first in EXECUTING and FINISHING.  The node goes to `outer` when
it is interrupted by an ancestor, and to `inner` when by its own condition. -/
def interruption (outer inner : NodeState) (v : NodeView) : Option Dest :=
  if isTrue v.ancestorExit then some ⟨outer, some .interrupted, some .parentExited⟩
  else if isTrue v.exit then some ⟨inner, some .interrupted, some .exited⟩
  else if isFalse v.ancestorInvariant then some ⟨outer, some .failure, some .parentFailed⟩
  else if isFalse v.invariant then
    some ⟨inner, some .failure, some .invariantConditionFailed⟩
  else none

/-- The transition to ITERATION_ENDED, with the outcome given by the post condition. -/
def iterationEnded (v : NodeView) : Dest :=
  if isNotTrue v.post then ⟨.iterationEnded, some .failure, some .postConditionFailed⟩
  else ⟨.iterationEnded, some .success, none⟩

/-- The transition out of FAILING, once the node is ready for it. -/
def failed (v : NodeView) : Dest :=
  if v.failureType = .parentFailed then { state := .finished }
  else if v.failureType = .parentExited then { state := .finished }
  else { state := .iterationEnded }

/-! ### Empty nodes -/

namespace EmptyNode

def getDestStateFromExecuting (v : NodeView) : Option Dest :=
  (interruption .finished .iterationEnded v).or
    (if isNotTrue v.end then none else some (iterationEnded v))

end EmptyNode

/-! ### Assignment nodes -/

namespace AssignmentNode

def getDestStateFromExecuting (v : NodeView) : Option Dest :=
  -- The assignment has to be executed first.
  if !isTrue v.actionComplete then none
  else
    (interruption .failing .failing v).or
      (if isNotTrue v.end then none else some (iterationEnded v))

def getDestStateFromFailing (v : NodeView) : Option Dest :=
  if isTrue v.abortComplete then some (failed v) else none

end AssignmentNode

/-! ### Command nodes -/

namespace CommandNode

def getDestStateFromExecuting (v : NodeView) : Option Dest :=
  (interruption .failing .failing v).or
    (if isNotTrue v.end then none else some { state := .finishing })

def getDestStateFromFinishing (v : NodeView) : Option Dest :=
  (interruption .failing .failing v).or
    (if isTrue v.actionComplete then some (iterationEnded v) else none)

def getDestStateFromFailing (v : NodeView) : Option Dest :=
  if isTrue v.abortComplete then some (failed v) else none

end CommandNode

/-! ### Update nodes -/

namespace UpdateNode

def getDestStateFromExecuting (v : NodeView) : Option Dest :=
  (interruption .failing .failing v).or
    (if isNotTrue v.end then none else some (iterationEnded v))

/-- An update cannot be aborted, so FAILING waits for the action complete condition. -/
def getDestStateFromFailing (v : NodeView) : Option Dest :=
  if isTrue v.actionComplete then some (failed v) else none

end UpdateNode

/-! ### List nodes -/

namespace ListNode

def getDestStateFromExecuting (v : NodeView) : Option Dest :=
  (interruption .failing .failing v).or
    (if isNotTrue v.end then none else some { state := .finishing })

/-- The action complete condition is that all children are waiting or finished. -/
def getDestStateFromFinishing (v : NodeView) : Option Dest :=
  (interruption .failing .failing v).or
    (if isTrue v.actionComplete then some (iterationEnded v) else none)

def getDestStateFromFailing (v : NodeView) : Option Dest :=
  if isTrue v.actionComplete then some (failed v) else none

end ListNode

end

/-! ### All node types -/

def getDestStateFromExecuting (v : NodeView) : Option Dest :=
  match v.nodeType with
  | .empty => EmptyNode.getDestStateFromExecuting v
  | .assignment => AssignmentNode.getDestStateFromExecuting v
  | .command => CommandNode.getDestStateFromExecuting v
  | .update => UpdateNode.getDestStateFromExecuting v
  | .nodeList | .libraryNodeCall => ListNode.getDestStateFromExecuting v

def getDestStateFromFinishing (v : NodeView) : Option Dest :=
  match v.nodeType with
  | .command => CommandNode.getDestStateFromFinishing v
  | .nodeList | .libraryNodeCall => ListNode.getDestStateFromFinishing v
  | .empty | .assignment | .update => none

def getDestStateFromFailing (v : NodeView) : Option Dest :=
  match v.nodeType with
  | .assignment => AssignmentNode.getDestStateFromFailing v
  | .command => CommandNode.getDestStateFromFailing v
  | .update => UpdateNode.getDestStateFromFailing v
  | .nodeList | .libraryNodeCall => ListNode.getDestStateFromFailing v
  | .empty => none

/-- The transition to be made by a node, if any. -/
def destState (v : NodeView) : Option Dest :=
  match v.state with
  | .inactive => getDestStateFromInactive v
  | .waiting => getDestStateFromWaiting v
  | .executing => getDestStateFromExecuting v
  | .finishing => getDestStateFromFinishing v
  | .finished => getDestStateFromFinished v
  | .failing => getDestStateFromFailing v
  | .iterationEnded => getDestStateFromIterationEnded v
  | .noNodeState => none

/-- Whether a node of the type can be in the state. -/
def PlexilNodeType.hasState : PlexilNodeType → NodeState → Bool
  | _, .noNodeState => false
  | .empty, .finishing | .empty, .failing => false
  | .assignment, .finishing | .update, .finishing => false
  | _, _ => true

/-- The legal successors of a state, as the comments of the source list them. -/
def legalSuccessor : PlexilNodeType → NodeState → NodeState → Bool
  | _, .inactive, .waiting | _, .inactive, .finished => true
  | _, .waiting, .executing | _, .waiting, .finished | _, .waiting, .iterationEnded => true
  | .empty, .executing, .finished | .empty, .executing, .iterationEnded => true
  | .assignment, .executing, .failing | .assignment, .executing, .iterationEnded => true
  | .update, .executing, .failing | .update, .executing, .iterationEnded => true
  | .command, .executing, .failing | .command, .executing, .finishing => true
  | .nodeList, .executing, .failing | .nodeList, .executing, .finishing => true
  | .libraryNodeCall, .executing, .failing | .libraryNodeCall, .executing, .finishing => true
  | .command, .finishing, .failing | .command, .finishing, .iterationEnded => true
  | .nodeList, .finishing, .failing | .nodeList, .finishing, .iterationEnded => true
  | .libraryNodeCall, .finishing, .failing
  | .libraryNodeCall, .finishing, .iterationEnded => true
  | .empty, .failing, _ => false
  | _, .failing, .finished | _, .failing, .iterationEnded => true
  | _, .iterationEnded, .finished | _, .iterationEnded, .waiting => true
  | _, .finished, .inactive => true
  | _, _, _ => false

section

variable {type : PlexilNodeType} {state next : NodeState}

/-- Only a waiting node can start to execute. -/
theorem legalSuccessor_executing (h : legalSuccessor type state .executing = true) :
  state = .waiting
  := by
  cases type <;> cases state <;> first | rfl | simp [legalSuccessor] at h

/-- No state is its own successor. -/
theorem legalSuccessor_ne (h : legalSuccessor type state next = true) :
  next ≠ state
  := by
  rintro rfl
  cases type <;> cases next <;> simp [legalSuccessor] at h

/-- An assignment which finishes from an active state comes from FAILING. -/
theorem legalSuccessor_assignment_finished (h : legalSuccessor .assignment state .finished = true)
    (hactive : state.isActive = true) :
  state = .failing
  := by
  revert h hactive
  cases state <;> decide

/-- A node is active after a transition only if it starts to execute or was active. -/
theorem legalSuccessor_isActive (h : legalSuccessor type state next = true)
    (hnext : next.isActive = true) :
  next = .executing ∨ state.isActive = true
  := by
  cases next <;> simp [NodeState.isActive] at hnext
  case executing => exact .inl rfl
  all_goals
    apply Or.inr
    cases type <;> cases state <;> first | rfl | simp [legalSuccessor] at h

end

/-! ### Where the transitions lead -/

theorem interruption_state {outer inner : NodeState} {v : NodeView} {d : Dest}
    (h : interruption outer inner v = some d) :
  d.state = outer ∨ d.state = inner
  := by
  unfold interruption at h
  grind

@[simp]
theorem iterationEnded_state (v : NodeView) :
  (iterationEnded v).state = .iterationEnded
  := by
  unfold iterationEnded
  split <;> rfl

theorem failed_state (v : NodeView) :
  (failed v).state = .finished ∨ (failed v).state = .iterationEnded
  := by
  unfold failed
  grind

/-- An interruption, or what comes after it. -/
theorem or_interruption_state {outer inner : NodeState} {v : NodeView}
    {otherwise : Option Dest} {d : Dest}
    (h : (interruption outer inner v).or otherwise = some d) :
  d.state = outer ∨ d.state = inner ∨ otherwise = some d
  := by
  rcases Option.or_eq_some_iff.mp h with h | ⟨-, h⟩
  · rcases interruption_state h with h | h
    · exact .inl h
    · exact .inr (.inl h)
  · exact .inr (.inr h)

/-- Every transition leads to a legal successor of the state. -/
theorem destState_legal {v : NodeView} {d : Dest} (h : destState v = some d) :
  legalSuccessor v.nodeType v.state d.state = true
  := by
  unfold destState at h
  cases hstate : v.state <;> simp only [hstate] at h
  case inactive =>
    unfold getDestStateFromInactive Dest.skipped at h
    grind [legalSuccessor]
  case waiting =>
    unfold getDestStateFromWaiting Dest.skipped at h
    grind [legalSuccessor]
  case iterationEnded =>
    unfold getDestStateFromIterationEnded at h
    grind [legalSuccessor]
  case finished =>
    unfold getDestStateFromFinished at h
    grind [legalSuccessor]
  case noNodeState => cases h
  case executing =>
    unfold getDestStateFromExecuting at h
    cases htype : v.nodeType <;> simp only [htype] at h
    case empty =>
      rcases or_interruption_state h with h | h | h <;> grind [legalSuccessor, iterationEnded_state]
    case assignment =>
      unfold AssignmentNode.getDestStateFromExecuting at h
      split at h
      · cases h
      · rcases or_interruption_state h with h | h | h <;>
          grind [legalSuccessor, iterationEnded_state]
    all_goals
      rcases or_interruption_state h with h | h | h <;> grind [legalSuccessor, iterationEnded_state]
  case finishing =>
    unfold getDestStateFromFinishing at h
    cases htype : v.nodeType <;> simp only [htype] at h
    case command =>
      rcases or_interruption_state h with h | h | h <;> grind [legalSuccessor, iterationEnded_state]
    case nodeList =>
      rcases or_interruption_state h with h | h | h <;> grind [legalSuccessor, iterationEnded_state]
    case libraryNodeCall =>
      rcases or_interruption_state h with h | h | h <;> grind [legalSuccessor, iterationEnded_state]
    all_goals cases h
  case failing =>
    have ready : ∀ {c : Bool}, (if c then some (failed v) else none) = some d →
        d.state = .finished ∨ d.state = .iterationEnded := by
      intro c hc
      cases c
      · cases hc
      · cases hc
        exact failed_state v
    unfold getDestStateFromFailing at h
    cases htype : v.nodeType <;> simp only [htype] at h
    case empty => cases h
    all_goals rcases ready h with h | h <;> simp [h, legalSuccessor]

end Plexil

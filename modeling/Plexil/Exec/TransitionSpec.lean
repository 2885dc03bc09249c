import Plexil.Exec.ResourcesSpec
import Plexil.Exec.Transition

/-!
# What a transition does

A transition changes the node itself, releases resources of the node, and notifies nodes.
Everything else it does is bookkeeping of the node: activation counts, internal variables
and fixed values, which no other node and no queue depends on.
-/

namespace Plexil

/-! ### Bookkeeping -/

/-- Two states of a node agree in all that decides its transitions. -/
structure NodeImpl.SameControl (x y : NodeImpl) : Prop where
  state : y.state = x.state
  outcome : y.outcome = x.outcome
  failureType : y.failureType = x.failureType
  nextState : y.nextState = x.nextState
  nextOutcome : y.nextOutcome = x.nextOutcome
  nextFailureType : y.nextFailureType = x.nextFailureType

namespace NodeImpl.SameControl

theorem refl (x : NodeImpl) : x.SameControl x := ⟨rfl, rfl, rfl, rfl, rfl, rfl⟩

theorem trans {x y z : NodeImpl} (h : x.SameControl y) (h' : y.SameControl z) :
  x.SameControl z
  := ⟨h'.state.trans h.state, h'.outcome.trans h.outcome, h'.failureType.trans h.failureType,
    h'.nextState.trans h.nextState, h'.nextOutcome.trans h.nextOutcome,
    h'.nextFailureType.trans h.nextFailureType⟩

theorem activateCondition (d : NodeDecl) (x : NodeImpl) (c : ConditionIndex) :
  x.SameControl (x.activateCondition d c)
  := by
  unfold NodeImpl.activateCondition
  split <;> exact ⟨rfl, rfl, rfl, rfl, rfl, rfl⟩

theorem deactivateCondition (d : NodeDecl) (x : NodeImpl) (c : ConditionIndex) :
  x.SameControl (x.deactivateCondition d c)
  := by
  unfold NodeImpl.deactivateCondition
  split <;> exact ⟨rfl, rfl, rfl, rfl, rfl, rfl⟩

theorem foldl {f : NodeImpl → ConditionIndex → NodeImpl}
    (h : ∀ (x : NodeImpl) c, x.SameControl (f x c))
    (cs : List ConditionIndex) (x : NodeImpl) :
  x.SameControl (cs.foldl f x)
  := by
  induction cs generalizing x with
  | nil => exact refl x
  | cons c cs ih => exact (h x c).trans (ih (f x c))

end NodeImpl.SameControl

/-- The state `s'` differs from `s` only in the bookkeeping of the node `n`, in the
arbiter and in errors. -/
structure Exec.Bookkeeping (n : NodePtr) (s s' : Exec) : Prop where
  plan : s'.plan = s.plan
  added : s'.added = s.added
  queues : s'.queues = s.queues
  reservable : s'.reservable = s.reservable
  output : s'.output = s.output
  world : s'.world = s.world
  time : s'.time = s.time
  phase : s'.phase = s.phase
  log : s'.log = s.log
  others : ∀ m, m ≠ n → s'.node m = s.node m
  self : (s.node n).SameControl (s'.node n)

/-- The node when it has left its state: an iteration which starts again clears the
outcome. -/
def NodeImpl.leave (x : NodeImpl) : NodeImpl :=
  if x.state = .finished ∨ (x.state = .iterationEnded ∧ x.nextState = .waiting) then x.reset
  else x

@[simp]
theorem NodeImpl.leave_state (x : NodeImpl) : x.leave.state = x.state
  := by
  unfold NodeImpl.leave
  split <;> rfl

@[simp]
theorem NodeImpl.leave_nextState (x : NodeImpl) : x.leave.nextState = x.nextState
  := by
  unfold NodeImpl.leave
  split <;> rfl

namespace Exec

section

variable {n m : NodePtr} {f g : NodeImpl → NodeImpl} {s : Exec}

theorem modifyNode_modifyNode :
  (s.modifyNode n f).modifyNode n g = s.modifyNode n fun x => g (f x)
  := by
  unfold modifyNode onCore Core.modifyNode
  simp

@[simp]
theorem node_modifyNode_self : (s.modifyNode n f).node n = f (s.node n)
  := Function.update_self ..

theorem node_modifyNode_of_ne (h : m ≠ n) : (s.modifyNode n f).node m = s.node m
  := Function.update_of_ne h ..

theorem modifyNode_congr (h : f (s.node n) = g (s.node n)) :
  s.modifyNode n f = s.modifyNode n g
  := by
  unfold modifyNode onCore Core.modifyNode
  rw [h]

theorem modifyNode_eq_self (h : f (s.node n) = s.node n) : s.modifyNode n f = s
  := by
  unfold modifyNode onCore Core.modifyNode
  rw [h, Function.update_eq_self]

end

namespace Bookkeeping

variable {n : NodePtr} {s s' s'' : Exec}

theorem refl (n : NodePtr) (s : Exec) : Bookkeeping n s s :=
  ⟨rfl, rfl, rfl, rfl, rfl, rfl, rfl, rfl, rfl, fun _ _ => rfl, .refl _⟩

theorem trans (h : Bookkeeping n s s') (h' : Bookkeeping n s' s'') :
  Bookkeeping n s s''
  where
  plan := h'.plan.trans h.plan
  added := h'.added.trans h.added
  queues := h'.queues.trans h.queues
  reservable := h'.reservable.trans h.reservable
  output := h'.output.trans h.output
  world := h'.world.trans h.world
  time := h'.time.trans h.time
  phase := h'.phase.trans h.phase
  log := h'.log.trans h.log
  others m hm := (h'.others m hm).trans (h.others m hm)
  self := h.self.trans h'.self

theorem fail (n : NodePtr) (s : Exec) (e : ExecError) : Bookkeeping n s (s.fail e) :=
  ⟨rfl, rfl, rfl, rfl, rfl, rfl, rfl, rfl, rfl, fun _ _ => rfl, .refl _⟩

theorem modifyNode {f : NodeImpl → NodeImpl} (h : (s.node n).SameControl (f (s.node n))) :
  Bookkeeping n s (s.modifyNode n f)
  where
  plan := rfl
  added := rfl
  queues := rfl
  reservable := rfl
  output := rfl
  world := rfl
  time := rfl
  phase := rfl
  log := rfl
  others m hm := node_modifyNode_of_ne hm
  self := by
    rw [node_modifyNode_self]
    exact h

theorem activate (F : Forest) (n : NodePtr) (cs : List ConditionIndex) (s : Exec) :
  Bookkeeping n s (s.activate F n cs)
  := modifyNode (NodeImpl.SameControl.foldl (NodeImpl.SameControl.activateCondition _) _ _)

theorem deactivate (F : Forest) (n : NodePtr) (cs : List ConditionIndex) (s : Exec) :
  Bookkeeping n s (s.deactivate F n cs)
  := modifyNode (NodeImpl.SameControl.foldl (NodeImpl.SameControl.deactivateCondition _) _ _)

theorem deactivateExecutable (F : Forest) (n : NodePtr) (s : Exec) :
  Bookkeeping n s (s.deactivateExecutable F n)
  := by
  have specialized : Bookkeeping n s (s.specializedDeactivateExecutable F n) := by
    unfold specializedDeactivateExecutable
    split
    · exact modifyNode ⟨rfl, rfl, rfl, rfl, rfl, rfl⟩
    · unfold deactivateCommand
      have released (arbiter : ResourceArbiter NodePtr) : Bookkeeping n s { s with arbiter } :=
        ⟨rfl, rfl, rfl, rfl, rfl, rfl, rfl, rfl, rfl, fun _ _ => rfl, .refl _⟩
      exact (released _).trans (modifyNode ⟨rfl, rfl, rfl, rfl, rfl, rfl⟩)
    · exact modifyNode ⟨rfl, rfl, rfl, rfl, rfl, rfl⟩
    all_goals exact refl n s
  exact specialized.trans (modifyNode ⟨rfl, rfl, rfl, rfl, rfl, rfl⟩)

theorem transitionToExecuting (F : Forest) (n : NodePtr) (s : Exec) :
  Bookkeeping n s (s.transitionToExecuting F n)
  := by
  have localVariables : Bookkeeping n s (s.modifyNode n NodeImpl.activateLocalVariables) :=
    modifyNode ⟨rfl, rfl, rfl, rfl, rfl, rfl⟩
  unfold Exec.transitionToExecuting
  split
  case h_3 => exact localVariables.trans ((activate ..).trans (activate ..))
  case h_5 => exact localVariables.trans ((activate ..).trans (activate ..))
  case h_6 => exact localVariables.trans ((activate ..).trans (activate ..))
  all_goals exact localVariables.trans (activate ..)

theorem transitionToFinishing (F : Forest) (n : NodePtr) (s : Exec) :
  Bookkeeping n s (s.transitionToFinishing F n)
  := by
  unfold Exec.transitionToFinishing
  split
  case h_1 | h_2 | h_3 => exact activate ..
  all_goals exact fail ..


/-- The same change of the node `n` in both states. -/
theorem modifyNode_both {f : NodeImpl → NodeImpl} (h : Bookkeeping n s s')
    (hf : ∀ {x y : NodeImpl}, x.SameControl y → (f x).SameControl (f y)) :
  Bookkeeping n (s.modifyNode n f) (s'.modifyNode n f)
  where
  plan := h.plan
  added := h.added
  queues := h.queues
  reservable := h.reservable
  output := h.output
  world := h.world
  time := h.time
  phase := h.phase
  log := h.log
  others m hm := by
    rw [node_modifyNode_of_ne hm, node_modifyNode_of_ne hm]
    exact h.others m hm
  self := by
    rw [node_modifyNode_self, node_modifyNode_self]
    exact hf h.self

/-! ### Leaving a state -/

section

variable (F : Forest) (n : NodePtr) (s : Exec)

theorem transitionFromWaiting : Bookkeeping n s (s.transitionFromWaiting F n)
  := by
  unfold Exec.transitionFromWaiting
  dsimp only
  split
  · apply deactivate
  · apply (deactivate ..).trans (deactivate ..)
  · apply (deactivate ..).trans (deactivate ..)
  · apply (deactivate ..).trans (fail ..)

theorem transitionFromExecuting : Bookkeeping n s (s.transitionFromExecuting F n)
  := by
  unfold Exec.transitionFromExecuting
  split
  · unfold EmptyNode.transitionFromExecuting
    dsimp only
    split
    · apply (deactivate ..).trans (deactivateExecutable ..)
    · apply (deactivate ..).trans (deactivateExecutable ..)
    · apply (deactivate ..).trans ((fail ..).trans (deactivateExecutable ..))
  · unfold AssignmentNode.transitionFromExecuting
    dsimp only
    split
    · apply deactivate
    · apply (deactivate ..).trans (deactivateExecutable ..)
    · apply (deactivate ..).trans (fail ..)
  · unfold CommandNode.transitionFromExecuting
    split
    · apply (deactivate ..).trans (deactivate ..)
    · apply deactivate
    · apply fail
  · unfold UpdateNode.transitionFromExecuting
    dsimp only
    split
    · apply (deactivate ..).trans (activate ..)
    · apply (deactivate ..).trans (deactivateExecutable ..)
    · apply (deactivate ..).trans (fail ..)
  all_goals
    unfold ListNode.transitionFromExecuting
    dsimp only
    split
    · apply (deactivate ..).trans ((deactivate ..).trans (activate ..))
    · apply (deactivate ..).trans (activate ..)
    · apply (deactivate ..).trans (fail ..)

theorem transitionFromFinishing : Bookkeeping n s (s.transitionFromFinishing F n)
  := by
  unfold Exec.transitionFromFinishing
  split
  · unfold CommandNode.transitionFromFinishing
    split
    · apply deactivate
    · apply (deactivateExecutable ..).trans (deactivate ..)
    · apply (fail ..).trans (deactivate ..)
  case h_2 | h_3 =>
    unfold ListNode.transitionFromFinishing
    dsimp only
    split
    · apply (deactivate ..).trans
      apply (deactivate ..).trans
      apply (deactivate ..).trans (deactivateExecutable ..)
    · apply deactivate
    · apply (deactivate ..).trans (fail ..)
  all_goals apply fail

theorem transitionFromFailing : Bookkeeping n s (s.transitionFromFailing F n)
  := by
  have ended (cs : List ConditionIndex) :
      Bookkeeping n s ((s.deactivate F n cs).deactivateExecutable F n) :=
    (deactivate ..).trans (deactivateExecutable ..)
  unfold Exec.transitionFromFailing
  split
  · unfold AssignmentNode.transitionFromFailing
    dsimp only
    split
    · apply ended
    · apply ended
    · apply (ended ..).trans (fail ..)
  · unfold CommandNode.transitionFromFailing
    dsimp only
    split
    · apply ended
    · apply ended
    · apply (ended ..).trans (fail ..)
  · unfold UpdateNode.transitionFromFailing
    dsimp only
    split
    · apply ended
    · apply ended
    · apply (ended ..).trans (fail ..)
  case h_4 | h_5 =>
    unfold ListNode.transitionFromFailing
    dsimp only
    have ended' (cs cs' : List ConditionIndex) : Bookkeeping n s
        (((s.deactivate F n cs).deactivate F n cs').deactivateExecutable F n) :=
      (deactivate ..).trans ((deactivate ..).trans (deactivateExecutable ..))
    split
    · apply ended'
    · apply ended'
    · apply (ended' ..).trans (fail ..)
  · apply fail

/-- Apart from bookkeeping, only the outcome is cleared on the way out of a state. -/
theorem transitionFrom :
  Bookkeeping n (s.modifyNode n NodeImpl.leave) (s.transitionFrom F n)
  := by
  unfold Exec.transitionFrom
  have leave_eq (h : ¬ ((s.node n).state = .finished ∨
      ((s.node n).state = .iterationEnded ∧ (s.node n).nextState = .waiting))) :
      s.modifyNode n NodeImpl.leave = s := modifyNode_eq_self (if_neg h)
  cases hstate : (s.node n).state
  case finished =>
    have : (s.node n).leave = (s.node n).reset := if_pos (.inl hstate)
    rw [modifyNode_congr this]
    apply refl
  case iterationEnded =>
    dsimp only
    unfold Exec.transitionFromIterationEnded
    dsimp only
    cases hnext : (s.node n).nextState
    case waiting =>
      have : (s.node n).leave = (s.node n).reset := if_pos (.inr ⟨hstate, hnext⟩)
      rw [modifyNode_congr this]
      apply (deactivate ..).modifyNode_both
      intro x y h
      exact ⟨h.state, rfl, rfl, h.nextState, h.nextOutcome, h.nextFailureType⟩
    case finished =>
      rw [leave_eq (by simp [hstate, hnext])]
      apply deactivate
    all_goals
      rw [leave_eq (by simp [hstate, hnext])]
      apply (deactivate ..).trans (fail ..)
  all_goals rw [leave_eq (by simp [hstate])]
  case inactive => apply refl
  case waiting => apply transitionFromWaiting
  case executing => apply transitionFromExecuting
  case finishing => apply transitionFromFinishing
  case failing => apply transitionFromFailing
  case noNodeState => apply fail

end

end Bookkeeping
end Exec

/-! ### Resources and outputs of a transition -/

/-- The base variable of the destination, for an assignment. -/
def NodeDecl.assigned (d : NodeDecl) : List ReservableId :=
  match d.nodeType with
  | .assignment => [.variable d.baseVariable]
  | _ => []

/-- The resources which a node tries to release on a transition, in order. -/
def NodeDecl.released (d : NodeDecl) (state nextState : NodeState) : List ReservableId :=
  match nextState with
  | .iterationEnded => if state = .waiting then [] else d.assigned ++ d.mutexes
  | .finished =>
    (if state = .failing then d.assigned else []) ++ (if state = .waiting then d.mutexes else [])
  | _ => []

/-- What a node puts into an output queue on a transition. -/
def outputOn (type : PlexilNodeType) (nextState : NodeState) (n : NodePtr) :
    Option OutputEvent :=
  match type, nextState with
  | .assignment, .executing => some (.enqueueAssignment n)
  | .assignment, .failing => some (.enqueueAssignmentForRetraction n)
  | .command, .executing => some (.enqueueCommand n)
  | .command, .failing => some (.enqueueAbortCommand n)
  | .update, .executing => some (.enqueueUpdate n)
  | _, _ => none

/-- The output queues with one more entry. -/
def OutputQueues.push (e : OutputEvent) (q : OutputQueues) : OutputQueues :=
  match e with
  | .enqueueAssignment n => { q with assignmentsToExecute := q.assignmentsToExecute ++ [n] }
  | .enqueueAssignmentForRetraction n =>
    { q with assignmentsToRetract := q.assignmentsToRetract ++ [n] }
  | .enqueueCommand n => { q with commandsToExecute := q.commandsToExecute ++ [n] }
  | .enqueueAbortCommand n => { q with commandsToAbort := q.commandsToAbort ++ [n] }
  | .enqueueUpdate n => { q with updatesToExecute := q.updatesToExecute ++ [n] }
  | _ => q

namespace Core

/-- Only the states of the children matter. -/
theorem notifiedChildren_congr {c c' : Core} (F : Forest) (n : NodePtr) (newValue : NodeState)
    (h : ∀ m ∈ (F.decl n).children, (c'.node m).state = (c.node m).state) :
  c'.notifiedChildren F n newValue = c.notifiedChildren F n newValue
  := by
  have filter (state : NodeState) :
      ((F.decl n).children.filter fun m => (c'.node m).state = state) =
        (F.decl n).children.filter fun m => (c.node m).state = state := by
    apply List.filter_congr
    intro m hm
    rw [h m hm]
  unfold notifiedChildren
  simp only [filter]

theorem mem_children_of_mem_notifiedChildren {F : Forest} {n m : NodePtr} {newValue : NodeState}
    {c : Core} (h : m ∈ c.notifiedChildren F n newValue) :
  m ∈ (F.decl n).children
  := by
  unfold notifiedChildren at h
  split at h
  · split at h
    · exact (List.mem_filter.mp h).1
    · exact (List.mem_filter.mp h).1
    · exact (List.mem_filter.mp h).1
    · cases h
  · cases h

/-- What a transition does to the core. -/
structure Transitioned (F : Forest) (n : NodePtr) (c c' : Core) : Prop where
  plan : c'.plan = c.plan
  added : c'.added = c.added
  reservable : c'.reservable =
    (c.releaseAll n ((F.decl n).released (c.node n).state (c.node n).nextState)).reservable
  queues : c'.queues =
    (if (c.node n).nextState = .finished ∧ (F.decl n).parent = none then
      (c.releaseAll n
        ((F.decl n).released (c.node n).state (c.node n).nextState)).queues.addFinishedRootNode n
    else
      (c.releaseAll n
        ((F.decl n).released (c.node n).state (c.node n).nextState)).queues.notify n).notifyAll
          (c.notifiedChildren F n (c.node n).nextState)
  others : ∀ m, m ≠ n → c'.node m = c.node m
  state : (c'.node n).state = (c.node n).nextState
  outcome : (c'.node n).outcome = (c.node n).leave.setOutcome.outcome
  failureType : (c'.node n).failureType = (c.node n).leave.setOutcome.failureType
  nextState : (c'.node n).nextState = .noNodeState
  nextOutcome : (c'.node n).nextOutcome = .noOutcome
  nextFailureType : (c'.node n).nextFailureType = .noFailure

namespace Transitioned

variable {F : Forest} {n : NodePtr} {c c' : Core}

theorem reservable_eq (h : Transitioned F n c c') (r : ReservableId) :
  c'.reservable r =
    if r ∈ (F.decl n).released (c.node n).state (c.node n).nextState then
      (c.reservable r).released n
    else c.reservable r
  := by
  rw [h.reservable]
  apply (releaseAll_spec ..).reservable

theorem waiters_eq (h : Transitioned F n c c') (r : ReservableId) :
  (c'.reservable r).waiters = (c.reservable r).waiters
  := by
  rw [h.reservable_eq]
  split
  · apply Reservable.waiters_released
  · rfl

/-- A resource which has a holder after the transition has not been released. -/
theorem holder_of (h : Transitioned F n c c') {r : ReservableId} {m : NodePtr}
    (hr : (c'.reservable r).holder = some m) :
  (c.reservable r).holder = some m ∧
    (m = n → r ∉ (F.decl n).released (c.node n).state (c.node n).nextState)
  := by
  rw [h.reservable_eq] at hr
  split at hr
  · rw [Reservable.holder_released] at hr
    split at hr
    · cases hr
    · rename_i hne
      refine ⟨hr, ?_⟩
      rintro rfl
      exact absurd hr hne
  · rename_i hr'
    exact ⟨hr, fun _ => hr'⟩

/-- The waiting nodes are told first, then the node itself is notified or marked as
finished, and then its children are notified. -/
theorem queues_eq (h : Transitioned F n c c') :
  ∃ told, c'.queues =
    (if (c.node n).nextState = .finished ∧ (F.decl n).parent = none then
      (c.queues.notifyAllResourceAvailable told).addFinishedRootNode n
    else (c.queues.notifyAllResourceAvailable told).notify n).notifyAll
      (c.notifiedChildren F n (c.node n).nextState) ∧
    ∀ m, m ∈ told ↔
      ∃ r ∈ (F.decl n).released (c.node n).state (c.node n).nextState,
        (c.reservable r).holder = some n ∧ m ∈ (c.reservable r).waiters
  := by
  obtain ⟨told, heq, htold⟩ := (releaseAll_spec n
    ((F.decl n).released (c.node n).state (c.node n).nextState) c).queues
  use told
  constructor
  · rw [h.queues, heq]
  · exact htold

/-- Only the node itself and its children become candidates. -/
theorem mem_candidate (h : Transitioned F n c c') {m : NodePtr}
    (hm : m ∈ c'.queues.candidate) :
  m = n ∨ m ∈ (F.decl n).children ∨ m ∈ c.queues.candidate
  := by
  obtain ⟨told, heq, -⟩ := h.queues_eq
  rw [heq] at hm
  have htold : ∀ {m}, m ∈ (c.queues.notifyAllResourceAvailable told).candidate →
      m ∈ c.queues.candidate := by
    intro m hm
    rwa [Queues.notifyAllResourceAvailable_eq] at hm
  rcases Queues.mem_candidate_notifyAll hm with hm | hm
  · exact .inr (.inl (mem_children_of_mem_notifiedChildren hm))
  · split at hm
    · exact .inr (.inr (htold (Queues.mem_candidate_addFinishedRootNode hm)))
    · exact (Queues.mem_candidate_notify hm).imp_right fun h => .inr (htold h)

@[simp]
theorem stateChange_eq (h : Transitioned F n c c') :
  c'.queues.stateChange = c.queues.stateChange
  := by
  obtain ⟨told, heq, -⟩ := h.queues_eq
  rw [heq, Queues.stateChange_notifyAll]
  split
  · rw [Queues.stateChange_addFinishedRootNode, Queues.notifyAllResourceAvailable_eq]
  · rw [Queues.stateChange_notify, Queues.notifyAllResourceAvailable_eq]

@[simp]
theorem pending_eq (h : Transitioned F n c c') :
  c'.queues.pending = c.queues.pending
  := by
  obtain ⟨told, heq, -⟩ := h.queues_eq
  rw [heq, Queues.pending_notifyAll]
  split
  · rw [Queues.pending_addFinishedRootNode, Queues.notifyAllResourceAvailable_eq]
  · rw [Queues.pending_notify, Queues.notifyAllResourceAvailable_eq]

/-- Only a root node which finishes is marked for deletion. -/
theorem mem_finishedRoot (h : Transitioned F n c c') {m : NodePtr}
    (hm : m ∈ c'.queues.finishedRoot) :
  m ∈ c.queues.finishedRoot ∨
    m = n ∧ (c.node n).nextState = .finished ∧ (F.decl n).parent = none
  := by
  obtain ⟨told, heq, -⟩ := h.queues_eq
  rw [heq, Queues.finishedRoot_notifyAll] at hm
  split at hm
  · rename_i hfinished
    rcases Queues.mem_finishedRoot_addFinishedRootNode hm with hm | hm
    · exact .inr ⟨hm, hfinished⟩
    · rw [Queues.notifyAllResourceAvailable_eq] at hm
      exact .inl hm
  · rw [Queues.finishedRoot_notify, Queues.notifyAllResourceAvailable_eq] at hm
    exact .inl hm

end Transitioned
end Core

theorem NodeDecl.needs_eq (d : NodeDecl) : d.needs = d.mutexes ++ d.assigned
  := by
  unfold NodeDecl.needs NodeDecl.assigned
  cases d.nodeType <;> simp

/-- At the end of an iteration everything is released. -/
theorem NodeDecl.mem_released_iterationEnded {d : NodeDecl} {state : NodeState} {r : ReservableId}
    (hr : r ∈ d.needs) (hstate : state ≠ .waiting) :
  r ∈ d.released state .iterationEnded
  := by
  rw [NodeDecl.needs_eq] at hr
  unfold NodeDecl.released
  dsimp only
  rw [if_neg hstate, List.mem_append]
  exact (List.mem_append.mp hr).symm

/-- A transition to an active state releases nothing. -/
theorem NodeDecl.released_of_isActive {d : NodeDecl} {state nextState : NodeState}
    (h : nextState.isActive = true) :
  d.released state nextState = []
  := by
  cases nextState <;> first | rfl | simp [NodeState.isActive] at h

namespace Exec

/-- The entry is put into its output queue, if there is one. -/
def enqueue (e : Option OutputEvent) (s : Exec) : Exec :=
  match e with
  | none => s
  | some e => { s with output := s.output.push e, log := s.log ++ [e] }

theorem enqueue_modifyNode (e : Option OutputEvent) (n : NodePtr) (f : NodeImpl → NodeImpl)
    (s : Exec) :
  (s.enqueue e).modifyNode n f = (s.modifyNode n f).enqueue e
  := by
  cases e <;> rfl

theorem enqueue_setState (e : Option OutputEvent) (F : Forest) (n : NodePtr)
    (newValue : NodeState) (s : Exec) :
  (s.enqueue e).setState F n newValue = (s.setState F n newValue).enqueue e
  := by
  cases e <;> rfl

section

variable (F : Forest) (n : NodePtr) (s : Exec)

theorem onCore_releaseAll_append (rs rs' : List ReservableId) :
  s.onCore (Core.releaseAll n (rs ++ rs')) =
    (s.onCore (Core.releaseAll n rs)).onCore (Core.releaseAll n rs')
  := by
  unfold onCore Core.releaseAll
  rw [List.foldl_append]

theorem onCore_releaseAll_if (p : Prop) [Decidable p] (rs : List ReservableId) :
  s.onCore (Core.releaseAll n (if p then rs else [])) =
    if p then s.onCore (Core.releaseAll n rs) else s
  := by
  split <;> rfl

theorem onCore_releaseAll_assigned (p : Prop) [Decidable p] :
  s.onCore (Core.releaseAll n (if p then (F.decl n).assigned else [])) =
    match (F.decl n).nodeType with
    | .assignment =>
      if p then s.onCore (Core.release n · (.variable (F.decl n).baseVariable)) else s
    | _ => s
  := by
  rw [onCore_releaseAll_if]
  unfold NodeDecl.assigned
  split <;> split <;> rfl

/-! ### Entering a state -/

theorem transitionToFinished_eq :
  s.transitionToFinished F n =
    s.onCore (Core.releaseAll n ((F.decl n).released (s.node n).state .finished))
  := by
  unfold NodeDecl.released
  dsimp only
  rw [onCore_releaseAll_append, onCore_releaseAll_if, onCore_releaseAll_assigned]
  rfl

theorem transitionToIterationEnded_eq :
  s.transitionToIterationEnded F n =
    (s.onCore (Core.releaseAll n ((F.decl n).released (s.node n).state .iterationEnded))).activate F n
      [.repeat]
  := by
  have hreleased : (F.decl n).released (s.node n).state .iterationEnded =
      (if (s.node n).state ≠ .waiting then (F.decl n).assigned else []) ++
        (if (s.node n).state ≠ .waiting then (F.decl n).mutexes else []) := by
    unfold NodeDecl.released
    by_cases h : (s.node n).state = .waiting <;> simp [h]
  rw [hreleased, onCore_releaseAll_append, onCore_releaseAll_if, onCore_releaseAll_assigned]
  rfl

end

namespace Bookkeeping

section

variable {n : NodePtr} {s s' : Exec}

theorem state (h : Bookkeeping n s s') (m : NodePtr) : (s'.node m).state = (s.node m).state
  := by
  by_cases hm : m = n
  · rw [hm]
    exact h.self.state
  · rw [h.others m hm]

/-- The same entry in an output queue in both states. -/
theorem enqueue_both (e : Option OutputEvent) (h : Bookkeeping n s s') :
  Bookkeeping n (s.enqueue e) (s'.enqueue e)
  := by
  cases e with
  | none => exact h
  | some e =>
    constructor
    case output => exact congrArg (OutputQueues.push e) h.output
    case log => exact congrArg (· ++ [e]) h.log
    case plan => exact h.plan
    case added => exact h.added
    case queues => exact h.queues
    case reservable => exact h.reservable
    case world => exact h.world
    case time => exact h.time
    case phase => exact h.phase
    case others => exact h.others
    case self => exact h.self

/-- The same resources released in both states. -/
theorem releaseAll_both (rs : List ReservableId) (h : Bookkeeping n s s') :
  Bookkeeping n (s.onCore (Core.releaseAll n rs)) (s'.onCore (Core.releaseAll n rs))
  := by
  have hs := Core.releaseAll_spec n rs s.toCore
  have hs' := Core.releaseAll_spec n rs s'.toCore
  obtain ⟨hqueues, hreservable⟩ := Core.releaseAll_congr n rs h.queues h.reservable
  constructor
  case plan => exact hs'.plan.trans (h.plan.trans hs.plan.symm)
  case added => exact hs'.added.trans (h.added.trans hs.added.symm)
  case queues => exact hqueues
  case reservable => exact hreservable
  case output => exact h.output
  case log => exact h.log
  case world => exact h.world
  case time => exact h.time
  case phase => exact h.phase
  case others =>
    intro m hm
    exact (congrFun hs'.node m).trans ((h.others m hm).trans (congrFun hs.node m).symm)
  case self =>
    have hn : (s.onCore (Core.releaseAll n rs)).node n = s.node n := congrFun hs.node n
    have hn' : (s'.onCore (Core.releaseAll n rs)).node n = s'.node n := congrFun hs'.node n
    rw [hn, hn']
    exact h.self

/-- The same new state in both states. -/
theorem setState_both (F : Forest) (newValue : NodeState) (h : Bookkeeping n s s') :
  Bookkeeping n (s.setState F n newValue) (s'.setState F n newValue)
  := by
  have hmodified : Bookkeeping n
      (s.modifyNode n fun x => { x.logTransition s.time newValue with state := newValue })
      (s'.modifyNode n fun x => { x.logTransition s'.time newValue with state := newValue }) := by
    rw [h.time]
    apply h.modifyNode_both
    intro x y hxy
    exact ⟨rfl, hxy.outcome, hxy.failureType, hxy.nextState, hxy.nextOutcome, hxy.nextFailureType⟩
  have hstate (m : NodePtr) := hmodified.state m
  have hchildren := Core.notifiedChildren_congr F n newValue fun c _ => hstate c
  unfold setState
  dsimp only
  constructor
  case queues => rw [hmodified.queues, hchildren]
  case plan => exact hmodified.plan
  case added => exact hmodified.added
  case reservable => exact hmodified.reservable
  case output => exact hmodified.output
  case log => exact hmodified.log
  case world => exact hmodified.world
  case time => exact hmodified.time
  case phase => exact hmodified.phase
  case others => exact hmodified.others
  case self => exact hmodified.self

end

end Bookkeeping

section

variable (F : Forest) (n : NodePtr) (s : Exec)

/-- The resources are released and the output is enqueued on the way into a state; in
EXECUTING the output comes later. -/
theorem transitionTo_spec (hnext : (s.node n).nextState ≠ .executing) :
  Bookkeeping n
    ((s.onCore (Core.releaseAll n
      ((F.decl n).released (s.node n).state (s.node n).nextState))).enqueue
        (outputOn (F.decl n).nodeType (s.node n).nextState n))
    (s.transitionTo F n)
  := by
  unfold transitionTo
  cases h : (s.node n).nextState
  case executing => contradiction
  case finished =>
    dsimp only
    rw [transitionToFinished_eq]
    cases (F.decl n).nodeType <;> exact .refl ..
  case iterationEnded =>
    dsimp only
    rw [transitionToIterationEnded_eq]
    cases (F.decl n).nodeType <;> exact .activate ..
  case failing =>
    dsimp only
    unfold transitionToFailing
    cases htype : (F.decl n).nodeType
    case assignment => exact (Bookkeeping.activate ..).enqueue_both (some _)
    case command => exact (Bookkeeping.activate ..).enqueue_both (some _)
    case empty => exact .fail ..
    all_goals exact .refl ..
  case waiting =>
    cases (F.decl n).nodeType <;> exact .activate ..
  case finishing =>
    cases (F.decl n).nodeType <;> exact .transitionToFinishing ..
  case inactive =>
    cases (F.decl n).nodeType <;> exact .refl ..
  case noNodeState =>
    cases (F.decl n).nodeType <;> exact .fail ..

theorem execute_spec :
  Bookkeeping n (s.enqueue (outputOn (F.decl n).nodeType .executing n)) (s.execute F n)
  := by
  have fixed {f : NodeImpl → NodeImpl} (hf : (s.node n).SameControl (f (s.node n))) :
      Bookkeeping n s ((s.modifyNode n f).fixValues n) :=
    (Bookkeeping.modifyNode hf).trans (.modifyNode ⟨rfl, rfl, rfl, rfl, rfl, rfl⟩)
  unfold execute
  cases (F.decl n).nodeType
  case assignment => exact (fixed ⟨rfl, rfl, rfl, rfl, rfl, rfl⟩).enqueue_both (some _)
  case command => exact (fixed ⟨rfl, rfl, rfl, rfl, rfl, rfl⟩).enqueue_both (some _)
  case update => exact (fixed ⟨rfl, rfl, rfl, rfl, rfl, rfl⟩).enqueue_both (some _)
  all_goals exact .refl ..

/-! ### The transition -/

/-- The transition without the bookkeeping. -/
def mainTransition : Exec :=
  let x := s.node n
  let d := F.decl n
  ((((s.modifyNode n NodeImpl.leave).onCore
    (Core.releaseAll n (d.released x.state x.nextState))).enqueue
      (outputOn d.nodeType x.nextState n)).setState F n x.nextState).modifyNode n
        fun y => y.setOutcome.clearNext

theorem transition_bookkeeping (hnext : (s.node n).nextState ≠ (s.node n).state) :
  Bookkeeping n (s.mainTransition F n) (s.transition F n)
  := by
  have left := Bookkeeping.transitionFrom F n s
  have hstate : ((s.transitionFrom F n).node n).state = (s.node n).state := by
    rw [left.state, node_modifyNode_self, NodeImpl.leave_state]
  have hnextState : ((s.transitionFrom F n).node n).nextState = (s.node n).nextState := by
    rw [left.self.nextState, node_modifyNode_self, NodeImpl.leave_nextState]
  have setOutcome {x y : NodeImpl} (h : x.SameControl y) :
      x.setOutcome.SameControl y.setOutcome := by
    unfold NodeImpl.setOutcome
    rw [h.nextOutcome, h.nextFailureType, h.failureType]
    split
    · exact ⟨h.state, rfl, rfl, h.nextState, rfl, rfl⟩
    · exact h
  have clearNext {x y : NodeImpl} (h : x.SameControl y) : x.clearNext.SameControl y.clearNext :=
    ⟨h.state, h.outcome, h.failureType, rfl, rfl, rfl⟩
  unfold transition
  dsimp only
  rw [if_neg hnext]
  by_cases hexec : (s.node n).nextState = .executing
  · rw [if_pos hexec]
    have entered : Bookkeeping n (s.modifyNode n NodeImpl.leave)
        ((s.transitionFrom F n).transitionTo F n) := by
      apply left.trans
      unfold transitionTo
      rw [hnextState, hexec]
      exact .transitionToExecuting F n _
    have main : s.mainTransition F n =
        ((((s.modifyNode n NodeImpl.leave).setState F n (s.node n).nextState).modifyNode n
          NodeImpl.setOutcome).enqueue (outputOn (F.decl n).nodeType .executing n)).modifyNode n
            NodeImpl.clearNext := by
      unfold mainTransition
      dsimp only
      rw [hexec, enqueue_setState, enqueue_modifyNode, enqueue_modifyNode, modifyNode_modifyNode]
      rfl
    rw [main]
    have outcome := (entered.setState_both F (s.node n).nextState).modifyNode_both setOutcome
    exact ((outcome.enqueue_both _).trans (execute_spec ..)).modifyNode_both clearNext
  · rw [if_neg hexec, modifyNode_modifyNode]
    have entered := transitionTo_spec F n (s.transitionFrom F n) (by rwa [hnextState])
    rw [hstate, hnextState] at entered
    have released := left.releaseAll_both ((F.decl n).released (s.node n).state (s.node n).nextState)
    have entered := (released.enqueue_both _).trans entered
    apply (entered.setState_both F _).modifyNode_both
    intro x y h
    exact clearNext (setOutcome h)

end

/-- What a transition does to the executive. -/
structure Transitioned (F : Forest) (n : NodePtr) (s s' : Exec) : Prop where
  core : Core.Transitioned F n s.toCore s'.toCore
  world : s'.world = s.world
  time : s'.time = s.time
  phase : s'.phase = s.phase
  output : s'.output = (s.enqueue (outputOn (F.decl n).nodeType (s.node n).nextState n)).output
  log : s'.log = (s.enqueue (outputOn (F.decl n).nodeType (s.node n).nextState n)).log

theorem transition_spec {F : Forest} {n : NodePtr} {s : Exec}
    (hnext : (s.node n).nextState ≠ (s.node n).state) :
  Transitioned F n s (s.transition F n)
  := by
  have h := transition_bookkeeping F n s hnext
  have hreleased := Core.releaseAll_spec n ((F.decl n).released (s.node n).state (s.node n).nextState)
    (s.modifyNode n NodeImpl.leave).toCore
  have hleft : (s.modifyNode n NodeImpl.leave).queues = s.queues := rfl
  have hleft' : (s.modifyNode n NodeImpl.leave).reservable = s.reservable := rfl
  obtain ⟨hqueues, hreservable⟩ := Core.releaseAll_congr n
    ((F.decl n).released (s.node n).state (s.node n).nextState) hleft hleft'
  -- The state before the new state of the node is set.
  generalize hs₁ : (((s.modifyNode n NodeImpl.leave).onCore
    (Core.releaseAll n ((F.decl n).released (s.node n).state (s.node n).nextState))).enqueue
      (outputOn (F.decl n).nodeType (s.node n).nextState n)) = s₁
  have hcore : s₁.toCore = (s.modifyNode n NodeImpl.leave).toCore.releaseAll n
      ((F.decl n).released (s.node n).state (s.node n).nextState) := by
    rw [← hs₁]
    cases outputOn (F.decl n).nodeType (s.node n).nextState n <;> rfl
  have hmain : s.mainTransition F n = (s₁.setState F n (s.node n).nextState).modifyNode n
      fun y => y.setOutcome.clearNext := by
    rw [← hs₁]
    rfl
  rw [hmain] at h
  have hnode : s₁.node = (s.modifyNode n NodeImpl.leave).node := by
    rw [hcore]
    exact hreleased.node
  have houtput : s₁.output =
      (s.enqueue (outputOn (F.decl n).nodeType (s.node n).nextState n)).output := by
    rw [← hs₁]
    cases outputOn (F.decl n).nodeType (s.node n).nextState n <;> rfl
  have hlog : s₁.log = (s.enqueue (outputOn (F.decl n).nodeType (s.node n).nextState n)).log := by
    rw [← hs₁]
    cases outputOn (F.decl n).nodeType (s.node n).nextState n <;> rfl
  have hframe : s₁.world = s.world ∧ s₁.time = s.time ∧ s₁.phase = s.phase := by
    rw [← hs₁]
    cases outputOn (F.decl n).nodeType (s.node n).nextState n <;> exact ⟨rfl, rfl, rfl⟩
  have hself : ((s₁.setState F n (s.node n).nextState).modifyNode n
      fun y => y.setOutcome.clearNext).node n =
        ({ (s.node n).leave.logTransition s₁.time (s.node n).nextState with
          state := (s.node n).nextState }).setOutcome.clearNext := by
    rw [node_modifyNode_self]
    unfold setState
    dsimp only
    rw [node_modifyNode_self, hnode, node_modifyNode_self]
  have houtcome (y : NodeImpl) (state : NodeState) :
      ({ y.logTransition s₁.time state with state }).setOutcome.outcome = y.setOutcome.outcome ∧
      ({ y.logTransition s₁.time state with state }).setOutcome.failureType =
        y.setOutcome.failureType ∧
      ({ y.logTransition s₁.time state with state }).setOutcome.state = state := by
    by_cases hy : y.nextOutcome = .noOutcome <;>
      simp [NodeImpl.setOutcome, NodeImpl.logTransition, hy]
  constructor
  case world => exact h.world.trans hframe.1
  case time => exact h.time.trans hframe.2.1
  case phase => exact h.phase.trans hframe.2.2
  case output => exact h.output.trans houtput
  case log => exact h.log.trans hlog
  case core =>
    constructor
    case plan => exact h.plan.trans ((congrArg Core.plan hcore).trans hreleased.plan)
    case added => exact h.added.trans ((congrArg Core.added hcore).trans hreleased.added)
    case reservable =>
      exact h.reservable.trans ((congrArg Core.reservable hcore).trans hreservable)
    case queues =>
      rw [h.queues, ← hqueues, ← hcore]
      have hchildren : (s₁.modifyNode n fun x =>
          { x.logTransition s₁.time (s.node n).nextState with
            state := (s.node n).nextState }).notifiedChildren F n (s.node n).nextState =
          s.notifiedChildren F n (s.node n).nextState := by
        apply Core.notifiedChildren_congr
        intro c hc
        have hne := (F.parent_ne ((F.mem_children n c).mp hc)).symm
        rw [node_modifyNode_of_ne hne, hnode, node_modifyNode_of_ne hne]
      rw [← hchildren]
      rfl
    case others =>
      intro m hm
      rw [h.others m hm, node_modifyNode_of_ne hm]
      unfold setState
      dsimp only
      rw [node_modifyNode_of_ne hm, hnode, node_modifyNode_of_ne hm]
    case state =>
      rw [h.self.state, hself]
      exact (houtcome ..).2.2
    case outcome =>
      rw [h.self.outcome, hself]
      exact (houtcome ..).1
    case failureType =>
      rw [h.self.failureType, hself]
      exact (houtcome ..).2.1
    case nextState => rw [h.self.nextState, hself, NodeImpl.clearNext]
    case nextOutcome => rw [h.self.nextOutcome, hself, NodeImpl.clearNext]
    case nextFailureType => rw [h.self.nextFailureType, hself, NodeImpl.clearNext]

end Exec
end Plexil

import Plexil.Exec.Outputs

/-!
# The acknowledgement of an update

The acknowledgement of an update node is false from the time when the node starts to
execute until the external system acknowledges the update.  Until then an update node which
executes can only go to FAILING, and it stays there.
-/

namespace Plexil

/-- Whether the acknowledgement of an update is an argument of the condition. -/
def ConditionIndex.readsAck : ConditionIndex → Bool
  | .end | .actionComplete => true
  | _ => false

/-- What a transition does to the acknowledgement of an update. -/
def ackOn (state nextState : NodeState) (ack : SimpleBooleanVariable) : SimpleBooleanVariable :=
  match state, nextState with
  | .waiting, .executing => ack.activate.activate
  | .executing, .failing => ack.deactivate.activate
  | .executing, .iterationEnded | .failing, .finished | .failing, .iterationEnded =>
    ack.deactivate.deactivate
  | _, _ => ack

section

variable {state nextState : NodeState} {ack : SimpleBooleanVariable}

/-- The acknowledgement is active for its conditions and for the body of an active node. -/
theorem activeCount_ackOn (hlegal : legalSuccessor .update state nextState = true)
    (hcount : ack.activeCount = if state.isActive then 2 else 0) :
  (ackOn state nextState ack).activeCount = if nextState.isActive then 2 else 0
  := by
  revert hlegal hcount
  cases state <;> cases nextState <;>
    simp [legalSuccessor, ackOn, NodeState.isActive, SimpleBooleanVariable.activate,
      SimpleBooleanVariable.deactivate]
  all_goals omega

/-- The acknowledgement is false when the node starts to execute. -/
theorem value_ackOn_executing (hcount : ack.activeCount = 0) :
  (ackOn .waiting .executing ack).value = false
  := by
  simp [ackOn, SimpleBooleanVariable.activate, hcount]

/-- It does not change when the node fails. -/
theorem value_ackOn_failing (hcount : ack.activeCount = 2) :
  (ackOn .executing .failing ack).value = ack.value
  := by
  simp [ackOn, SimpleBooleanVariable.activate, SimpleBooleanVariable.deactivate, hcount]

end

namespace NodeImpl

variable {d : NodeDecl}

theorem ack_activateCondition (htype : d.nodeType = .update) (x : NodeImpl) (c : ConditionIndex) :
  (x.activateCondition d c).ack = if c.readsAck then x.ack.activate else x.ack
  := by
  unfold activateCondition
  rw [htype]
  cases c <;> rfl

theorem ack_deactivateCondition (htype : d.nodeType = .update) (x : NodeImpl)
    (c : ConditionIndex) :
  (x.deactivateCondition d c).ack = if c.readsAck then x.ack.deactivate else x.ack
  := by
  unfold deactivateCondition
  rw [htype]
  cases c <;> rfl

end NodeImpl

/-- An update has the conditions which read its acknowledgement. -/
theorem Forest.hasCondition_of_readsAck {F : Forest} {n : NodePtr}
    (htype : (F.decl n).nodeType = .update) {c : ConditionIndex} (hc : c.readsAck = true) :
  F.hasCondition n c = true
  := by
  cases c
  case «end» => simp [hasCondition, htype]
  case actionComplete => simp [hasCondition, htype]
  all_goals cases hc

namespace Exec

variable {F : Forest} {n : NodePtr} {s : Exec}

section

variable (htype : (F.decl n).nodeType = .update)
include htype

theorem ack_activate (cs : List ConditionIndex) (s : Exec) :
  ((s.activate F n cs).node n).ack =
    cs.foldl (fun ack c => if c.readsAck then ack.activate else ack) (s.node n).ack
  := by
  unfold activate
  rw [node_modifyNode_self]
  generalize s.node n = x
  induction cs generalizing x with
  | nil => rfl
  | cons c cs ih =>
    rw [List.foldl_cons, List.filter_cons]
    split
    · rw [List.foldl_cons, ih, NodeImpl.ack_activateCondition htype]
    · rename_i hc
      rw [ih, if_neg (mt (Forest.hasCondition_of_readsAck htype) hc)]

theorem ack_deactivate (cs : List ConditionIndex) (s : Exec) :
  ((s.deactivate F n cs).node n).ack =
    cs.foldl (fun ack c => if c.readsAck then ack.deactivate else ack) (s.node n).ack
  := by
  unfold deactivate
  rw [node_modifyNode_self]
  generalize s.node n = x
  induction cs generalizing x with
  | nil => rfl
  | cons c cs ih =>
    rw [List.foldl_cons, List.filter_cons]
    split
    · rw [List.foldl_cons, ih, NodeImpl.ack_deactivateCondition htype]
    · rename_i hc
      rw [ih, if_neg (mt (Forest.hasCondition_of_readsAck htype) hc)]

theorem ack_deactivateExecutable (s : Exec) :
  ((s.deactivateExecutable F n).node n).ack = (s.node n).ack.deactivate
  := by
  unfold deactivateExecutable specializedDeactivateExecutable
  rw [htype, node_modifyNode_self]
  dsimp only
  rw [node_modifyNode_self]
  rfl

theorem ack_execute (s : Exec) :
  ((s.execute F n).node n).ack = (s.node n).ack.activate
  := by
  unfold execute fixValues enqueueUpdate
  rw [htype]
  dsimp only
  rw [node_modifyNode_self, node_modifyNode_self]

end

theorem ack_setState (newValue : NodeState) (s : Exec) :
  ((s.setState F n newValue).node n).ack = (s.node n).ack
  := by
  unfold setState
  dsimp only
  rw [node_modifyNode_self]
  rfl

theorem ack_setOutcome (x : NodeImpl) : x.setOutcome.ack = x.ack
  := by
  unfold NodeImpl.setOutcome
  split <;> rfl

theorem ack_releaseAll (rs : List ReservableId) (s : Exec) (m : NodePtr) :
  ((s.onCore (Core.releaseAll n rs)).node m).ack = (s.node m).ack
  := congrArg (fun node => (node m).ack) (Core.releaseAll_spec n rs s.toCore).node

section

variable (htype : (F.decl n).nodeType = .update)
  (hlegal : legalSuccessor .update (s.node n).state (s.node n).nextState = true)
include htype hlegal

/-- On the way out of EXECUTING the end condition no longer reads the acknowledgement, but in
FAILING the action complete condition does. -/
theorem ack_transitionFrom :
  ((s.transitionFrom F n).node n).ack =
    if (s.node n).state.isActive then
      if (s.node n).nextState = .failing then (s.node n).ack.deactivate.activate
      else (s.node n).ack.deactivate.deactivate
    else (s.node n).ack
  := by
  unfold transitionFrom
  cases hstate : (s.node n).state <;> rw [hstate] at hlegal <;> dsimp only [NodeState.isActive]
  case inactive => rfl
  case waiting =>
    unfold transitionFromWaiting
    dsimp only
    split
    · exact ack_deactivate htype _ s
    · rw [ack_deactivate htype, ack_deactivate htype]
      rfl
    · rw [ack_deactivate htype, ack_deactivate htype]
      rfl
    · exact ack_deactivate htype _ s
  case executing =>
    unfold transitionFromExecuting UpdateNode.transitionFromExecuting
    rw [htype]
    dsimp only
    cases hnext : (s.node n).nextState <;> rw [hnext] at hlegal <;> try cases hlegal
    · rw [ack_deactivateExecutable htype, ack_deactivate htype]
      rfl
    · rw [ack_activate htype, ack_deactivate htype]
      rfl
  case failing =>
    unfold transitionFromFailing UpdateNode.transitionFromFailing
    rw [htype]
    dsimp only
    cases hnext : (s.node n).nextState <;> rw [hnext] at hlegal <;> try cases hlegal
    · rw [ack_deactivateExecutable htype, ack_deactivate htype]
      rfl
    · rw [ack_deactivateExecutable htype, ack_deactivate htype]
      rfl
  case finishing =>
    cases hnext : (s.node n).nextState <;> rw [hnext] at hlegal <;> cases hlegal
  case iterationEnded =>
    unfold transitionFromIterationEnded
    dsimp only
    split
    · exact ack_deactivate htype _ s
    · rw [node_modifyNode_self]
      exact ack_deactivate htype _ s
    · exact ack_deactivate htype _ s
  case finished =>
    rw [node_modifyNode_self]
    rfl
  case noNodeState => rfl

/-- The end condition reads the acknowledgement in EXECUTING. -/
theorem ack_transitionTo :
  ((s.transitionTo F n).node n).ack =
    if (s.node n).nextState = .executing then (s.node n).ack.activate else (s.node n).ack
  := by
  unfold transitionTo
  cases hnext : (s.node n).nextState <;> rw [hnext] at hlegal <;> dsimp only
  case executing =>
    unfold transitionToExecuting
    rw [htype]
    dsimp only
    rw [ack_activate htype, node_modifyNode_self]
    rfl
  case waiting => exact ack_activate htype _ s
  case finished =>
    rw [transitionToFinished_eq]
    exact ack_releaseAll _ s n
  case iterationEnded =>
    rw [transitionToIterationEnded_eq, ack_activate htype]
    exact ack_releaseAll _ s n
  case failing =>
    unfold transitionToFailing
    rw [htype]
    rfl
  case finishing =>
    exfalso
    cases hstate : (s.node n).state <;> rw [hstate] at hlegal <;> cases hlegal
  case inactive => rfl
  case noNodeState => rfl

/-- The acknowledgement after a transition. -/
theorem ack_transition :
  ((s.transition F n).node n).ack = ackOn (s.node n).state (s.node n).nextState (s.node n).ack
  := by
  have left := Bookkeeping.transitionFrom F n s
  have hstate : ((s.transitionFrom F n).node n).state = (s.node n).state := by
    rw [left.state, node_modifyNode_self, NodeImpl.leave_state]
  have hnext : ((s.transitionFrom F n).node n).nextState = (s.node n).nextState := by
    rw [left.self.nextState, node_modifyNode_self, NodeImpl.leave_nextState]
  have entered : (((s.transitionFrom F n).transitionTo F n).node n).ack =
      if (s.node n).nextState = .executing then ((s.transitionFrom F n).node n).ack.activate
      else ((s.transitionFrom F n).node n).ack := by
    rw [ack_transitionTo htype (by rwa [hstate, hnext]), hnext]
  have houtcome : (((((s.transitionFrom F n).transitionTo F n).setState F n
      (s.node n).nextState).modifyNode n NodeImpl.setOutcome).node n).ack =
        (((s.transitionFrom F n).transitionTo F n).node n).ack := by
    rw [node_modifyNode_self, ack_setOutcome, ack_setState]
  have hclear (t : Exec) : ((t.modifyNode n NodeImpl.clearNext).node n).ack = (t.node n).ack := by
    rw [node_modifyNode_self]
    rfl
  unfold transition
  dsimp only
  rw [if_neg (legalSuccessor_ne hlegal), hclear]
  by_cases hexec : (s.node n).nextState = .executing
  · rw [if_pos hexec, ack_execute htype, houtcome, entered, if_pos hexec,
      ack_transitionFrom htype hlegal, hexec]
    rw [hexec] at hlegal
    rw [legalSuccessor_executing hlegal]
    rfl
  · rw [if_neg hexec, houtcome, entered, if_neg hexec, ack_transitionFrom htype hlegal]
    revert hlegal hexec
    cases (s.node n).state <;> cases (s.node n).nextState <;>
      simp [legalSuccessor, ackOn, NodeState.isActive]

end

/-! ### Updates which wait for their acknowledgement -/

/-- The update node has been executed, and it has not been acknowledged. -/
structure Unacknowledged (F : Forest) (s : Exec) (n : NodePtr) : Prop where
  nodeType : (F.decl n).nodeType = .update
  state : (s.node n).state = .executing ∨ (s.node n).state = .failing
  ack : (s.node n).ack.value = false

/-- The end condition is not true without an acknowledgement. -/
theorem Unacknowledged.isNotTrue_end (h : s.Unacknowledged F n) :
  (s.view F n).end.isNotTrue = true
  := by
  change (s.endCondition F n).isNotTrue = true
  unfold endCondition
  rw [h.nodeType, h.ack]
  cases s.userCondition F n .end with
  | none => rfl
  | some value =>
    dsimp only
    split
    · rfl
    · rcases value with _ | _ | _ <;> rfl

theorem interruption_state {outer inner : NodeState} {v : NodeView} {d : Dest}
    (h : interruption outer inner v = some d) :
  d.state = outer ∨ d.state = inner
  := by
  unfold interruption at h
  split at h
  · cases h
    exact .inl rfl
  split at h
  · cases h
    exact .inr rfl
  split at h
  · cases h
    exact .inl rfl
  split at h
  · cases h
    exact .inr rfl
  · cases h

/-- Such a node can only fail. -/
theorem Unacknowledged.dest (h : s.Unacknowledged F n) {d : Dest} (hd : s.dest F n = some d) :
  (s.node n).state = .executing ∧ d.state = .failing
  := by
  have hstate : (s.view F n).state = (s.node n).state := rfl
  have htype : (s.view F n).nodeType = .update := h.nodeType
  unfold Exec.dest destState at hd
  rcases h.state with hs | hs <;> rw [hstate, hs] at hd <;> dsimp only at hd
  · unfold getDestStateFromExecuting UpdateNode.getDestStateFromExecuting at hd
    rw [htype, h.isNotTrue_end] at hd
    dsimp only at hd
    rw [if_pos rfl, Option.or_none] at hd
    exact ⟨hs, (interruption_state hd).elim id id⟩
  · unfold getDestStateFromFailing UpdateNode.getDestStateFromFailing at hd
    have hcomplete : (s.view F n).actionComplete = some (some (s.node n).ack.value) := by
      change s.actionCompleteCondition F n = _
      unfold actionCompleteCondition
      rw [h.nodeType]
    rw [htype, hcomplete, h.ack] at hd
    cases hd

end Exec
end Plexil

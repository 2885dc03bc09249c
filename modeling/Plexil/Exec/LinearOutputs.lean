import Plexil.Exec.MutualExclusion
import Plexil.Exec.UpdateSpec

/-!
# Linear output queues

An output is put into its queue only when its node is in no output queue, and it is handled
exactly once.  The loop goes on only without assignments and commands in the queues, and an
update node with an update in the queue cannot start to execute again, since it waits for
the acknowledgement.
-/

namespace Plexil

/-- The type of the nodes with outputs of the kind. -/
def OutputKind.nodeType : OutputKind → PlexilNodeType
  | .assignment | .retraction => .assignment
  | .command | .abort => .command
  | .update => .update

theorem OutputKind.mem_all (k : OutputKind) : k ∈ all := by cases k <;> decide

namespace Exec

/-- How often the output has been put into its queue. -/
def timesEnqueued (s : Exec) (k : OutputKind) (n : NodePtr) : Nat :=
  s.log.countP fun e => e.enqueued = some (k, n)

/-- How often the output has been handled. -/
def timesHandled (s : Exec) (k : OutputKind) (n : NodePtr) : Nat :=
  s.log.countP fun e => e.handled = some (k, n)

/-- The output queues are linear: each output is in one queue at most, whatever has been put
into a queue has been handled once or is still to be handled, and outside of `step` all of
it has been handled. -/
structure OutputsLinear (s : Exec) : Prop where
  nodup : s.inOutput.Nodup
  balanced : ∀ k n, s.timesEnqueued k n = s.timesHandled k n + (s.unhandled k).count n
  flushed : s.phase = .idle → s.inOutput = [] ∧ ∀ k, s.unhandled k = []

/-- What is put into a queue on the way from `s` to `s'` belongs to a node which is in no
output queue. -/
def EnqueuesFresh (s s' : Exec) : Prop :=
  ∃ es, s'.log = s.log ++ es ∧ ∀ e ∈ es, ∀ k n, e.enqueued = some (k, n) → n ∉ s.inOutput

/-- The invariant of the output queues. -/
structure Outputs (F : Forest) (s : Exec) : Prop where
  typed : ∀ k, ∀ n ∈ s.unhandled k, (F.decl n).nodeType = k.nodeType
  settled : ∀ k, k ≠ .update → ∀ n ∈ s.outputs k, n ∉ s.queues.stateChange
  updates : ∀ n ∈ s.outputs .update, s.Unacknowledged F n ∧
    (n ∈ s.queues.stateChange → (s.node n).nextState = .failing)
  activeCount : ∀ n, (F.decl n).nodeType = .update →
    (s.node n).ack.activeCount = if (s.node n).state.isActive then 2 else 0
  linear : ∀ n, s.inOutput.count n ≤ 1
  balanced : ∀ k n, s.timesEnqueued k n = s.timesHandled k n + (s.unhandled k).count n

variable {F : Forest} {s s' : Exec} {e : Event} {x : Option OutputEvent} {k : OutputKind}
  {m n : NodePtr}

theorem count_inOutput (s : Exec) (n : NodePtr) :
  s.inOutput.count n = (s.outputs .assignment).count n + (s.outputs .retraction).count n +
    (s.outputs .command).count n + (s.outputs .abort).count n + (s.outputs .update).count n
  := by
  simp [inOutput, OutputKind.all, Nat.add_assoc]

theorem mem_inOutput : n ∈ s.inOutput ↔ ∃ k, n ∈ s.outputs k
  := by
  unfold inOutput
  rw [List.mem_flatMap]
  constructor
  · rintro ⟨k, -, h⟩
    exact ⟨k, h⟩
  · rintro ⟨k, h⟩
    exact ⟨k, k.mem_all, h⟩

/-! ### What is put into a queue -/

theorem enqueued_outputOn {type : PlexilNodeType} {next : NodeState} {y : OutputEvent}
    (h : outputOn type next n = some y) (hy : y.enqueued = some (k, m)) :
  m = n ∧ type = k.nodeType ∧ (k = .update → next = .executing)
  := by
  unfold outputOn at h
  split at h <;> cases h <;> cases hy <;> exact ⟨rfl, rfl, by simp⟩

/-- An output is put into a queue by the transition of its node. -/
theorem transition_of_enqueued (hpush : (∃ y ∈ x, y.enqueued.isSome = true) →
      ∃ n, s.coreEvent F e = .transition n ∧
        x = outputOn (F.decl n).nodeType (s.node n).nextState n)
    (h : x.bind OutputEvent.enqueued = some (k, n)) :
  s.coreEvent F e = .transition n ∧ (F.decl n).nodeType = k.nodeType ∧
    (k = .update → (s.node n).nextState = .executing)
  := by
  obtain ⟨y, rfl, hy⟩ := Option.bind_eq_some_iff.mp h
  obtain ⟨m, hevent, heq⟩ := hpush ⟨y, rfl, by rw [hy]; rfl⟩
  obtain ⟨rfl, htype, hnext⟩ := enqueued_outputOn heq.symm hy
  exact ⟨hevent, htype, hnext⟩

theorem sum_enqueues_le (x : Option OutputEvent) (n : NodePtr) :
  enqueues x .assignment n + enqueues x .retraction n + enqueues x .command n +
    enqueues x .abort n + enqueues x .update n ≤ 1
  := by
  unfold enqueues
  rcases x.bind OutputEvent.enqueued with _ | ⟨k, m⟩
  · simp
  · cases k <;> by_cases h : m = n <;> simp [h]

/-- What is in a queue after a step was there before or has been put there. -/
theorem OutputStep.mem_outputs (h : OutputStep x s s') (hn : n ∈ s'.outputs k) :
  n ∈ s.outputs k ∨ x.bind OutputEvent.enqueued = some (k, n)
  := by
  have hcount := h.outputs k n
  have hpos := List.count_pos_iff.mpr hn
  by_cases hx : x.bind OutputEvent.enqueued = some (k, n)
  · exact .inr hx
  · apply Or.inl
    apply List.count_pos_iff.mp
    rw [enqueues, if_neg hx] at hcount
    omega

theorem OutputStep.mem_unhandled (h : OutputStep x s s') (hn : n ∈ s'.unhandled k) :
  n ∈ s.unhandled k ∨ x.bind OutputEvent.enqueued = some (k, n)
  := by
  have hcount := h.unhandled k n
  have hpos := List.count_pos_iff.mpr hn
  by_cases hx : x.bind OutputEvent.enqueued = some (k, n)
  · exact .inr hx
  · apply Or.inl
    apply List.count_pos_iff.mp
    rw [enqueues, if_neg hx] at hcount
    omega

theorem OutputStep.balanced (h : OutputStep x s s')
    (hs : s.timesEnqueued k n = s.timesHandled k n + (s.unhandled k).count n) :
  s'.timesEnqueued k n = s'.timesHandled k n + (s'.unhandled k).count n
  := by
  have hcount := h.unhandled k n
  have henqueued : s'.timesEnqueued k n = s.timesEnqueued k n + enqueues x k n := by
    unfold timesEnqueued enqueues
    rw [h.log, List.countP_append]
    cases x <;> simp [List.countP_singleton]
  have hhandled : s'.timesHandled k n = s.timesHandled k n + handles x k n := by
    unfold timesHandled handles
    rw [h.log, List.countP_append]
    cases x <;> simp [List.countP_singleton]
  omega

end Exec

/-! ### The acknowledgement of an update -/

theorem NodeImpl.ack_setDest (d : Option Dest) (x : NodeImpl) : (x.setDest d).ack = x.ack
  := by
  unfold NodeImpl.setDest
  split <;> rfl

section

variable {F : Forest} {s s' : Exec} {e : Event} {n : NodePtr}

/-- The acknowledgement of an update whose node makes a transition. -/
theorem Move.ack_of_transition (h : Move F s e s') (hevent : s.coreEvent F e = .transition n)
    (hlegal : s.NextLegal F n) (htype : (F.decl n).nodeType = .update) :
  (s'.node n).ack = ackOn (s.node n).state (s.node n).nextState (s.node n).ack
  := by
  obtain ⟨⟨w, ns, rfl⟩, hphase, rest, hstateChange⟩ := Exec.coreEvent_eq_transition hevent
  unfold Core.NextLegal at hlegal
  rw [htype] at hlegal
  cases h
  case transition rest' m _ hstateChange' _ =>
    cases hstateChange.symm.trans hstateChange'
    exact Exec.ack_transition
      (s := s.onCore (Core.withQueues (Queues.getStateChangeNode n rest))) htype hlegal
  case continueLoop hstateChange' _ => cases hstateChange.symm.trans hstateChange'
  case leaveLoop hstateChange' _ => cases hstateChange.symm.trans hstateChange'
  all_goals simp_all

/-- The acknowledgement of any other update is set by the external system or not at all. -/
theorem Move.ack_of_other (h : Move F s e s') (hevent : s.coreEvent F e ≠ .transition n) :
  (s'.node n).ack = (s.node n).ack ∨
    (s.phase = .idle ∨ n ∈ s.unhandled .assignment) ∧
      ∃ val, (s'.node n).ack = (s.node n).ack.setValue val
  := by
  -- Only the node `m` changes.
  have modified {m : NodePtr} {y : NodeImpl} {t : Exec}
      (ht : t.node = Function.update s.node m y) :
      (t.node n).ack = if n = m then y.ack else (s.node n).ack := by
    rw [ht]
    split
    · rename_i hn
      rw [hn, Function.update_self]
    · rename_i hn
      rw [Function.update_of_ne hn]
  have unmodified {m : NodePtr} {y : NodeImpl} {t : Exec}
      (ht : t.node = Function.update s.node m y) (hy : y.ack = (s.node m).ack) :
      (t.node n).ack = (s.node n).ack := by
    rw [modified ht]
    split
    · rename_i hn
      rw [hy, hn]
    · rfl
  cases h
  case commandHandle m handle w ns hphase htype hhandle hns =>
    apply Or.inl (unmodified rfl _)
    dsimp only
    split <;> rfl
  case commandAbortAck m ack w ns hphase htype hns =>
    apply Or.inl (unmodified rfl _)
    dsimp only
    split <;> rfl
  case updateAck m ack w ns hphase htype hns =>
    have hack := modified (t := (s.acknowledgeUpdate m ack).changeWorld w ns) rfl
    by_cases hn : n = m
    · subst hn
      rw [if_pos rfl] at hack
      exact .inr ⟨.inl hphase, ack, hack⟩
    · rw [if_neg hn] at hack
      exact .inl hack
  case evaluate w ns rest m hphase hcandidate =>
    obtain ⟨error, heq⟩ := Core.evaluateCandidate_eq F m rest (s.dest F m) s.toCore
    have hnode := congrArg Core.node heq
    apply Or.inl (unmodified (t := s.evaluateCandidate F m rest) hnode _)
    exact NodeImpl.ack_setDest ..
  case resolve w ns hphase hcandidate =>
    apply Or.inl
    rw [Exec.toCore_beginGathering]
  case gather w ns acc rest thisPriority temp hphase hpriority =>
    apply Or.inl
    rcases Core.node_resourceCheckEligible F temp (s.dest F temp) s.toCore with heq | heq
    · exact congrArg (fun node => (node n).ack) heq
    · exact unmodified (t := s.gather F thisPriority acc temp rest) heq (NodeImpl.ack_setDest ..)
  case acquire w ns rest chain m hphase =>
    exact .inl (congrArg (fun node => (node n).ack) (Core.node_acquire F m s.toCore))
  case acquired w ns chain hphase =>
    apply Or.inl
    rw [Exec.toCore_beginGathering]
  case transition w ns rest m hphase hstateChange hns =>
    have hn : n ≠ m := by
      rintro rfl
      apply hevent
      rw [Exec.coreEvent_next, hphase, hstateChange]
    apply Or.inl
    change ((s.transitionNode F m rest).node n).ack = _
    rcases Exec.transitionNode_cases F m rest s with ⟨-, heq⟩ | ⟨-, ht⟩
    · rw [heq]
      rfl
    · rw [ht.core.others n hn]
      rfl
  case executeAssignment w ns rest m hphase hns =>
    have hack := modified (t := s.executeAssignment m) rfl
    by_cases hn : n = m
    · subst hn
      rw [if_pos rfl] at hack
      refine .inr ⟨.inr ?_, true, hack⟩
      unfold Exec.unhandled
      rw [hphase]
      exact .head rest
    · rw [if_neg hn] at hack
      exact .inl hack
  case retractAssignment w ns rest m hphase hns => exact .inl (unmodified rfl rfl)
  case arbitrate w ns hphase harbitrate =>
    apply Or.inl
    rw [Exec.toCore_arbitrate harbitrate]
  case reportFailure w ns rejected m hphase hns =>
    apply Or.inl (unmodified rfl _)
    dsimp only
    split <;> rfl
  all_goals exact .inl rfl

end

/-! ### The invariant -/

namespace Exec

variable {F : Forest} {s s' : Exec} {e : Event} {x : Option OutputEvent} {k : OutputKind}
  {n : NodePtr}

/-- What is put into a queue is in none. -/
theorem Outputs.fresh (hs : s.Outputs F)
    (hpush : (∃ y ∈ x, y.enqueued.isSome = true) → ∃ n, s.coreEvent F e = .transition n ∧
      x = outputOn (F.decl n).nodeType (s.node n).nextState n)
    (h : x.bind OutputEvent.enqueued = some (k, n)) :
  n ∉ s.inOutput
  := by
  obtain ⟨hevent, htype, hexec⟩ := transition_of_enqueued hpush h
  obtain ⟨-, -, rest, hstateChange⟩ := coreEvent_eq_transition hevent
  have hqueued : n ∈ s.queues.stateChange := by
    simp [hstateChange]
  intro hmem
  obtain ⟨j, hj⟩ := mem_inOutput.mp hmem
  by_cases hupdate : j = .update
  · -- An update node in a queue can only go to FAILING, where no update is enqueued.
    subst hupdate
    obtain ⟨hwaits, hnext⟩ := hs.updates n hj
    have hk : k = .update := by
      rw [hwaits.nodeType] at htype
      cases k <;> first | rfl | cases htype
    cases (hexec hk).symm.trans (hnext hqueued)
  · exact hs.settled j hupdate n hj hqueued

/-- Outside of the transitions no assignments and commands are in the queues before they are
handled. -/
theorem InPhase.outputs_eq_nil (h : s.InPhase) (hstage : s.phase.stage = 0) (hk : k ≠ .update) :
  s.outputs k = []
  := by
  have harbitrated : s.phase.arbitrated = [] := by
    revert hstage
    cases s.phase <;> simp [Phase.stage, Phase.arbitrated]
  cases k
  case assignment => exact h.assignmentsToExecute (.inl hstage)
  case retraction => exact h.assignmentsToRetract (.inl hstage)
  case command =>
    unfold outputs
    dsimp only
    rw [h.commandsToExecute (.inl hstage), harbitrated]
    rfl
  case abort => exact h.commandsToAbort (.inl hstage)
  case update => contradiction

theorem InPhase.outputs_of_idle (h : s.InPhase) (hphase : s.phase = .idle) (k : OutputKind) :
  s.outputs k = []
  := by
  have hstage : s.phase.stage = 7 := congrArg Phase.stage hphase
  cases k
  case assignment => exact h.assignmentsToExecute (by omega)
  case retraction => exact h.assignmentsToRetract (by omega)
  case command =>
    unfold outputs
    dsimp only
    rw [h.commandsToExecute (by omega), hphase]
    rfl
  case abort => exact h.commandsToAbort (by omega)
  case update => exact h.updatesToExecute (by omega)

theorem InPhase.unhandled_of_idle (h : s.InPhase) (hphase : s.phase = .idle) (k : OutputKind) :
  s.unhandled k = []
  := by
  have hnil := h.outputs_of_idle hphase
  unfold unhandled
  rw [hphase]
  cases k <;> exact hnil _

/-- The acknowledgement of an update in the queue does not change without a transition. -/
theorem Outputs.ack_eq (hs : s.Outputs F) (hphase : s.InPhase) (h : Move F s e s')
    (hn : n ∈ s.outputs .update) (hevent : s.coreEvent F e ≠ .transition n) :
  (s'.node n).ack = (s.node n).ack
  := by
  apply (h.ack_of_other hevent).resolve_right
  rintro ⟨hidle | hassignment, -⟩
  · rw [hphase.outputs_of_idle hidle] at hn
    cases hn
  · cases (hs.typed _ n hassignment).symm.trans (hs.updates n hn).1.nodeType

/-- Without a transition the update nodes keep their states. -/
theorem Outputs.activeCount_eq (hs : s.Outputs F) (h : Move F s e s')
    (htype : (F.decl n).nodeType = .update) (hevent : s.coreEvent F e ≠ .transition n)
    (hstate : (s'.node n).state = (s.node n).state) :
  (s'.node n).ack.activeCount = if (s'.node n).state.isActive then 2 else 0
  := by
  rw [hstate, ← hs.activeCount n htype]
  rcases h.ack_of_other hevent with heq | ⟨-, val, heq⟩
  · rw [heq]
  · rw [heq]
    unfold SimpleBooleanVariable.setValue
    split <;> rfl

/-- The queues of nodes and the nodes after a step which makes no transition. -/
theorem Outputs.undisturbed (hs : s.Outputs F) (hphase : s.InPhase) (h : Move F s e s')
    (houtputs : ∀ k n, n ∈ s'.outputs k → n ∈ s.outputs k)
    (hevent : ∀ n, s.coreEvent F e ≠ .transition n)
    (hstate : ∀ n, (s'.node n).state = (s.node n).state)
    (hsettled : ∀ k, k ≠ .update → ∀ n ∈ s.outputs k, n ∉ s'.queues.stateChange)
    (hnext : ∀ n ∈ s.outputs .update, n ∈ s'.queues.stateChange →
      (s'.node n).nextState = .failing) :
  (∀ k, k ≠ .update → ∀ n ∈ s'.outputs k, n ∉ s'.queues.stateChange) ∧
    (∀ n ∈ s'.outputs .update, s'.Unacknowledged F n ∧
      (n ∈ s'.queues.stateChange → (s'.node n).nextState = .failing)) ∧
    ∀ n, (F.decl n).nodeType = .update →
      (s'.node n).ack.activeCount = if (s'.node n).state.isActive then 2 else 0
  := by
  refine ⟨fun k hk n hn => hsettled k hk n (houtputs k n hn), ?_, ?_⟩
  · intro n hn
    have hn' := houtputs _ n hn
    have hwaits := (hs.updates n hn').1
    refine ⟨⟨hwaits.nodeType, ?_, ?_⟩, hnext n hn'⟩
    · rw [hstate]
      exact hwaits.state
    · rw [hs.ack_eq hphase h hn' (hevent n)]
      exact hwaits.ack
  · exact fun n htype => hs.activeCount_eq h htype (hevent n) (hstate n)

/-- An update node with an update in the queue after its transition starts to execute or
fails. -/
theorem Outputs.transitioned (hs : s.Outputs F) (h : Move F s e s') (hx : OutputStep x s s')
    (hpush : (∃ y ∈ x, y.enqueued.isSome = true) → ∃ n, s.coreEvent F e = .transition n ∧
      x = outputOn (F.decl n).nodeType (s.node n).nextState n)
    (hevent : s.coreEvent F e = .transition n) (hqueued : n ∈ s.queues.stateChange)
    (hlegal : s.NextLegal F n) (hstate : (s'.node n).state = (s.node n).nextState)
    (hn : n ∈ s'.outputs .update) :
  s'.Unacknowledged F n
  := by
  have hack := h.ack_of_transition hevent hlegal
  unfold Core.NextLegal at hlegal
  rcases hx.mem_outputs hn with hn | hk
  · obtain ⟨hwaits, hnext⟩ := hs.updates n hn
    have hfailing := hnext hqueued
    have hexecuting : (s.node n).state = .executing := by
      apply hwaits.state.resolve_right
      intro hstate
      rw [hwaits.nodeType, hfailing, hstate] at hlegal
      cases hlegal
    have hcount := hs.activeCount n hwaits.nodeType
    rw [hexecuting] at hcount
    refine ⟨hwaits.nodeType, .inr (hstate.trans hfailing), ?_⟩
    rw [hack hwaits.nodeType, hexecuting, hfailing, value_ackOn_failing hcount]
    exact hwaits.ack
  · obtain ⟨-, htype, hnext⟩ := transition_of_enqueued hpush hk
    have hexec := hnext rfl
    rw [hexec] at hlegal
    have hwaiting := legalSuccessor_executing hlegal
    have hcount := hs.activeCount n htype
    rw [hwaiting] at hcount
    refine ⟨htype, .inl (hstate.trans hexec), ?_⟩
    rw [hack htype, hwaiting, hexec, value_ackOn_executing hcount]

end Exec

theorem Move.outputs {F : Forest} {s s' : Exec} {e : Event} (h : Move F s e s') (walk : s.Walk)
    (hq : s.queues.WellFormed) (hphase : s.InPhase) (hex : s.Exclusive F) (hs : s.Outputs F) :
  s'.Outputs F
  := by
  obtain ⟨x, hx, hpush⟩ := h.outputStep
  obtain ⟨c₁, ns, hcore, -, heq⟩ := h.core walk
  have hnode : s'.node = c₁.node := by
    rw [heq]
    rfl
  have hstateChange : s'.queues.stateChange = c₁.queues.stateChange :=
    (congrArg (fun c => c.queues.stateChange) heq).trans (Queues.stateChange_notifyAll ns)
  suffices hrest : (∀ k, k ≠ .update → ∀ n ∈ s'.outputs k, n ∉ s'.queues.stateChange) ∧
      (∀ n ∈ s'.outputs .update, s'.Unacknowledged F n ∧
        (n ∈ s'.queues.stateChange → (s'.node n).nextState = .failing)) ∧
      ∀ n, (F.decl n).nodeType = .update →
        (s'.node n).ack.activeCount = if (s'.node n).state.isActive then 2 else 0 by
    refine ⟨?_, hrest.1, hrest.2.1, hrest.2.2, ?_, fun k n => hx.balanced (hs.balanced k n)⟩
    · intro k n hn
      rcases hx.mem_unhandled hn with hn | hk
      · exact hs.typed k n hn
      · exact (Exec.transition_of_enqueued hpush hk).2.1
    · intro n
      have hlinear := hs.linear n
      have hsum := Exec.sum_enqueues_le x n
      have houtputs := fun k => hx.outputs k n
      have ha := houtputs .assignment
      have hr := houtputs .retraction
      have hc := houtputs .command
      have hb := houtputs .abort
      have hu := houtputs .update
      rw [Exec.count_inOutput] at hlinear ⊢
      by_cases hn : ∃ k, x.bind OutputEvent.enqueued = some (k, n)
      · obtain ⟨k, hk⟩ := hn
        have hzero := List.count_eq_zero.mpr (hs.fresh hpush hk)
        rw [Exec.count_inOutput] at hzero
        omega
      · have hnone (k : OutputKind) : Exec.enqueues x k n = 0 := if_neg fun hk => hn ⟨k, hk⟩
        simp only [hnone] at ha hr hc hb hu
        omega
  -- Nothing is put into a queue without a transition.
  have kept (hevent : ∀ n, s.coreEvent F e ≠ .transition n) (k : OutputKind) (n : NodePtr)
      (hn : n ∈ s'.outputs k) : n ∈ s.outputs k := by
    apply (hx.mem_outputs hn).resolve_right
    intro hk
    exact hevent n (Exec.transition_of_enqueued hpush hk).1
  have calm (hevent : ∀ n, s.coreEvent F e ≠ .transition n)
      (hstate : ∀ n, (c₁.node n).state = (s.node n).state)
      (hnext : ∀ n, (c₁.node n).nextState = (s.node n).nextState)
      (hqueue : c₁.queues.stateChange = s.queues.stateChange) := by
    refine hs.undisturbed hphase h (kept hevent) hevent (fun n => ?_) (fun k hk n hn => ?_)
      fun n hn hqueued => ?_
    · rw [hnode]
      exact hstate n
    · rw [hstateChange, hqueue]
      exact hs.settled k hk n hn
    · rw [hnode, hnext]
      rw [hstateChange, hqueue] at hqueued
      exact (hs.updates n hn).2 hqueued
  -- A node of the pending queue waits, so that no update of it is in the queue.
  have hwaiting (n : NodePtr) (hn : n ∈ s.queues.pending) : n ∉ s.outputs .update := by
    intro hupdate
    have hlegal := hex.legal n (.inl hn)
    unfold Core.NextLegal at hlegal
    rw [hex.next n hn] at hlegal
    rcases (hs.updates n hupdate).1.state with hstate | hstate <;>
      cases (legalSuccessor_executing hlegal).symm.trans hstate
  have considered {k : Option QueueName} {n : NodePtr}
      (hevent : ∀ n, s.coreEvent F e ≠ .transition n) (hstage : s.phase.stage = 0)
      (hc : Core.Considered F n k s.toCore c₁)
      (hself : n ∈ s.outputs .update → k = some .stateChange → (c₁.node n).nextState = .failing) := by
    refine hs.undisturbed hphase h (kept hevent) hevent (fun m => ?_) (fun j hj m hm => ?_)
      fun m hm hqueued => ?_
    · rw [hnode]
      by_cases hmn : m = n
      · rw [hmn]
        exact hc.state
      · rw [hc.others m hmn]
    · rw [hphase.outputs_eq_nil hstage hj] at hm
      cases hm
    · rw [hnode]
      rw [hstateChange] at hqueued
      rcases (hc.placed m .stateChange).mp hqueued with ⟨rfl, hk⟩ | ⟨hmn, hqueued⟩
      · exact hself hm hk
      · rw [hc.others m hmn]
        exact (hs.updates m hm).2 hqueued
  generalize hevent : s.coreEvent F e = event at hcore
  cases hcore
  case quiet hquiet =>
    apply calm (by simp [hevent]) (fun n => (hquiet.node n).state)
      (fun n => (hquiet.node n).nextState)
    rw [hquiet.queues]
  case notify n hexists =>
    exact calm (by simp [hevent]) (fun _ => rfl) (fun _ => rfl) Queues.stateChange_notify
  case notifyResourceAvailable n hexists =>
    exact calm (by simp [hevent]) (fun _ => rfl) (fun _ => rfl)
      Queues.stateChange_notifyResourceAvailable
  case addPlan root hroot hadded =>
    exact calm (by simp [hevent]) (fun _ => rfl) (fun _ => rfl) Queues.stateChange_notify
  case deleteFinishedPlans =>
    exact calm (by simp [hevent]) (fun _ => rfl) (fun _ => rfl) rfl
  case evaluate n rest d hcandidate hfinds =>
    obtain ⟨k, hc, hk⟩ := Core.considered_evaluate hq hex.waiters hcandidate hfinds
    obtain ⟨hevaluating, rfl⟩ := Exec.coreEvent_eq_evaluate hevent
    apply considered (by simp [hevent]) (by rw [hevaluating]; rfl) hc
    rintro hn rfl
    obtain ⟨d, hd⟩ := Option.ne_none_iff_exists'.mp (hk.mp (by simp))
    rw [Core.node_evaluateCandidate, hd]
    exact ((hs.updates n hn).1.dest hd).2
  case examine n d hpending hfinds =>
    obtain ⟨k, hc, -⟩ := Core.considered_examine hq hex.waiters hpending hfinds
      (hex.next n hpending) (hex.legal n (.inl hpending))
    obtain ⟨-, ⟨acc, rest, hgathering⟩, -⟩ := Exec.coreEvent_eq_examine hevent
    apply considered (by simp [hevent]) (by rw [hgathering]; rfl) hc
    exact fun hn => absurd hn (hwaiting n hpending)
  case acquire n hpending =>
    obtain ⟨k, hc⟩ := Core.considered_acquire hq hex.waiters hpending
      (hex.next n hpending) (hex.legal n (.inl hpending))
    obtain ⟨rest, chain, hacquiring⟩ := Exec.coreEvent_eq_acquire hevent
    apply considered (by simp [hevent]) (by rw [hacquiring]; rfl) hc
    exact fun hn => absurd hn (hwaiting n hpending)
  case stay n rest hqueue hnext =>
    exact absurd hnext (legalSuccessor_ne (hex.legal n (.inr (by simp [hqueue]))))
  case transition n rest hqueue hnext ht =>
    have hqueued : n ∈ s.queues.stateChange := by
      simp [hqueue]
    have hlegal := hex.legal n (.inr hqueued)
    have hrest : s'.queues.stateChange = rest :=
      hstateChange.trans (ht.stateChange_eq.trans Queues.stateChange_getStateChangeNode)
    have hnodup : s.queues.stateChange.Nodup := hq.nodup .stateChange
    rw [hqueue] at hnodup
    have hn : n ∉ rest := (List.nodup_cons.mp hnodup).1
    have hself : (s'.node n).state = (s.node n).nextState := by
      rw [hnode]
      exact ht.state
    have hothers (m : NodePtr) (hm : m ≠ n) : s'.node m = s.node m := by
      rw [hnode]
      exact ht.others m hm
    have hevent_of_ne {m : NodePtr} (hm : m ≠ n) : s.coreEvent F e ≠ .transition m := by
      rw [hevent]
      rintro heq
      cases heq
      exact hm rfl
    have hsub {m : NodePtr} (hm : m ∈ s'.queues.stateChange) : m ∈ s.queues.stateChange := by
      rw [hrest] at hm
      rw [hqueue]
      exact .tail n hm
    -- Only the node itself has put something into a queue.
    have old {k : OutputKind} {m : NodePtr} (hm : m ≠ n) (hmem : m ∈ s'.outputs k) :
        m ∈ s.outputs k := by
      apply (hx.mem_outputs hmem).resolve_right
      intro hk
      exact hevent_of_ne hm (Exec.transition_of_enqueued hpush hk).1
    refine ⟨?_, ?_, ?_⟩
    · intro k hk m hm
      by_cases hmn : m = n
      · rw [hmn, hrest]
        exact hn
      · exact fun hmem => hs.settled k hk m (old hmn hm) (hsub hmem)
    · intro m hm
      by_cases hmn : m = n
      · subst hmn
        refine ⟨?_, fun hmem => absurd (hrest ▸ hmem) hn⟩
        exact hs.transitioned h hx hpush hevent hqueued hlegal hself hm
      · have hm' := hs.updates m (old hmn hm)
        have hack := hs.ack_eq hphase h (old hmn hm) (hevent_of_ne hmn)
        rw [hothers m hmn] at hack ⊢
        refine ⟨⟨hm'.1.nodeType, ?_, ?_⟩, fun hmem => hm'.2 (hsub hmem)⟩
        · rw [hothers m hmn]
          exact hm'.1.state
        · rw [hothers m hmn]
          exact hm'.1.ack
    · intro m htype
      by_cases hmn : m = n
      · subst hmn
        rw [h.ack_of_transition hevent hlegal htype, hself]
        unfold Core.NextLegal at hlegal
        rw [htype] at hlegal
        exact activeCount_ackOn hlegal (hs.activeCount m htype)
      · apply hs.activeCount_eq h htype (hevent_of_ne hmn)
        rw [hothers m hmn]

namespace Exec

variable {F : Forest} {Allowed : Exec → Event → Prop} {s : Exec}

theorem Reachable.outputs (h : Reachable F Allowed s) : s.Outputs F
  := by
  apply h.invariant_of (Q := Reachable F Allowed) (P := Outputs F) (fun _ hs => hs)
  · rintro s ⟨hierarchy, w, rfl⟩
    constructor
    case typed =>
      intro k n hn
      cases k <;> cases hn
    case settled =>
      intro k _ n hn
      cases k <;> cases hn
    case updates => exact fun n hn => nomatch hn
    case activeCount => exact fun _ _ => rfl
    case linear => exact fun n => Nat.zero_le 1
    case balanced =>
      intro k n
      cases k <;> rfl
  · intro s e s' hs houtputs _ hstep
    exact (Move.of_apply hstep).outputs hs.walk hs.wellFormed hs.inPhase hs.exclusive houtputs

/-- In every run the output queues are linear, and what is put into a queue belongs to a node
which is in none. -/
theorem outputsLinear (h : Reachable F (fun _ _ => True) s) :
  s.OutputsLinear ∧ ∀ e s', apply F s e = some s' → s.EnqueuesFresh s'
  := by
  have houtputs := h.outputs
  refine ⟨⟨?_, houtputs.balanced, fun hphase => ?_⟩, fun e s' hstep => ?_⟩
  · rw [List.nodup_iff_count_le_one]
    exact houtputs.linear
  · have hnil := h.inPhase.outputs_of_idle hphase
    constructor
    · unfold inOutput
      rw [List.flatMap_eq_nil_iff]
      exact fun k _ => hnil k
    · exact h.inPhase.unhandled_of_idle hphase
  · obtain ⟨x, hx, hpush⟩ := (Move.of_apply hstep).outputStep
    refine ⟨x.toList, hx.log, fun y hy k n hk => ?_⟩
    apply houtputs.fresh hpush (k := k)
    rw [Option.mem_toList.mp hy]
    exact hk

/-- Root nodes with a command each. -/
def commandNodes : Forest :=
  .ofRoots (fun _ => ⟨.command, none, [], 0, [], 0, fun _ => false, false⟩) (fun _ => rfl)
    (fun _ => rfl) fun _ => List.nodup_nil

/-- Two commands are enqueued in one step, and each of them is executed once. -/
theorem outputsLinear_commandNodes :
  ∃ s, StateMachine.run (apply commandNodes)
      ([.addPlan 0, .addPlan 1, .step 0] ++ Event.nexts 19 .unknown) (initial ∅ .unknown) = some s ∧
    s.log = [.enqueueCommand 0, .enqueueCommand 1, .executeCommand 0, .executeCommand 1] ∧
    s.OutputsLinear
  := by
  have hrun : (StateMachine.run (apply commandNodes)
      ([.addPlan 0, .addPlan 1, .step 0] ++ Event.nexts 19 .unknown)
      (initial ∅ .unknown)).map Exec.log =
        some [.enqueueCommand 0, .enqueueCommand 1, .executeCommand 0, .executeCommand 1] := by
    decide +kernel
  obtain ⟨s, hs, hlog⟩ := Option.map_eq_some_iff.mp hrun
  use s, hs, hlog
  exact (outputsLinear (.of_run (.init ⟨_, _, rfl⟩) hs)).1

end Exec

end Plexil

import Plexil.Exec.LinearOutputs

/-!
# Deletion of finished plans

When finished plans are deleted, nothing may refer to their nodes any more.  Two things can
be left over.  The quiescence loop ends as soon as there is output, so that the children
which the last transition of the root has notified still are candidates; and a node which
waits for a resource may be left in the pending queue.
-/

namespace Plexil

namespace Core

variable {F : Forest} {n m : NodePtr} {c c' : Core}

/-- The condition on a deletion: the roots of the candidates have not finished, and no node
of a deleted plan is to execute. -/
def DeletesAtRest (F : Forest) (c : Core) : CoreEvent → Prop
  | .deleteFinishedPlans =>
    c.queues.stateChange = [] ∧ (∀ n ∈ c.queues.candidate, (c.node (F.root n)).state ≠ .finished) ∧
      ∀ n, F.root n ∈ c.queues.finishedRoot → (c.node n).nextState ≠ .executing
  | _ => True

/-- The invariant: the nodes of all queues are loaded. -/
structure Loaded (F : Forest) (c : Core) : Prop where
  exclusive : c.Exclusive F
  members : ∀ k, ∀ n ∈ c.queues.members k, c.exists F n = true
  finished : ∀ n ∈ c.queues.finishedRoot, (c.node n).state = .finished

/-- Nodes stay loaded until plans are deleted. -/
theorem Step.exists_of_exists {e : CoreEvent} (h : Step F c e c') (he : e ≠ .deleteFinishedPlans)
    (hn : c.exists F n = true) :
  c'.exists F n = true
  := by
  have same (hplan : c'.plan = c.plan) : c'.exists F n = true := by
    unfold Core.exists
    rwa [hplan]
  cases h
  case quiet hquiet => exact same hquiet.plan
  case notify => exact hn
  case notifyResourceAvailable => exact hn
  case addPlan root hroot hadded =>
    unfold Core.exists at hn ⊢
    simp only [decide_eq_true_eq] at hn ⊢
    exact List.mem_append_left _ hn
  case deleteFinishedPlans => contradiction
  case evaluate n rest d hcandidate hfinds =>
    obtain ⟨error, heq⟩ := evaluateCandidate_eq F n rest d c
    exact same (by rw [heq])
  case examine n d hpending hfinds => exact same (plan_resourceCheckEligible F n d c).1
  case acquire n hpending => exact same (plan_acquire F n c).1
  case stay => exact hn
  case transition ht => exact same ht.plan

namespace Loaded

/-- The nodes of the queues are loaded afterwards. -/
theorem of_members (h : c.Loaded F) (hexclusive : c'.Exclusive F)
    (hexists : ∀ n, c.exists F n = true → c'.exists F n = true)
    (hmembers : ∀ k, ∀ n ∈ c'.queues.members k, n ∈ c.queues.members k ∨ c'.exists F n = true)
    (hfinished : ∀ n ∈ c'.queues.finishedRoot, (c'.node n).state = .finished) :
  c'.Loaded F
  := by
  refine ⟨hexclusive, fun k n hn => ?_, hfinished⟩
  rcases hmembers k n hn with hn | hn
  · exact hexists n (h.members k n hn)
  · exact hn

theorem considered {k : Option QueueName} (h : c.Loaded F) (hc : Considered F n k c c')
    {j : QueueName} (hn : n ∈ c.queues.members j) :
  c'.Loaded F
  := by
  apply h.of_members (h.exclusive.considered hc)
  · intro m hm
    rwa [exists_eq_of_plan hc.plan]
  · intro i m hm
    rcases (hc.placed m i).mp hm with ⟨rfl, -⟩ | ⟨-, hm⟩
    · apply Or.inr
      rw [exists_eq_of_plan hc.plan]
      exact h.members j m hn
    · exact .inl hm
  · intro m hm
    rcases (hc.placed m .finishedRoot).mp hm with ⟨-, hk⟩ | ⟨hne, hm⟩
    · rcases hc.place with heq | heq | heq <;> cases heq.symm.trans hk
    · rw [hc.others m hne]
      exact h.finished m hm

theorem transitioned {rest : List NodePtr} (h : c.Loaded F) (hq : c.queues.WellFormed)
    (hstateChange : c.queues.stateChange = n :: rest)
    (ht : Transitioned F n (c.withQueues (Queues.getStateChangeNode n rest)) c') :
  c'.Loaded F
  := by
  have hmem : n ∈ c.queues.members .stateChange := by
    simp [Queues.members, hstateChange]
  have hn : c'.exists F n = true := by
    rw [exists_eq_of_plan ht.plan]
    exact h.members .stateChange n hmem
  have hfinishedRoot {m : NodePtr} (hm : m ∈ c'.queues.finishedRoot) :
      m ∈ c.queues.finishedRoot ∨ m = n ∧ (c.node n).nextState = .finished := by
    apply (ht.mem_finishedRoot hm).imp
    · intro hm
      exact Queues.finishedRoot_getStateChangeNode ▸ hm
    · exact fun h => ⟨h.1, h.2.1⟩
  apply h.of_members (h.exclusive.transitioned hq hstateChange ht)
  · intro m hm
    rw [exists_eq_of_plan ht.plan]
    exact hm
  · intro k m hm
    cases k
    case candidate =>
      rcases ht.mem_candidate hm with rfl | hchild | hm
      · exact .inr hn
      · apply Or.inr
        unfold Core.exists at hn ⊢
        rwa [F.root_of_parent ((F.mem_children n m).mp hchild)]
      · rcases Queues.mem_candidate_getStateChangeNode hm with rfl | hm
        · exact .inr hn
        · exact .inl hm
    case pending =>
      apply Or.inl
      change m ∈ c'.queues.pending at hm
      rw [ht.pending_eq] at hm
      exact (congrArg (m ∈ ·) Queues.pending_getStateChangeNode).mp hm
    case stateChange =>
      apply Or.inl
      have heq : c'.queues.stateChange = rest :=
        ht.stateChange_eq.trans Queues.stateChange_getStateChangeNode
      change m ∈ c'.queues.stateChange at hm
      change m ∈ c.queues.stateChange
      rw [heq] at hm
      rw [hstateChange]
      exact .tail n hm
    case finishedRoot =>
      rcases hfinishedRoot hm with hm | ⟨rfl, -⟩
      · exact .inl hm
      · exact .inr hn
  · intro m hm
    by_cases hmn : m = n
    · subst hmn
      rw [ht.state]
      rcases hfinishedRoot hm with hm | ⟨-, hnext⟩
      · cases hq.unique (k := .stateChange) (j := .finishedRoot) hmem hm
      · exact hnext
    · rw [ht.others m hmn]
      exact h.finished m ((hfinishedRoot hm).resolve_right fun heq => hmn heq.1)

end Loaded

/-- What a notification does to the queues. -/
theorem mem_members_notify {q : Queues} {k : QueueName} (h : m ∈ (q.notify n).members k) :
  m = n ∨ m ∈ q.members k
  := by
  cases k
  case candidate => exact Queues.mem_candidate_notify h
  case pending => exact .inr ((congrArg (m ∈ ·) Queues.pending_notify).mp h)
  case stateChange => exact .inr ((congrArg (m ∈ ·) Queues.stateChange_notify).mp h)
  case finishedRoot => exact .inr ((congrArg (m ∈ ·) Queues.finishedRoot_notify).mp h)

theorem Step.loaded {e : CoreEvent} (hq : c.queues.WellFormed) (h : c.Loaded F)
    (hok : c.DeletesAtRest F e) (hstep : Step F c e c') :
  c'.Loaded F
  := by
  have hexclusive := hstep.exclusive hq h.exclusive
  have hexists := fun (he : e ≠ .deleteFinishedPlans) (n : NodePtr) => hstep.exists_of_exists (n := n) he
  cases hstep
  case quiet hquiet =>
    apply h.of_members hexclusive (hexists (by simp))
    · intro k n hn
      rw [hquiet.queues] at hn
      exact .inl hn
    · intro n hn
      rw [hquiet.queues] at hn
      rw [(hquiet.node n).state]
      exact h.finished n hn
  case notify n hn =>
    apply h.of_members hexclusive (hexists (by simp))
    · intro k m hm
      rcases mem_members_notify hm with rfl | hm
      · exact .inr hn
      · exact .inl hm
    · intro m hm
      exact h.finished m ((congrArg (m ∈ ·) Queues.finishedRoot_notify).mp hm)
  case notifyResourceAvailable n hn =>
    have hmembers (k : QueueName) :
        (c.queues.notifyResourceAvailable n).members k = c.queues.members k := by
      rw [Queues.notifyResourceAvailable_eq]
      cases k <;> rfl
    apply h.of_members hexclusive (hexists (by simp))
    · intro k m hm
      exact .inl (hmembers k ▸ hm)
    · intro m hm
      exact h.finished m ((congrArg (m ∈ ·) (hmembers .finishedRoot)).mp hm)
  case addPlan root hroot hadded =>
    apply h.of_members hexclusive (hexists (by simp))
    · intro k m hm
      rcases mem_members_notify hm with rfl | hm
      · apply Or.inr
        unfold Core.exists
        simp [F.root_of_no_parent hroot]
      · exact .inl hm
    · intro m hm
      exact h.finished m ((congrArg (m ∈ ·) Queues.finishedRoot_notify).mp hm)
  case deleteFinishedPlans =>
    obtain ⟨hstateChange, hcandidate, hnext⟩ := hok
    have kept {n : NodePtr} (hn : c.exists F n = true) (hroot : F.root n ∉ c.queues.finishedRoot) :
        Core.exists F n { c with
          plan := c.plan.filter (· ∉ c.queues.finishedRoot)
          queues := { c.queues with finishedRoot := [] } } = true := by
      unfold Core.exists at hn ⊢
      simpa [hroot] using hn
    refine ⟨hexclusive, fun k n hn => ?_, fun n hn => nomatch hn⟩
    cases k
    case candidate =>
      apply kept (h.members .candidate n hn)
      intro hroot
      exact hcandidate n hn (h.finished _ hroot)
    case pending =>
      apply kept (h.members .pending n hn)
      intro hroot
      exact hnext n hroot (h.exclusive.next n hn)
    case stateChange =>
      change n ∈ c.queues.stateChange at hn
      rw [hstateChange] at hn
      cases hn
    case finishedRoot => cases hn
  case evaluate n rest d hcandidate hfinds =>
    obtain ⟨k, hc, -⟩ := considered_evaluate hq h.exclusive.waiters hcandidate hfinds
    exact h.considered hc (j := .candidate) (by simp [Queues.members, hcandidate])
  case examine n d hpending hfinds =>
    obtain ⟨k, hc, -⟩ := considered_examine hq h.exclusive.waiters hpending hfinds
      (h.exclusive.next n hpending) (h.exclusive.legal n (.inl hpending))
    exact h.considered hc (j := .pending) hpending
  case acquire n hpending =>
    obtain ⟨k, hc⟩ := considered_acquire hq h.exclusive.waiters hpending
      (h.exclusive.next n hpending) (h.exclusive.legal n (.inl hpending))
    exact h.considered hc (j := .pending) hpending
  case stay n rest hstateChange hnext =>
    have hlegal := h.exclusive.legal n (.inr (by simp [hstateChange]))
    exact absurd hnext (legalSuccessor_ne hlegal)
  case transition n rest hstateChange hnext ht => exact h.transitioned hq hstateChange ht

end Core

namespace Exec

/-- The condition on an event: when finished plans are deleted, the roots of the nodes which
are still to be evaluated have not finished, and no node of a deleted plan is to execute. -/
def DeletesAtRest (F : Forest) (s : Exec) : Event → Prop
  | .deleteFinishedPlans =>
    (∀ n ∈ s.queues.candidate, (s.node (F.root n)).state ≠ .finished) ∧
      ∀ n, F.root n ∈ s.queues.finishedRoot → (s.node n).nextState ≠ .executing
  | _ => True

/-- No node of a finished plan is in a queue of nodes, and no output of it in an output
queue. -/
def DeletionSafe (F : Forest) (s : Exec) : Prop :=
  ∀ n, F.root n ∈ s.queues.finishedRoot →
    n ∉ s.queues.candidate ∧ n ∉ s.queues.pending ∧ n ∉ s.queues.stateChange ∧ n ∉ s.inOutput

/-- Every node to which the executive refers is loaded: in the queues of nodes, on the way
through the pending queue, on the waiting lists, and in the output queues. -/
structure RefersLoaded (F : Forest) (s : Exec) : Prop where
  members : ∀ k, ∀ n ∈ s.queues.members k, s.exists F n = true
  walk : ∀ n ∈ s.phase.walk, s.exists F n = true
  waiters : ∀ r, ∀ n ∈ (s.reservable r).waiters, s.exists F n = true
  outputs : ∀ k n, n ∈ s.outputs k ∨ n ∈ s.unhandled k → s.exists F n = true

variable {F : Forest} {s s' : Exec} {e : Event}

theorem Reachable.loaded (h : Reachable F (DeletesAtRest F) s) : s.Loaded F
  := by
  apply h.core_invariant (Core.DeletesAtRest F)
  · intro s e s' hs hok hstep
    unfold Core.DeletesAtRest
    split
    · rename_i hevent
      obtain rfl := coreEvent_eq_deleteFinishedPlans hevent
      cases Move.of_apply hstep
      case deleteFinishedPlans hphase => exact ⟨hs.stateChange_of_idle hphase, hok⟩
    · trivial
  · exact fun _ _ => trivial
  · intro hierarchy w
    refine ⟨exclusive_initial hierarchy w, fun k n hn => ?_, fun n hn => nomatch hn⟩
    cases k <;> cases hn
  · exact fun _ _ _ hq hc hok hstep => hstep.loaded hq hc hok

/-- The nodes with outputs are loaded. -/
theorem Reachable.outputs_loaded (h : Reachable F (DeletesAtRest F) s) :
  ∀ k n, n ∈ s.outputs k ∨ n ∈ s.unhandled k → s.exists F n = true
  := by
  apply h.invariant_of (Q := Reachable F (DeletesAtRest F))
    (P := fun s => ∀ k n, n ∈ s.outputs k ∨ n ∈ s.unhandled k → s.exists F n = true)
    (fun _ hs => hs)
  · rintro s ⟨hierarchy, w, rfl⟩ k n hn
    cases k <;> rcases hn with hn | hn <;> cases hn
  · intro s e s' hs houtputs _ hstep k n hn
    have hmove := Move.of_apply hstep
    obtain ⟨x, hx, hpush⟩ := hmove.outputStep
    obtain ⟨c₁, ns, hcore, -, heq⟩ := hmove.core hs.walk
    have hbefore : (n ∈ s.outputs k ∨ n ∈ s.unhandled k) ∨
        x.bind OutputEvent.enqueued = some (k, n) := by
      rcases hn with hn | hn
      · exact (hx.mem_outputs hn).imp_left .inl
      · exact (hx.mem_unhandled hn).imp_left .inr
    have hexists : s.exists F n = true := by
      rcases hbefore with hn | hk
      · exact houtputs k n hn
      · obtain ⟨hevent, -⟩ := transition_of_enqueued hpush hk
        obtain ⟨-, -, rest, hstateChange⟩ := coreEvent_eq_transition hevent
        apply hs.loaded.members .stateChange
        simp [Queues.members, hstateChange]
    have hkept : s.coreEvent F e ≠ .deleteFinishedPlans := by
      intro hevent
      rcases hbefore with hold | hk
      · -- Plans are deleted outside of `step`, where there are no outputs.
        obtain rfl := coreEvent_eq_deleteFinishedPlans hevent
        cases hmove
        case deleteFinishedPlans hphase =>
          have hnil := hs.inPhase.outputs_of_idle hphase k
          have hnil' := hs.inPhase.unhandled_of_idle hphase k
          rw [hnil, hnil'] at hold
          simp at hold
      · cases hevent.symm.trans (transition_of_enqueued hpush hk).1
    have hafter := hcore.exists_of_exists hkept hexists
    rw [heq]
    exact hafter

/-- When finished plans are deleted only with nothing of them left to do, no node of theirs
is in a queue then, and the executive never refers to a deleted node. -/
theorem deletionSafe_of_atRest (h : Reachable F (DeletesAtRest F) s) :
  s.RefersLoaded F ∧
    ∀ s', s.DeletesAtRest F .deleteFinishedPlans → apply F s .deleteFinishedPlans = some s' →
      s.DeletionSafe F
  := by
  constructor
  · have hloaded := h.loaded
    refine ⟨hloaded.members, fun n hn => ?_, fun r n hn => ?_, h.outputs_loaded⟩
    · exact hloaded.members .pending n (h.walk.pending n hn)
    · exact hloaded.members .pending n (hloaded.exclusive.waiters.pending r n hn)
  · intro s' hrest hstep n hroot
    have hreachable : Reachable F (DeletesAtRest F) s' := .step h hrest hstep
    have hafter := hreachable.loaded
    cases Move.of_apply hstep
    case deleteFinishedPlans hphase =>
      have hgone : s.deleteFinishedPlans.exists F n = false := by
        unfold Core.exists deleteFinishedPlans
        simp [hroot]
      refine ⟨fun hn => ?_, fun hn => ?_, fun hn => ?_, fun hn => ?_⟩
      · cases hgone.symm.trans (hafter.members .candidate n hn)
      · cases hgone.symm.trans (hafter.members .pending n hn)
      · cases hgone.symm.trans (hafter.members .stateChange n hn)
      · obtain ⟨k, hk⟩ := mem_inOutput.mp hn
        rw [h.inPhase.outputs_of_idle hphase k] at hk
        cases hk

/-- A list node which may be skipped, with a child, and a root node with a command. -/
def skippedList : Forest :=
  .ofFamily
    (fun n => ⟨if n = 0 then .nodeList else if n = 1 then .empty else .command,
      if n ∈ [1] then some 0 else none, if n = 0 then [1] else [], 0, [], 0,
      fun c => n = 0 ∧ c = .skip, false⟩)
    [1] Forest.root_notMem_singleton (fun _ => rfl) (fun _ => rfl) rfl (fun _ => List.nodup_nil)

/-- The world in which conditions are true. -/
def trueWorld : World := { World.unknown with condition := fun _ _ => some true }

/-- The command ends the quiescence loop when the list node has finished and its child has just
been notified: the list node is deleted while its child is a candidate. -/
theorem deletionSafe_fails :
  ¬ ∀ s s', Reachable skippedList (fun _ _ => True) s →
    apply skippedList s .deleteFinishedPlans = some s' → s.DeletionSafe skippedList
  := by
  intro h
  have hrun : (StateMachine.run (apply skippedList)
      ([.addPlan 0, .addPlan 2, .step 0] ++ Event.nexts 18 trueWorld) (initial ∅ trueWorld)).map
      (fun s => (s.queues.candidate, s.queues.finishedRoot,
        (apply skippedList s .deleteFinishedPlans).isSome)) = some ([1, 2], [0], true) := by
    decide +kernel
  obtain ⟨s, hs, hstate⟩ := Option.map_eq_some_iff.mp hrun
  obtain ⟨hcandidate, hrest⟩ := Prod.mk.inj hstate
  obtain ⟨hfinished, hdeletes⟩ := Prod.mk.inj hrest
  obtain ⟨s', hs'⟩ := Option.isSome_iff_exists.mp hdeletes
  have hsafe := h s s' (.of_run (.init ⟨_, _, rfl⟩) hs) hs' 1
  rw [hfinished, hcandidate] at hsafe
  exact (hsafe (.head [])).1 (.head [2])

/-- Without the command the loop goes on until the child has been evaluated. -/
theorem deletionSafe_of_atRest_skippedList :
  ∃ s s', StateMachine.checkedRun (apply skippedList) (fun _ e => ¬ e matches .deleteFinishedPlans)
      ([.addPlan 0, .step 0] ++ Event.nexts 19 trueWorld) (initial ∅ trueWorld) = some s ∧
    apply skippedList s .deleteFinishedPlans = some s' ∧ s.queues.finishedRoot = [0] ∧
    s.DeletionSafe skippedList
  := by
  have hrun : (StateMachine.checkedRun (apply skippedList)
      (fun _ e => ¬ e matches .deleteFinishedPlans)
      ([.addPlan 0, .step 0] ++ Event.nexts 19 trueWorld) (initial ∅ trueWorld)).map
      (fun s => (s.queues.candidate, s.queues.finishedRoot, (s.node 0).nextState,
        (s.node 1).nextState, (apply skippedList s .deleteFinishedPlans).isSome)) =
        some ([], [0], .noNodeState, .noNodeState, true) := by
    decide +kernel
  obtain ⟨s, hs, hstate⟩ := Option.map_eq_some_iff.mp hrun
  simp only [Prod.mk.injEq] at hstate
  obtain ⟨hcandidate, hfinished, h0, h1, hdeletes⟩ := hstate
  obtain ⟨s', hs'⟩ := Option.isSome_iff_exists.mp hdeletes
  use s, s', hs, hs', hfinished
  apply (deletionSafe_of_atRest _).2 s' _ hs'
  · apply (StateMachine.Reachable.of_checkedRun (.init ⟨_, _, rfl⟩) hs).mono
    intro s e he
    cases e
    case deleteFinishedPlans => exact absurd rfl he
    all_goals trivial
  · constructor
    · rw [hcandidate]
      exact fun n hn => nomatch hn
    · intro n hn
      -- The plan has the nodes 0 and 1.
      have hplan : n = 0 ∨ n = 1 := by
        rw [hfinished, List.mem_singleton] at hn
        by_cases h : n = 1
        · exact .inr h
        · have hroot : skippedList.root n = n := by
            apply skippedList.root_of_no_parent
            exact if_neg (by simpa using h)
          exact .inl (hroot.symm.trans hn)
      rcases hplan with rfl | rfl
      · simp [h0]
      · simp [h1]

end Exec
end Plexil

import Plexil.Exec.SettledStatus

/-!
# The error branches of the queue operations

`notify` has an error branch for the status QUEUE_DELETE, and by its default case another
one for QUEUE_PENDING_TRY_CHECK.  `addStateChangeNode`, `addFinishedRootNode` and
`resourceCheckEligible` have error branches as well.  In a run only `notify` can fail, and it
fails exactly when a change of a condition notifies a node in one of these two statuses.
-/

namespace Plexil

namespace Core

variable {F : Forest} {n : NodePtr} {d : Option Dest} {c c' : Core}

/-! ### The check of the pending queue -/

/-- The check of the queue status in `resourceCheckEligible` has not failed in between. -/
structure Spares (c c' : Core) : Prop where
  error : c.error ≠ some .pendingInvalidStatus → c'.error ≠ some .pendingInvalidStatus

namespace Spares

variable {c'' : Core}

theorem of_eq (h : c'.error = c.error) : c.Spares c'
  := by
  constructor
  rw [h]
  exact id

/-- Another check may have failed. -/
theorem of_or {x : ExecError} (hx : x ≠ .pendingInvalidStatus)
    (h : c'.error = c.error.or (some x)) :
  c.Spares c'
  := by
  constructor
  rw [h]
  intro hc
  cases herror : c.error with
  | none => simpa using hx
  | some y =>
    rw [herror] at hc
    simpa using hc

theorem trans (h : c.Spares c') (h' : c'.Spares c'') : c.Spares c''
  := ⟨fun hc => h'.error (h.error hc)⟩

end Spares

theorem spares_getDestState : c.Spares (c.getDestState F n d)
  := by
  unfold getDestState
  dsimp only
  split
  · exact .of_eq rfl
  · exact .of_or (x := .invalidState) (by simp) rfl

theorem spares_evaluateCandidate {rest : List NodePtr} : c.Spares (c.evaluateCandidate F n rest d)
  := by
  have taken : c.Spares (c.withQueues (Queues.getCandidateNode n rest)) := .of_eq rfl
  have h := taken.trans (spares_getDestState (F := F) (n := n) (d := d))
  unfold evaluateCandidate
  dsimp only
  split
  · exact h
  · split
    · exact h.trans (.of_eq rfl)
    · exact h.trans (.of_eq rfl)

theorem spares_recheckPending : c.Spares (c.recheckPending F n d).1
  := by
  have h : c.Spares (c.getDestState F n d) := spares_getDestState
  unfold recheckPending
  dsimp only
  split
  · exact h.trans (.of_eq rfl)
  · split
    · exact h.trans (.of_eq rfl)
    · exact h

/-- The nodes of the pending queue have a status which `resourceCheckEligible` expects. -/
theorem spares_examine (hq : c.queues.WellFormed) (hn : n ∈ c.queues.pending) :
  c.Spares (c.resourceCheckEligible F n d).1
  := by
  have hqueue := hq.queue_of_pending hn
  unfold resourceCheckEligible
  cases hstatus : c.queues.status n <;> dsimp only <;> rw [hstatus] at hqueue
  case pendingCheck => exact spares_recheckPending.trans (.of_eq rfl)
  case pendingTryCheck => exact spares_recheckPending
  case pendingTry => exact .of_eq rfl
  case pending => exact .of_eq rfl
  all_goals cases hqueue

theorem spares_acquireMutexes : c.Spares (c.acquireMutexes F n).1
  := by
  unfold acquireMutexes
  dsimp only
  split
  · exact .of_eq rfl
  · split
    · exact .of_or (x := .recursiveAcquisition) (by simp) rfl
    · exact .of_eq rfl

theorem spares_tryResourceAcquisition : c.Spares (c.tryResourceAcquisition F n).1
  := by
  have hvariable (r : ReservableId) (success : Bool) (c : Core) :
      c.Spares (c.acquireVariable n r success).1 := by
    unfold acquireVariable
    split <;> exact .of_eq rfl
  have hback (c : Core) : c.Spares ((F.decl n).mutexes.foldl (backOut n) c) :=
    .of_eq (backOut_foldl_spec n (F.decl n).mutexes c).error
  unfold tryResourceAcquisition
  dsimp only
  split
  · split
    · exact spares_acquireMutexes.trans (hvariable ..)
    · exact (spares_acquireMutexes.trans (hvariable ..)).trans (hback _)
  · split
    · exact spares_acquireMutexes
    · exact spares_acquireMutexes.trans (hback _)

theorem spares_acquire : c.Spares (c.acquire F n)
  := by
  have h : c.Spares (c.tryResourceAcquisition F n).1 := spares_tryResourceAcquisition
  unfold acquire
  dsimp only
  split
  · exact h.trans (.of_eq rfl)
  · exact h.trans (.of_eq rfl)

end Core

namespace Exec

variable (F : Forest) (n : NodePtr) (s : Exec)

/-- The error is the same, or that a transition is not legal. -/
def TransitionError (s s' : Exec) : Prop :=
  s'.error = s.error ∨ s'.error = s.error.or (some .invalidTransition)

theorem TransitionError.spares {s s' : Exec} (h : s.TransitionError s') :
  s.toCore.Spares s'.toCore
  := by
  rcases h with h | h
  · exact .of_eq h
  · exact .of_or (by simp) h

@[simp]
theorem error_activate (cs : List ConditionIndex) : (s.activate F n cs).error = s.error := rfl

@[simp]
theorem error_deactivate (cs : List ConditionIndex) : (s.deactivate F n cs).error = s.error := rfl

@[simp]
theorem error_fail (e : ExecError) : (s.fail e).error = s.error.or (some e) := rfl

@[simp]
theorem error_modifyNode (f : NodeImpl → NodeImpl) : (s.modifyNode n f).error = s.error := rfl

@[simp]
theorem error_deactivateExecutable : (s.deactivateExecutable F n).error = s.error
  := by
  have h : (s.specializedDeactivateExecutable F n).error = s.error := by
    unfold specializedDeactivateExecutable
    cases (F.decl n).nodeType <;> rfl
  exact h

theorem transitionError_fromWaiting : s.TransitionError (s.transitionFromWaiting F n)
  := by
  unfold TransitionError transitionFromWaiting
  dsimp only
  split <;> simp

theorem transitionError_fromExecuting : s.TransitionError (s.transitionFromExecuting F n)
  := by
  unfold TransitionError transitionFromExecuting EmptyNode.transitionFromExecuting
    AssignmentNode.transitionFromExecuting CommandNode.transitionFromExecuting
    UpdateNode.transitionFromExecuting ListNode.transitionFromExecuting
  dsimp only
  cases (F.decl n).nodeType <;> cases (s.node n).nextState <;> simp

theorem transitionError_fromFinishing : s.TransitionError (s.transitionFromFinishing F n)
  := by
  unfold TransitionError transitionFromFinishing CommandNode.transitionFromFinishing
    ListNode.transitionFromFinishing
  dsimp only
  cases (F.decl n).nodeType <;> cases (s.node n).nextState <;> simp

theorem transitionError_fromFailing : s.TransitionError (s.transitionFromFailing F n)
  := by
  unfold TransitionError transitionFromFailing AssignmentNode.transitionFromFailing
    CommandNode.transitionFromFailing UpdateNode.transitionFromFailing
    ListNode.transitionFromFailing
  dsimp only
  cases (F.decl n).nodeType <;> cases (s.node n).nextState <;> simp

theorem transitionError_from : s.TransitionError (s.transitionFrom F n)
  := by
  unfold transitionFrom
  cases (s.node n).state
  case waiting => exact transitionError_fromWaiting F n s
  case executing => exact transitionError_fromExecuting F n s
  case finishing => exact transitionError_fromFinishing F n s
  case failing => exact transitionError_fromFailing F n s
  case inactive => exact .inl rfl
  case finished => exact .inl rfl
  case noNodeState => exact .inr rfl
  case iterationEnded =>
    unfold TransitionError transitionFromIterationEnded
    dsimp only
    split <;> simp

@[simp]
theorem error_releaseAll (rs : List ReservableId) :
  (s.onCore (Core.releaseAll n rs)).error = s.error
  := (Core.releaseAll_spec n rs s.toCore).error

theorem transitionError_to : s.TransitionError (s.transitionTo F n)
  := by
  unfold transitionTo
  cases (s.node n).nextState
  case inactive => exact .inl rfl
  case waiting => exact .inl rfl
  case noNodeState => exact .inr rfl
  case executing =>
    unfold TransitionError transitionToExecuting
    dsimp only
    cases (F.decl n).nodeType <;> exact .inl rfl
  case finishing =>
    unfold TransitionError transitionToFinishing
    cases (F.decl n).nodeType <;> simp
  case failing =>
    unfold TransitionError transitionToFailing
    cases (F.decl n).nodeType <;> first | exact .inl rfl | exact .inr rfl
  case finished =>
    dsimp only
    rw [transitionToFinished_eq]
    exact .inl (error_releaseAll ..)
  case iterationEnded =>
    dsimp only
    rw [transitionToIterationEnded_eq]
    exact .inl (error_releaseAll ..)

theorem error_execute : (s.execute F n).error = s.error
  := by
  unfold execute
  cases (F.decl n).nodeType <;> rfl

theorem spares_transition : s.toCore.Spares (s.transition F n).toCore
  := by
  have moved := (transitionError_from F n s).spares.trans
    (transitionError_to F n (s.transitionFrom F n)).spares
  unfold transition
  dsimp only
  split
  · exact .of_eq rfl
  · apply moved.trans
    apply Core.Spares.of_eq
    split
    · exact error_execute ..
    · rfl

end Exec

/-! ### Runs which may end in an error -/

namespace Exec

/-- The executive goes on until a check fails. -/
def attempt (F : Forest) (s : Exec) (e : Event) : Option Exec :=
  if s.hasFailed then none else s.perform F e

/-- No error branch of an operation on the queues has been reached. -/
def NoQueueError (s : Exec) : Prop :=
  s.queues.error = none ∧ s.error ≠ some .pendingInvalidStatus

instance (s : Exec) : Decidable s.NoQueueError :=
  inferInstanceAs (Decidable (_ ∧ _))

/-- Whether the next small step is a transition or an output, which can change what
conditions depend on. -/
def reports (s : Exec) : Bool :=
  match s.phase with
  | .idle | .evaluating | .gathering _ _ _ | .acquiring _ _ => false
  | .transitioning => !s.queues.stateChange.isEmpty
  | .executingAssignments rest | .retractingAssignments rest => !rest.isEmpty
  | .executingCommands accepted rejected => !accepted.isEmpty || !rejected.isEmpty
  | .abortingCommands => !s.output.commandsToAbort.isEmpty
  | .executingUpdates => !s.output.updatesToExecute.isEmpty

/-- The nodes which are notified because of changes of their conditions. -/
def reported (s : Exec) : Event → List NodePtr
  | .notify n => [n]
  | .change _ ns | .commandHandle _ _ _ ns | .commandAbortAck _ _ _ ns | .updateAck _ _ _ ns => ns
  | .next _ ns => if s.reports then ns else []
  | .addPlan _ | .notifyResourceAvailable _ | .step _ | .deleteFinishedPlans => []

/-- The queues when these nodes are notified: a transition comes before the changes it
causes. -/
def queuesAtReport (F : Forest) (s : Exec) : Event → Queues
  | .next _ _ =>
    match s.phase, s.queues.stateChange with
    | .transitioning, n :: rest => (s.transitionNode F n rest).queues
    | _, _ => s.queues
  | _ => s.queues

/-- The condition on an event: when it is possible, the nodes which it notifies can be
notified. -/
def Heeded (F : Forest) (s : Exec) (e : Event) : Prop :=
  (s.attempt F e).isSome → (s.queuesAtReport F e).Notifiable (s.reported e)

variable {F : Forest} {s s' : Exec} {e : Event}

instance : Decidable (s.Heeded F e) := inferInstanceAs (Decidable (_ → _))

theorem queues_error_of_ok (h : s.hasFailed = false) : s.queues.error = none ∧ s.error = none
  := by
  unfold Core.hasFailed at h
  simpa [and_comm] using h

/-- A state from which a run goes on is reached without an error. -/
theorem apply_of_attempt (h : s.attempt F e = some s') (hok : s'.hasFailed = false) :
  s.apply F e = some s'
  := by
  unfold attempt at h
  unfold apply
  split at h
  · cases h
  · rw [h]
    simp [hok]

theorem perform_of_attempt (h : s.attempt F e = some s') :
  s.hasFailed = false ∧ s.perform F e = some s'
  := by
  unfold attempt at h
  split at h
  · cases h
  · rename_i hok
    exact ⟨Bool.eq_false_iff.mpr hok, h⟩

theorem Reachable.settled {Allowed : Exec → Event → Prop} (h : Reachable F Allowed s) :
  s.toCore.Settled F
  := by
  apply h.core_invariant (P := Core.Settled F) fun _ _ => True
  · exact fun _ _ _ _ _ _ => trivial
  · exact fun _ _ => trivial
  · intro hierarchy w
    exact ⟨fun _ => .unqueued, fun _ hr => nomatch hr⟩
  · exact fun _ _ _ hq hc _ hstep => hstep.settled hq hc

end Exec

/-- An event reaches an error branch of the queues exactly if a node which it notifies
cannot be notified. -/
theorem Move.noQueueError_step_iff {F : Forest} {s s' : Exec} {e : Event} (h : Move F s e s')
    (hq : s.queues.WellFormed) (hw : s.Walk) (hc : s.toCore.Settled F) (hok : s.hasFailed = false) :
  s'.NoQueueError ↔ (s.queuesAtReport F e).Notifiable (s.reported e)
  := by
  obtain ⟨herror, herror'⟩ := Exec.queues_error_of_ok hok
  have hspared : s.error ≠ some .pendingInvalidStatus := by simp [herror']
  -- The event notifies nodes after something has happened to the core.
  have after {c₁ : Core} (ns : List NodePtr) (hs' : s'.toCore = c₁.withQueues (Queues.notifyAll ns))
      (hqueues : c₁.queues.error = none) (hspares : s.toCore.Spares c₁)
      (hat : c₁.queues = s.queuesAtReport F e) (hreported : s.reported e = ns) :
      s'.NoQueueError ↔ (s.queuesAtReport F e).Notifiable (s.reported e) := by
    unfold Exec.NoQueueError
    rw [hs', ← hat, hreported]
    change (c₁.queues.notifyAll ns).error = none ∧ c₁.error ≠ _ ↔ _
    rw [Queues.error_notifyAll]
    simp [hqueues, hspares.error hspared]
  -- The event only changes bookkeeping before it notifies nodes.
  have change (ns : List NodePtr) {c₁ : Core} (hs' : s'.toCore = c₁.withQueues (Queues.notifyAll ns))
      (hqueues : c₁.queues = s.queues) (hcore : c₁.error = s.error)
      (hat : s.queuesAtReport F e = s.queues) (hreported : s.reported e = ns) :
      s'.NoQueueError ↔ (s.queuesAtReport F e).Notifiable (s.reported e) :=
    after ns hs' (by rw [hqueues, herror]) (.of_eq hcore) (by rw [hqueues, hat]) hreported
  -- The event notifies no node because of a change.
  have silent (hqueues : s'.queues.error = none) (hspares : s.toCore.Spares s'.toCore)
      (hreported : s.reported e = []) :
      s'.NoQueueError ↔ (s.queuesAtReport F e).Notifiable (s.reported e) := by
    rw [hreported]
    exact iff_of_true ⟨hqueues, hspares.error hspared⟩ Queues.notifiable_nil
  cases h
  case addPlan root hphase hroot hadded =>
    apply silent _ (.of_eq rfl) rfl
    exact (Core.Step.addPlan hroot hadded).error hc herror (by simp)
  case notify n hexists =>
    exact after [n] rfl herror (.of_eq rfl) rfl rfl
  case notifyResourceAvailable n hexists =>
    apply silent _ (.of_eq rfl) rfl
    exact (Core.Step.notifyResourceAvailable hexists).error hc herror (by simp)
  case change w ns hphase hns => exact change ns rfl rfl rfl rfl rfl
  case commandHandle n handle w ns hphase htype hhandle hns => exact change ns rfl rfl rfl rfl rfl
  case commandAbortAck n ack w ns hphase htype hns => exact change ns rfl rfl rfl rfl rfl
  case updateAck n ack w ns hphase htype hns => exact change ns rfl rfl rfl rfl rfl
  case deleteFinishedPlans hphase => exact silent herror (.of_eq rfl) rfl
  case step startTime hphase hstateChange => exact silent herror (.of_eq rfl) rfl
  case evaluate w ns rest n hphase hcandidate =>
    apply silent _ Core.spares_evaluateCandidate (by simp [Exec.reported, Exec.reports, hphase])
    exact (Core.handled_evaluate rest).error.trans herror
  case resolve w ns hphase hcandidate =>
    have hcore := Exec.toCore_beginGathering F s.queues.pending s
    apply silent _ _ (by simp [Exec.reported, Exec.reports, hphase])
    · rw [hcore]
      exact herror
    · rw [hcore]
      exact .of_eq rfl
  case gather w ns acc rest thisPriority temp hphase hpriority =>
    have hpending : temp ∈ s.queues.pending := hw.pending temp (by simp [hphase, Phase.walk])
    apply silent _ (Core.spares_examine hq hpending)
      (by simp [Exec.reported, Exec.reports, hphase])
    exact Core.handled_examine.error.trans herror
  case gathered w ns acc chain thisPriority hphase hpriority =>
    exact silent herror (.of_eq rfl) (by simp [Exec.reported, Exec.reports, hphase])
  case acquire w ns rest chain n hphase =>
    apply silent _ Core.spares_acquire (by simp [Exec.reported, Exec.reports, hphase])
    exact Core.handled_acquire.error.trans herror
  case acquired w ns chain hphase =>
    have hcore := Exec.toCore_beginGathering F chain s
    apply silent _ _ (by simp [Exec.reported, Exec.reports, hphase])
    · rw [hcore]
      exact herror
    · rw [hcore]
      exact .of_eq rfl
  case transition w ns rest n hphase hstateChange hns =>
    apply @after (s.transitionNode F n rest).toCore ns rfl
    · rcases Exec.transitionNode_cases F n rest s with ⟨-, heq⟩ | ⟨-, ht⟩
      · rw [heq]
        exact (Queues.error_getStateChangeNode rest).mpr herror
      · exact ht.core.error hc herror
    · have taken : s.toCore.Spares
          (s.onCore (Core.withQueues (Queues.getStateChangeNode n rest))).toCore := .of_eq rfl
      exact taken.trans (Exec.spares_transition ..)
    · simp [Exec.queuesAtReport, hphase, hstateChange]
    · simp [Exec.reported, Exec.reports, hphase, hstateChange]
  case continueLoop w ns hphase hstateChange hcontinue =>
    exact silent herror (.of_eq rfl) (by simp [Exec.reported, Exec.reports, hphase, hstateChange])
  case leaveLoop w ns hphase hstateChange hcontinue =>
    exact silent herror (.of_eq rfl) (by simp [Exec.reported, Exec.reports, hphase, hstateChange])
  case executeAssignment w ns rest n hphase hns =>
    exact change ns rfl rfl rfl (by simp [Exec.queuesAtReport, hphase])
      (by simp [Exec.reported, Exec.reports, hphase])
  case assignmentsExecuted w ns hphase =>
    exact silent herror (.of_eq rfl) (by simp [Exec.reported, Exec.reports, hphase])
  case retractAssignment w ns rest n hphase hns =>
    exact change ns rfl rfl rfl (by simp [Exec.queuesAtReport, hphase])
      (by simp [Exec.reported, Exec.reports, hphase])
  case arbitrate w ns hphase harbitrate =>
    have hcore := Exec.toCore_arbitrate harbitrate
    apply silent _ _ (by simp [Exec.reported, Exec.reports, hphase])
    · rw [hcore]
      exact herror
    · rw [hcore]
      exact .of_eq rfl
  case executeCommand w ns accepted rejected n hphase hns =>
    exact change ns rfl rfl rfl (by simp [Exec.queuesAtReport, hphase])
      (by simp [Exec.reported, Exec.reports, hphase])
  case reportFailure w ns rejected n hphase hns =>
    exact change ns rfl rfl rfl (by simp [Exec.queuesAtReport, hphase])
      (by simp [Exec.reported, Exec.reports, hphase])
  case commandsExecuted w ns hphase =>
    exact silent herror (.of_eq rfl) (by simp [Exec.reported, Exec.reports, hphase])
  case invokeAbort w ns rest n hphase houtput hns =>
    exact change ns rfl rfl rfl (by simp [Exec.queuesAtReport, hphase])
      (by simp [Exec.reported, Exec.reports, hphase, houtput])
  case abortsInvoked w ns hphase houtput =>
    exact silent herror (.of_eq rfl) (by simp [Exec.reported, Exec.reports, hphase, houtput])
  case executeUpdate w ns rest n hphase houtput hns =>
    exact change ns rfl rfl rfl (by simp [Exec.queuesAtReport, hphase])
      (by simp [Exec.reported, Exec.reports, hphase, houtput])
  case updatesExecuted w ns hphase houtput =>
    exact silent herror (.of_eq rfl) (by simp [Exec.reported, Exec.reports, hphase, houtput])

namespace Exec

/-- No run of the executive reaches an error branch of the queues exactly if all nodes
which are notified in it can be notified. -/
theorem noQueueError_iff (F : Forest) (hierarchy : ResourceHierarchyMap) (w : World)
    (es : List Event) :
  StateMachine.Always (attempt F) NoQueueError es (initial hierarchy w) ↔
    StateMachine.Meets (attempt F) (Heeded F) es (initial hierarchy w)
  := by
  apply StateMachine.always_iff_meets
    (I := fun s => s.hasFailed = false → Reachable F (fun _ _ => True) s)
  · intro s e s' hs hstep hok
    obtain ⟨hok₀, -⟩ := perform_of_attempt hstep
    exact .step (hs hok₀) trivial (apply_of_attempt hstep hok)
  · intro s e hs hP
    have exact_step (s' : Exec) (hstep : s.attempt F e = some s') :
        s'.NoQueueError ↔ (s.queuesAtReport F e).Notifiable (s.reported e) := by
      obtain ⟨hok, hperform⟩ := perform_of_attempt hstep
      have hreach := hs hok
      exact (Move.of_perform hperform).noQueueError_step_iff hreach.wellFormed hreach.walk
        hreach.settled hok
    constructor
    · intro heeded s' hstep
      apply (exact_step s' hstep).mpr
      apply heeded
      rw [hstep]
      rfl
    · intro hnext hpossible
      obtain ⟨s', hstep⟩ := Option.isSome_iff_exists.mp hpossible
      exact (exact_step s' hstep).mp (hnext s' hstep)
  · exact fun _ => .init ⟨_, _, rfl⟩
  · exact ⟨rfl, by simp [initial]⟩

/-- If a queue operation has failed it was `notify`. -/
def OnlyNotifyFails (q : Queues) : Prop :=
  q.error = none ∨ q.error = some .notifyDeleted ∨ q.error = some .notifyInvalidStatus

theorem onlyNotifyFails_notify {q : Queues} (n : NodePtr) (h : OnlyNotifyFails q) :
  OnlyNotifyFails (q.notify n)
  := by
  unfold OnlyNotifyFails Queues.notify
  rcases h with h | h | h <;> cases q.status n <;> simp [Queues.fail, Queues.setStatus, h]

theorem onlyNotifyFails_notifyAll {q : Queues} (ns : List NodePtr) (h : OnlyNotifyFails q) :
  OnlyNotifyFails (q.notifyAll ns)
  := by
  unfold Queues.notifyAll
  induction ns generalizing q with
  | nil => exact h
  | cons n ns ih => exact ih (onlyNotifyFails_notify n h)

/-- In all runs `addStateChangeNode` and `addFinishedRootNode` find the statuses which they
expect. -/
theorem onlyNotifyFails_of_attempt (F : Forest) (hierarchy : ResourceHierarchyMap) (w : World)
    (es : List Event) :
  StateMachine.Always (attempt F) (fun s => OnlyNotifyFails s.queues) es (initial hierarchy w)
  := by
  apply StateMachine.always_of_invariant
    (I := fun s => s.hasFailed = false → Reachable F (fun _ _ => True) s)
  · intro s e s' hs hstep
    obtain ⟨hok, hperform⟩ := perform_of_attempt hstep
    have hreach := hs hok
    refine ⟨fun hok' => .step hreach trivial (apply_of_attempt hstep hok'), ?_⟩
    obtain ⟨c₁, ns, hcore, -, heq⟩ := (Move.of_perform hperform).core hreach.walk
    have herror := (queues_error_of_ok hok).1
    rw [heq]
    apply onlyNotifyFails_notifyAll
    by_cases hnotify : ∃ n, s.coreEvent F e = .notify n
    · obtain ⟨n, hevent⟩ := hnotify
      rw [hevent] at hcore
      cases hcore
      exact onlyNotifyFails_notify n (.inl herror)
    · exact .inl (hcore.error hreach.settled herror (not_exists.mp hnotify))
  · exact fun _ => .init ⟨_, _, rfl⟩
  · exact .inl rfl

/-- Three root nodes: two which share a mutex, the second of them with a start condition, and
one without a mutex.  The end conditions keep the first and the last one in EXECUTING. -/
def threeRoots : Forest :=
  .ofRoots
    (fun n => ⟨.empty, none, [], 0, if n = 2 then [] else [0], 0,
      fun c => c = .end ∧ n ≠ 1 ∨ c = .start ∧ n = 1, false⟩)
    (fun _ => rfl) (fun _ => rfl) fun n => by split <;> simp

/-- The world in which all start conditions are true and all end conditions have the value
`done`. -/
def doneWorld (done : Bool) : World :=
  { World.unknown with condition := fun _ c => some (c = .start || done) }

/-- The second node waits for the mutex, and its start condition depends on the states of the
other two nodes, which end in the same step.  The first one releases the mutex, and the two
changes of state notify the second node twice. -/
theorem noQueueError_fails :
  ¬ ∀ F hierarchy w es,
    StateMachine.Always (attempt F) NoQueueError es (initial hierarchy w)
  := by
  intro h
  have hrun : (StateMachine.run (attempt threeRoots)
      ([.addPlan 0, .addPlan 1, .addPlan 2, .step 0] ++ Event.nexts 32 (doneWorld false) ++
        [.change (doneWorld true) [0, 2], .step 0] ++ Event.nexts 6 (doneWorld true) ++
        [.next (doneWorld true) [1], .next (doneWorld true) [1]])
      (initial ∅ (doneWorld false))).map (fun s => s.queues.error) =
        some (some .notifyInvalidStatus) := by
    decide +kernel
  obtain ⟨s, hs, herror⟩ := Option.map_eq_some_iff.mp hrun
  have hnone := ((h _ _ _ _).of_run hs).1
  rw [herror] at hnone
  cases hnone

/-- A command as the root of a plan, with an exit condition. -/
def commandRoot : Forest :=
  .ofRoots (fun _ => ⟨.command, none, [], 0, [], 0, fun c => c = .exit, false⟩)
    (fun _ => rfl) (fun _ => rfl) fun _ => List.nodup_nil

/-- The exit condition of a command is activated in WAITING and again in EXECUTING, and
deactivated once.  It is still active when the root is to be deleted, and its change notifies
the root. -/
theorem exit_active_of_finished :
  ∃ es s, StateMachine.run (attempt commandRoot) es (initial ∅ (doneWorld false)) = some s ∧
    s.queues.status 0 = .delete ∧ (s.node 0).activations .exit = 1 ∧
    ¬ s.Heeded commandRoot (.notify 0)
  := by
  have hrun : (StateMachine.run (attempt commandRoot)
      ([.addPlan 0, .step 0] ++ Event.nexts 14 (doneWorld false) ++
        [.commandHandle 0 .success (doneWorld false) [0], .step 0] ++
        Event.nexts 17 (doneWorld false))
      (initial ∅ (doneWorld false))).map
      (fun s => (s.queues.status 0, (s.node 0).activations .exit,
        decide (s.Heeded commandRoot (.notify 0)))) = some (.delete, 1, false) := by
    decide +kernel
  obtain ⟨s, hs, hstate⟩ := Option.map_eq_some_iff.mp hrun
  obtain ⟨hstatus, hrest⟩ := Prod.mk.inj hstate
  obtain ⟨hactive, hheeded⟩ := Prod.mk.inj hrest
  exact ⟨_, s, hs, hstatus, hactive, of_decide_eq_false hheeded⟩

end Exec
end Plexil

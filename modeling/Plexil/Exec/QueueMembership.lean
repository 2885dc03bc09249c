import Plexil.Exec.CoreSpec

/-!
# Queue membership

The queue status of a node is to say which queue the node is in.  `resourceCheckEligible`
breaks this: a node with the status QUEUE_PENDING_CHECK which is no longer to execute leaves
the pending queue, and then gets the status QUEUE_PENDING.  As long as this does not happen
the status is exact.
-/

namespace Plexil

/-- The status of each node of a loaded plan says which queue it is in, if any. -/
def Core.QueuesExact (F : Forest) (c : Core) : Prop :=
  ∀ n, c.exists F n = true → ∀ k, n ∈ c.queues.members k ↔ (c.queues.status n).queue = some k

/-- The node which `resourceCheckEligible` is to examine. -/
def Exec.examined (F : Forest) (s : Exec) : Event → Option NodePtr
  | .next _ _ =>
    match s.phase with
    | .gathering thisPriority _ (n :: _) => if F.priority n = thisPriority then some n else none
    | _ => none
  | _ => none

/-- A node with the status QUEUE_PENDING_CHECK which is examined is still to execute. -/
def Exec.RecheckKept (F : Forest) (s : Exec) (e : Event) : Prop :=
  ∀ n ∈ s.examined F e, s.queues.status n = .pendingCheck → Core.executes (s.dest F n)

instance (F : Forest) (s : Exec) (e : Event) : Decidable (s.RecheckKept F e) :=
  inferInstanceAs (Decidable (∀ n ∈ s.examined F e, _ → _))

namespace Queues

variable {F : Forest} {plan added : List NodePtr} {n m : NodePtr} {rest : List NodePtr}
  {q q' : Queues}

/-- What is exact beyond `WellFormed`.  A deleted root keeps the status QUEUE_DELETE, and
only nodes of plans which have been added have a status. -/
structure Exact (F : Forest) (plan added : List NodePtr) (q : Queues) : Prop where
  pending : ∀ n, (q.status n).queue = some .pending → n ∈ q.pending
  root : ∀ n, q.status n = .delete → (F.decl n).parent = none
  deleted : ∀ n, q.status n = .delete → n ∈ q.finishedRoot ∨ n ∉ plan
  touched : ∀ n, q.status n ≠ .none → F.root n ∈ added

namespace Exact

/-- An operation which concerns the node `n`. -/
theorem update (h : q.Exact F plan added) (hstatus : ∀ m, m ≠ n → q'.status m = q.status m)
    (hpending : ∀ m, m ≠ n → m ∈ q.pending → m ∈ q'.pending)
    (hfinished : ∀ m ∈ q.finishedRoot, m ∈ q'.finishedRoot)
    (pending : (q'.status n).queue = some .pending → n ∈ q'.pending)
    (deleted : q'.status n = .delete →
      (F.decl n).parent = none ∧ (n ∈ q'.finishedRoot ∨ n ∉ plan))
    (touched : q'.status n ≠ .none → F.root n ∈ added) :
  q'.Exact F plan added
  := by
  constructor
  case pending =>
    intro m hm
    by_cases hmn : m = n
    · subst hmn
      exact pending hm
    · rw [hstatus m hmn] at hm
      exact hpending m hmn (h.pending m hm)
  case root =>
    intro m hm
    by_cases hmn : m = n
    · subst hmn
      exact (deleted hm).1
    · rw [hstatus m hmn] at hm
      exact h.root m hm
  case deleted =>
    intro m hm
    by_cases hmn : m = n
    · subst hmn
      exact (deleted hm).2
    · rw [hstatus m hmn] at hm
      exact (h.deleted m hm).imp_left (hfinished m)
  case touched =>
    intro m hm
    by_cases hmn : m = n
    · subst hmn
      exact touched hm
    · rw [hstatus m hmn] at hm
      exact h.touched m hm

theorem notify (h : q.Exact F plan added) (hn : F.root n ∈ added) :
  (q.notify n).Exact F plan added
  := by
  apply h.update (n := n)
  · intro m hm
    rw [status_notify, if_neg hm]
  · intro m _ hm
    rwa [pending_notify]
  · intro m hm
    rwa [finishedRoot_notify]
  · rw [status_notify, if_pos rfl, pending_notify]
    intro hx
    apply h.pending
    cases hq : q.status n <;> rw [hq] at hx <;> first | rfl | cases hx
  · rw [status_notify, if_pos rfl, finishedRoot_notify]
    intro hx
    have hdelete : q.status n = .delete := by
      cases hq : q.status n <;> rw [hq] at hx <;> first | rfl | cases hx
    exact ⟨h.root n hdelete, h.deleted n hdelete⟩
  · exact fun _ => hn

theorem notifyAll {ns : List NodePtr} (h : q.Exact F plan added)
    (hns : ∀ n ∈ ns, F.root n ∈ added) :
  (q.notifyAll ns).Exact F plan added
  := by
  unfold Queues.notifyAll
  induction ns generalizing q with
  | nil => exact h
  | cons n ns ih =>
    exact ih (h.notify (hns n (.head ns))) fun m hm => hns m (.tail n hm)

theorem notifyResourceAvailable (h : q.Exact F plan added) (n : NodePtr) :
  (q.notifyResourceAvailable n).Exact F plan added
  := by
  have hself : (q.notifyResourceAvailable n).status n = (q.status n).resourceAvailable := by
    rw [status_notifyResourceAvailable, if_pos rfl]
  apply h.update (n := n)
  · intro m hm
    rw [status_notifyResourceAvailable, if_neg hm]
  · intro m _ hm
    rwa [pending_notifyResourceAvailable]
  · intro m hm
    rwa [finishedRoot_notifyResourceAvailable]
  · rw [hself, QueueStatus.queue_resourceAvailable, pending_notifyResourceAvailable]
    exact h.pending n
  · rw [hself, finishedRoot_notifyResourceAvailable]
    intro hx
    have hdelete : q.status n = .delete := by
      cases hq : q.status n <;> rw [hq] at hx <;> first | rfl | cases hx
    exact ⟨h.root n hdelete, h.deleted n hdelete⟩
  · rw [hself]
    intro hx
    apply h.touched
    intro hq
    rw [hq] at hx
    exact hx rfl

theorem notifyAllResourceAvailable (h : q.Exact F plan added) (ns : List NodePtr) :
  (q.notifyAllResourceAvailable ns).Exact F plan added
  := by
  unfold Queues.notifyAllResourceAvailable
  induction ns generalizing q with
  | nil => exact h
  | cons n ns ih => exact ih (h.notifyResourceAvailable n)

/-- A node gets a status which is not one of the pending queue. -/
theorem setStatus {x : QueueStatus} (h : q.Exact F plan added)
    (hstatus : ∀ m, q'.status m = if m = n then x else q.status m)
    (hpending : ∀ m, m ≠ n → m ∈ q.pending → m ∈ q'.pending)
    (hfinished : q'.finishedRoot = q.finishedRoot)
    (hx : x.queue = some .pending → n ∈ q'.pending) (hdelete : x ≠ .delete)
    (touched : x ≠ .none → F.root n ∈ added) :
  q'.Exact F plan added
  := by
  have hself : q'.status n = x := by
    rw [hstatus, if_pos rfl]
  apply h.update (n := n)
  · intro m hm
    rw [hstatus, if_neg hm]
  · exact hpending
  · rw [hfinished]
    exact fun _ hm => hm
  · rwa [hself]
  · rw [hself]
    exact fun hx => absurd hx hdelete
  · rwa [hself]

/-- A node loses its status. -/
theorem setNone (h : q.Exact F plan added)
    (hstatus : ∀ m, q'.status m = if m = n then .none else q.status m)
    (hpending : ∀ m, m ≠ n → m ∈ q.pending → m ∈ q'.pending)
    (hfinished : q'.finishedRoot = q.finishedRoot) :
  q'.Exact F plan added
  := by
  apply h.setStatus hstatus hpending hfinished <;> simp

theorem getCandidateNode (h : q.Exact F plan added) (n : NodePtr) (rest : List NodePtr) :
  (q.getCandidateNode n rest).Exact F plan added
  := by
  apply h.setNone (n := n)
  · exact fun m => status_setStatus
  · exact fun _ _ hm => hm
  · rfl

theorem getStateChangeNode (h : q.Exact F plan added) (hn : F.root n ∈ added)
    (rest : List NodePtr) :
  (q.getStateChangeNode n rest).Exact F plan added
  := by
  have taken : Exact F plan added { q.setStatus n .none with stateChange := rest } := by
    apply h.setNone (n := n)
    · exact fun m => status_setStatus
    · exact fun _ _ hm => hm
    · rfl
  unfold Queues.getStateChangeNode
  dsimp only
  split
  · exact taken.notify hn
  · exact taken

theorem addStateChangeNode (h : q.Exact F plan added) (hn : F.root n ∈ added) :
  (q.addStateChangeNode n).Exact F plan added
  := by
  unfold Queues.addStateChangeNode
  split
  · apply h.setStatus (n := n) (x := .transition)
    · exact fun m => status_setStatus
    · exact fun _ _ hm => hm
    · rfl
    · exact fun hx => nomatch hx
    · simp
    · exact fun _ => hn
  · exact ⟨h.pending, h.root, h.deleted, h.touched⟩

theorem addPendingNode (h : q.Exact F plan added) (hn : F.root n ∈ added)
    (priority : NodePtr → Int) :
  (q.addPendingNode priority n).Exact F plan added
  := by
  apply h.setStatus (n := n) (x := .pendingTry)
  · exact fun m => status_setStatus
  · exact fun m _ hm => PriorityQueue.mem_insert.mpr (.inr hm)
  · rfl
  · exact fun _ => PriorityQueue.mem_insert.mpr (.inl rfl)
  · simp
  · exact fun _ => hn

theorem removePending (h : q.Exact F plan added) (n : NodePtr) :
  (q.removePending n).Exact F plan added
  := by
  apply h.setNone (n := n)
  · exact fun m => status_setStatus
  · exact fun m hm hp => (List.mem_erase_of_ne hm).mpr hp
  · rfl

theorem leavePending (h : q.Exact F plan added) (hn : F.root n ∈ added) (gone : Prop)
    [Decidable gone] :
  ((if gone then id else Queues.addStateChangeNode n) (q.removePending n)).Exact F plan added
  := by
  have removed := h.removePending n
  split
  · exact removed
  · exact removed.addStateChangeNode hn

/-- A node of the pending queue stays there with the status QUEUE_PENDING. -/
theorem setPending (h : q.Exact F plan added) (hn : n ∈ q.pending) (hroot : F.root n ∈ added) :
  (q.setStatus n .pending).Exact F plan added
  := by
  apply h.setStatus (n := n) (x := .pending)
  · exact fun m => status_setStatus
  · exact fun _ _ hm => hm
  · rfl
  · exact fun _ => hn
  · simp
  · exact fun _ => hroot

theorem addFinishedRootNode (h : q.Exact F plan added) (hparent : (F.decl n).parent = none)
    (hn : F.root n ∈ added) :
  (q.addFinishedRootNode n).Exact F plan added
  := by
  unfold Queues.addFinishedRootNode
  split
  · apply h.update (n := n)
    · exact fun m hm => setStatus_of_ne hm
    · exact fun _ _ hm => hm
    · exact fun m hm => List.mem_append_left _ hm
    · intro hx
      dsimp only at hx
      rw [setStatus_self] at hx
      cases hx
    · exact fun _ => ⟨hparent, .inl (List.mem_append_right _ (List.mem_singleton_self n))⟩
    · exact fun _ => hn
  · apply h.update (n := n)
    · exact fun m hm => setStatus_of_ne hm
    · exact fun _ _ hm => hm
    · exact fun m hm => List.mem_append_left _ hm
    · intro hx
      dsimp only at hx
      rw [setStatus_self] at hx
      cases hx
    · exact fun _ => ⟨hparent, .inl (List.mem_append_right _ (List.mem_singleton_self n))⟩
    · exact fun _ => hn
  · exact h
  · exact ⟨h.pending, h.root, h.deleted, h.touched⟩

end Exact
end Queues

namespace Core

variable {F : Forest} {n : NodePtr} {d : Option Dest} {c c' : Core}

/-- The queues are exact, and the loaded plans have been added. -/
structure Exact (F : Forest) (c : Core) : Prop where
  queues : c.queues.Exact F c.plan c.added
  added : ∀ r ∈ c.plan, r ∈ c.added

/-- The condition on a step of the core. -/
def RecheckKept (c : Core) : CoreEvent → Prop
  | .examine n d => c.queues.status n = .pendingCheck → executes d
  | _ => True

namespace Exact

/-- A node which is in a queue belongs to a plan which has been added. -/
theorem root_added {k : QueueName} (h : c.Exact F) (hq : c.queues.WellFormed)
    (hn : n ∈ c.queues.members k) :
  F.root n ∈ c.added
  := by
  apply h.queues.touched
  intro hnone
  exact hq.notMem_of_none hnone k hn

theorem root_added_of_exists (h : c.Exact F) (hn : c.exists F n = true) :
  F.root n ∈ c.added
  := h.added _ (of_decide_eq_true hn)

theorem examine (h : c.Exact F) (hn : n ∈ c.queues.pending) (hroot : F.root n ∈ c.added)
    (hkept : c.queues.status n = .pendingCheck → executes d) :
  (c.resourceCheckEligible F n d).1.queues.Exact F c.plan c.added
  := by
  obtain ⟨error, hrecheck⟩ := recheckPending_eq F n d c
  unfold resourceCheckEligible
  split
  · rename_i hstatus
    rcases hrecheck with ⟨-, heq⟩ | ⟨hd, -⟩
    · rw [heq]
      exact h.queues.setPending hn hroot
    · exact absurd (hkept hstatus) hd
  · rcases hrecheck with ⟨-, heq⟩ | ⟨-, heq⟩
    · rw [heq]
      exact h.queues
    · rw [heq]
      exact h.queues.leavePending hroot (d = none)
  · exact h.queues
  · exact h.queues
  · exact h.queues

theorem acquire (h : c.Exact F) (hn : n ∈ c.queues.pending) (hroot : F.root n ∈ c.added) :
  (c.acquire F n).queues.Exact F c.plan c.added
  := by
  rcases acquire_eq F n c with ⟨c₁, h₁, heq⟩ | ⟨c₁, h₁, heq⟩
  · rw [heq]
    change ((c₁.queues.removePending n).addStateChangeNode n).Exact F c.plan c.added
    rw [h₁.queues]
    exact (h.queues.removePending n).addStateChangeNode hroot
  · rw [heq]
    obtain ⟨told, htold⟩ := h₁.queues
    change (c₁.queues.setStatus n .pending).Exact F c.plan c.added
    rw [htold]
    apply (h.queues.notifyAllResourceAvailable told).setPending _ hroot
    rw [Queues.notifyAllResourceAvailable_eq]
    exact hn

theorem transitioned {rest : List NodePtr} (h : c.Exact F) (hroot : F.root n ∈ c.added)
    (ht : Transitioned F n (c.withQueues (Queues.getStateChangeNode n rest)) c') :
  c'.queues.Exact F c.plan c.added
  := by
  obtain ⟨told, heq, -⟩ := ht.queues_eq
  have released :=
    (h.queues.getStateChangeNode hroot rest).notifyAllResourceAvailable told
  rw [heq]
  apply Queues.Exact.notifyAll
  · split
    · rename_i hfinished
      exact released.addFinishedRootNode hfinished.2 hroot
    · exact released.notify hroot
  · intro m hm
    have hchild := mem_children_of_mem_notifiedChildren hm
    rw [F.root_of_parent ((F.mem_children n m).mp hchild)]
    exact hroot

end Exact

theorem Step.exact {e : CoreEvent} (hq : c.queues.WellFormed) (h : c.Exact F)
    (hkept : c.RecheckKept e) (hstep : Step F c e c') :
  c'.Exact F
  := by
  have keep {c' : Core} (hplan : c'.plan = c.plan) (hadded : c'.added = c.added)
      (hqueues : c'.queues.Exact F c.plan c.added) : c'.Exact F := by
    constructor
    · rw [hplan, hadded]
      exact hqueues
    · rw [hplan, hadded]
      exact h.added
  cases hstep
  case quiet hquiet =>
    apply keep hquiet.plan hquiet.added
    rw [hquiet.queues]
    exact h.queues
  case notify n hexists =>
    exact keep rfl rfl (h.queues.notify (h.root_added_of_exists hexists))
  case notifyResourceAvailable n hexists =>
    exact keep rfl rfl (h.queues.notifyResourceAvailable n)
  case addPlan root hroot hadded =>
    -- The new root has no status yet, so that it is notified as a new candidate.
    have hnone : c.queues.status root = .none := by
      by_contra hne
      have := h.queues.touched root hne
      rw [F.root_of_no_parent hroot] at this
      exact hadded this
    have hstatus (n : NodePtr) : (c.queues.notify root).status n = .delete →
        c.queues.status n = .delete ∧ n ≠ root := by
      rw [Queues.status_notify]
      split
      · rename_i hn
        rw [hnone]
        intro hx
        cases hx
      · rename_i hn
        exact fun hx => ⟨hx, hn⟩
    have notified : (c.queues.notify root).Exact F c.plan (c.added ++ [root]) := by
      have larger : c.queues.Exact F c.plan (c.added ++ [root]) :=
        ⟨h.queues.pending, h.queues.root, h.queues.deleted,
          fun n hn => List.mem_append_left _ (h.queues.touched n hn)⟩
      apply larger.notify
      rw [F.root_of_no_parent hroot]
      exact List.mem_append_right _ (List.mem_singleton_self root)
    constructor
    · refine ⟨notified.pending, notified.root, ?_, notified.touched⟩
      intro n hn
      apply (notified.deleted n hn).imp_right
      intro hplan hn'
      rcases List.mem_append.mp hn' with hn' | hn'
      · exact hplan hn'
      · exact (hstatus n hn).2 (List.mem_singleton.mp hn')
    · intro r hr
      rcases List.mem_append.mp hr with hr | hr
      · exact List.mem_append_left _ (h.added r hr)
      · exact List.mem_append_right _ hr
  case deleteFinishedPlans =>
    constructor
    · constructor
      case pending => exact h.queues.pending
      case root => exact h.queues.root
      case deleted =>
        intro n hn
        apply Or.inr
        rcases h.queues.deleted n hn with hfinished | hplan
        · simp [hfinished]
        · simp [hplan]
      case touched => exact h.queues.touched
    · intro r hr
      exact h.added r (List.mem_filter.mp hr).1
  case evaluate n rest d hcandidate hfinds =>
    have hroot := h.root_added hq (k := .candidate) (n := n) (by simp [Queues.members, hcandidate])
    obtain ⟨error, heq⟩ := evaluateCandidate_eq F n rest d c
    have taken := h.queues.getCandidateNode n rest
    rw [heq]
    refine ⟨?_, h.added⟩
    cases d with
    | none => exact taken
    | some d =>
      dsimp only
      split
      · exact taken.addPendingNode hroot F.priority
      · exact taken.addStateChangeNode hroot
  case examine n d hpending hfinds =>
    have hroot := h.root_added hq (k := .pending) hpending
    have hplan := plan_resourceCheckEligible F n d c
    exact keep hplan.1 hplan.2 (h.examine hpending hroot hkept)
  case acquire n hpending =>
    have hroot := h.root_added hq (k := .pending) hpending
    have hplan := plan_acquire F n c
    exact keep hplan.1 hplan.2 (h.acquire hpending hroot)
  case stay n rest hstateChange hnext =>
    have hroot := h.root_added hq (k := .stateChange) (n := n) (by simp [Queues.members, hstateChange])
    exact keep rfl rfl (h.queues.getStateChangeNode hroot rest)
  case transition n rest hstateChange hnext ht =>
    have hroot := h.root_added hq (k := .stateChange) (n := n) (by simp [Queues.members, hstateChange])
    exact keep ht.plan ht.added (h.transitioned hroot ht)

end Core

namespace Exec

variable {F : Forest} {s : Exec} {e : Event}

theorem examined_of_coreEvent {n : NodePtr} {d : Option Dest}
    (h : s.coreEvent F e = .examine n d) :
  s.examined F e = some n ∧ d = s.dest F n
  := by
  obtain ⟨⟨w, ns, rfl⟩, ⟨acc, rest, hphase⟩, hd⟩ := coreEvent_eq_examine h
  unfold examined
  rw [hphase]
  exact ⟨if_pos rfl, hd⟩

theorem coreEvent_of_examined {n : NodePtr} (h : s.examined F e = some n) :
  s.coreEvent F e = .examine n (s.dest F n)
  := by
  unfold examined at h
  split at h
  · split at h
    · rename_i hphase
      obtain ⟨hpriority, heq⟩ := Option.ite_none_right_eq_some.mp h
      cases heq
      rw [coreEvent_next, hphase]
      exact if_pos hpriority
    · cases h
  · cases h

theorem Reachable.exact (h : Reachable F (RecheckKept F) s) : s.Exact F
  := by
  apply h.core_invariant Core.RecheckKept
  · intro s e _ _ hkept _
    unfold Core.RecheckKept
    split
    · rename_i n d hevent
      obtain ⟨hexamined, rfl⟩ := examined_of_coreEvent hevent
      exact hkept n hexamined
    · trivial
  · exact fun _ _ => trivial
  · intro hierarchy w
    constructor
    · constructor
      · exact fun _ h => nomatch h
      · exact fun _ h => nomatch h
      · exact fun _ h => nomatch h
      · exact fun _ h => absurd rfl h
    · exact fun _ h => nomatch h
  · exact fun _ _ _ hq hc hok hstep => hstep.exact hq hc hok

/-- In every run in which the nodes with the status QUEUE_PENDING_CHECK are still to execute
when they are examined, the status of a node says which queue it is in. -/
theorem queuesExact_of_recheckKept (h : Reachable F (RecheckKept F) s) : s.QueuesExact F
  := by
  have hq := h.wellFormed
  have hexact := h.exact
  intro n hn k
  constructor
  · intro hmem
    rcases hq.queue_of_mem n k hmem with hk | ⟨rfl, hpending⟩
    · exact hk
    · exact absurd hmem (hq.disjoint n (hexact.queues.pending n hpending))
  · intro hk
    cases k
    case candidate => exact hq.mem_of_queue n _ hk (.inl rfl)
    case pending => exact hexact.queues.pending n hk
    case stateChange => exact hq.mem_of_queue n _ hk (.inr rfl)
    case finishedRoot =>
      have hdelete := (QueueStatus.queue_eq_finishedRoot _).mp hk
      apply (hexact.queues.deleted n hdelete).resolve_right
      intro hplan
      apply hplan
      have hroot := of_decide_eq_true hn
      rwa [F.root_of_no_parent (hexact.queues.root n hdelete)] at hroot

/-- Two root nodes with the same mutex, the second with a start condition.  The end condition
keeps the first one in EXECUTING. -/
def sharedMutex : Forest :=
  .ofRoots
    (fun n => ⟨.empty, none, [], 0, [0], 0, fun c => c = .end ∨ (n = 1 ∧ c = .start), false⟩)
    (fun _ => rfl) (fun _ => rfl) fun _ => List.nodup_singleton 0

/-- The world in which the start condition of the second node has the value `start`. -/
def startWorld (start : Bool) : World :=
  { World.unknown with condition := fun _ c => if c = .start then some start else none }

/-- The start condition becomes false while the second node waits for the mutex: after
`step` the node has the status QUEUE_PENDING and is in no queue. -/
theorem queuesExact_fails :
  ¬ ∀ s, Reachable sharedMutex (fun _ _ => True) s → s.QueuesExact sharedMutex
  := by
  intro h
  have hrun : (StateMachine.run (apply sharedMutex)
      ([.addPlan 0, .addPlan 1, .step 0] ++ Event.nexts 27 (startWorld true) ++
        [.change (startWorld false) [1], .step 0] ++ Event.nexts 5 (startWorld false))
      (initial ∅ (startWorld true))).map
      (fun s => (s.queues.status 1, s.queues.pending, s.exists sharedMutex 1)) =
        some (.pending, [], true) := by
    decide +kernel
  obtain ⟨s, hs, hstate⟩ := Option.map_eq_some_iff.mp hrun
  obtain ⟨hstatus, hqueues⟩ := Prod.mk.inj hstate
  obtain ⟨hpending, hexists⟩ := Prod.mk.inj hqueues
  have hmem := (h s (StateMachine.Reachable.of_run (.init ⟨_, _, rfl⟩) hs) 1 hexists .pending).mpr
    (by rw [hstatus]; rfl)
  rw [Queues.members, hpending] at hmem
  cases hmem

/-- A start condition which stays true is examined again without harm. -/
theorem queuesExact_of_recheckKept_sharedMutex :
  ∃ s, StateMachine.checkedRun (apply sharedMutex) (RecheckKept sharedMutex)
      ([.addPlan 0, .addPlan 1, .step 0] ++ Event.nexts 27 (startWorld true) ++
        [.change (startWorld true) [1], .step 0] ++ Event.nexts 5 (startWorld true))
      (initial ∅ (startWorld true)) = some s ∧
    s.queues.pending = [1] ∧ s.QueuesExact sharedMutex
  := by
  have hrun : (StateMachine.checkedRun (apply sharedMutex) (RecheckKept sharedMutex)
      ([.addPlan 0, .addPlan 1, .step 0] ++ Event.nexts 27 (startWorld true) ++
        [.change (startWorld true) [1], .step 0] ++ Event.nexts 5 (startWorld true))
      (initial ∅ (startWorld true))).map (fun s => s.queues.pending) = some [1] := by
    decide +kernel
  obtain ⟨s, hs, hpending⟩ := Option.map_eq_some_iff.mp hrun
  use s, hs, hpending
  exact queuesExact_of_recheckKept (.of_checkedRun (.init ⟨_, _, rfl⟩) hs)

end Exec
end Plexil

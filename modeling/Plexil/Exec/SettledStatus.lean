import Plexil.Exec.CoreStep

/-!
# The status of nodes in all runs

`Core.Settled` relates the queue status of a node to its state, as far as it holds in all
runs.  It follows that a step of the core reaches no error branch of the queues: the
executive notifies only nodes for which `notify` has a case, and it calls `addStateChangeNode`
and `addFinishedRootNode` with the statuses which they expect.
-/

namespace Plexil

/-! ### Notifications without an error -/

namespace Queues

variable {F : Forest} {n m : NodePtr} {ns : List NodePtr} {q : Queues}

/-- The nodes can be notified one after the other: none is a finished root or has the
status QUEUE_PENDING_TRY_CHECK, and none is to get this status and be notified again. -/
def Notifiable (ns : List NodePtr) (q : Queues) : Prop :=
  ∀ n ∈ ns, q.status n ≠ .delete ∧ q.status n ≠ .pendingTryCheck ∧
    (q.status n = .pendingTry → ns.count n = 1)

instance (ns : List NodePtr) (q : Queues) : Decidable (q.Notifiable ns) :=
  inferInstanceAs (Decidable (∀ n ∈ ns, _))

theorem notifiable_nil : q.Notifiable []
  := by
  intro n hn
  cases hn

theorem notifiable_singleton :
  q.Notifiable [n] ↔ q.status n ≠ .delete ∧ q.status n ≠ .pendingTryCheck
  := by
  unfold Notifiable
  simp

/-- Nodes which are neither in the pending queue nor finished roots can be notified any
number of times. -/
theorem notifiable_of_queue
    (h : ∀ n ∈ ns, (q.status n).queue ≠ some .pending ∧ q.status n ≠ .delete) :
  q.Notifiable ns
  := by
  intro n hn
  obtain ⟨hpending, hdelete⟩ := h n hn
  refine ⟨hdelete, ?_, ?_⟩
  · intro hstatus
    rw [hstatus] at hpending
    exact hpending rfl
  · intro hstatus
    rw [hstatus] at hpending
    exact absurd rfl hpending

theorem error_fail (e : ExecError) : (q.fail e).error ≠ none
  := by
  unfold fail
  cases q.error <;> simp

theorem error_notify :
  (q.notify n).error = none ↔
    q.error = none ∧ q.status n ≠ .delete ∧ q.status n ≠ .pendingTryCheck
  := by
  unfold notify
  cases q.status n
  case delete => simp [error_fail]
  case pendingTryCheck => simp [error_fail]
  all_goals simp [setStatus]

/-- The first of the nodes can be notified, and then the others. -/
theorem notifiable_cons :
  q.Notifiable (n :: ns) ↔ q.Notifiable [n] ∧ (q.notify n).Notifiable ns
  := by
  rw [notifiable_singleton]
  unfold Notifiable
  constructor
  · intro h
    obtain ⟨hdelete, htryCheck, honce⟩ := h n (.head ns)
    refine ⟨⟨hdelete, htryCheck⟩, ?_⟩
    intro m hm
    rw [status_notify]
    split
    · rename_i hmn
      subst hmn
      -- A node with the status QUEUE_PENDING_TRY does not occur again.
      have htry : q.status m ≠ .pendingTry := by
        intro htry
        have hcount := honce htry
        rw [List.count_cons_self, Nat.add_eq_right, List.count_eq_zero] at hcount
        exact hcount hm
      revert hdelete htryCheck htry
      cases q.status m <;> simp [QueueStatus.notified]
    · rename_i hmn
      obtain ⟨hdelete, htryCheck, honce⟩ := h m (.tail n hm)
      refine ⟨hdelete, htryCheck, ?_⟩
      rwa [List.count_cons_of_ne (Ne.symm hmn)] at honce
  · rintro ⟨⟨hdelete, htryCheck⟩, h⟩ m hm
    by_cases hmn : m = n
    · subst hmn
      refine ⟨hdelete, htryCheck, ?_⟩
      intro htry
      rw [List.count_cons_self, Nat.add_eq_right, List.count_eq_zero]
      intro hmem
      have hnot := (h m hmem).2.1
      rw [status_notify, if_pos rfl, htry] at hnot
      exact hnot rfl
    · have hrest := h m ((List.mem_cons.mp hm).resolve_left hmn)
      rw [status_notify, if_neg hmn] at hrest
      rwa [List.count_cons_of_ne (Ne.symm hmn)]

/-- The notification of the nodes reaches no error branch exactly if they can be notified
one after the other. -/
theorem error_notifyAll :
  (q.notifyAll ns).error = none ↔ q.error = none ∧ q.Notifiable ns
  := by
  induction ns generalizing q with
  | nil => exact ⟨fun h => ⟨h, notifiable_nil⟩, And.left⟩
  | cons n ns ih =>
    have hrest : ((q.notify n).notifyAll ns).error = none ↔
        (q.notify n).error = none ∧ (q.notify n).Notifiable ns := ih
    change ((q.notify n).notifyAll ns).error = none ↔ _
    rw [hrest, error_notify, notifiable_cons, notifiable_singleton]
    tauto

@[simp]
theorem error_notifyAllResourceAvailable :
  (q.notifyAllResourceAvailable ns).error = q.error
  := by
  rw [notifyAllResourceAvailable_eq]

theorem error_addStateChangeNode (h : q.status n = .none) :
  (q.addStateChangeNode n).error = q.error
  := by
  unfold addStateChangeNode
  rw [h]
  rfl

theorem error_addFinishedRootNode (h : q.status n = .none ∨ q.status n = .check) :
  (q.addFinishedRootNode n).error = q.error
  := by
  unfold addFinishedRootNode
  rcases h with h | h <;> rw [h] <;> rfl

/-- A node which is taken from the state change queue is in no queue, or a candidate. -/
theorem status_getStateChangeNode (rest : List NodePtr) :
  (q.getStateChangeNode n rest).status m = q.status m ∧ m ≠ n ∨
    m = n ∧ ((q.getStateChangeNode n rest).status m = .none ∨
      (q.getStateChangeNode n rest).status m = .check)
  := by
  unfold getStateChangeNode
  dsimp only
  by_cases hm : m = n
  · subst hm
    refine .inr ⟨rfl, ?_⟩
    split
    · apply Or.inr
      rw [status_notify, if_pos rfl]
      dsimp only
      rw [setStatus_self]
      rfl
    · exact .inl setStatus_self
  · refine .inl ⟨?_, hm⟩
    split
    · rw [status_notify, if_neg hm]
      exact setStatus_of_ne hm
    · exact setStatus_of_ne hm

theorem error_getStateChangeNode (rest : List NodePtr) :
  (q.getStateChangeNode n rest).error = none ↔ q.error = none
  := by
  unfold getStateChangeNode
  dsimp only
  split
  · rw [error_notify]
    simp [setStatus]
  · rfl

end Queues

/-! ### The status of a node and its state -/

/-- The status which a node can have: in the pending queue the node is in WAITING, only a
root is to be deleted, and the plan of a node with a status has been added. -/
structure QueueStatus.Fits (F : Forest) (c : Core) (n : NodePtr) (x : QueueStatus) : Prop where
  waiting : x.queue = some .pending → (c.node n).state = .waiting
  root : x = .delete → (F.decl n).parent = Option.none
  added : x ≠ .none → F.root n ∈ c.added

namespace QueueStatus.Fits

variable {F : Forest} {c c' : Core} {n : NodePtr} {x y : QueueStatus}

theorem unqueued : QueueStatus.none.Fits F c n
  := by
  constructor <;> simp

/-- A status which is neither of the pending queue nor for deletion. -/
theorem other (hpending : x.queue ≠ some .pending) (hdelete : x ≠ .delete)
    (hadded : F.root n ∈ c.added) :
  x.Fits F c n
  := ⟨fun h => absurd h hpending, fun h => absurd h hdelete, fun _ => hadded⟩

/-- A status of the same queue. -/
theorem of_queue (h : x.Fits F c n) (hqueue : y.queue = x.queue) : y.Fits F c n
  := by
  constructor
  case waiting =>
    rw [hqueue]
    exact h.waiting
  case root =>
    rw [← queue_eq_finishedRoot, hqueue, queue_eq_finishedRoot]
    exact h.root
  case added =>
    intro hy
    apply h.added
    rintro rfl
    exact hy ((queue_eq_none y).mp hqueue)

theorem notified (h : x.Fits F c n) (hadded : F.root n ∈ c.added) : x.notified.Fits F c n
  := by
  by_cases hx : x = .none
  · subst hx
    exact other (by simp [QueueStatus.notified, QueueStatus.queue]) (by simp [QueueStatus.notified])
      hadded
  · exact h.of_queue (queue_notified hx)

theorem congr (h : x.Fits F c n) (hstate : (c'.node n).state = (c.node n).state)
    (hadded : ∀ r ∈ c.added, r ∈ c'.added) :
  x.Fits F c' n
  where
  waiting hx := hstate.trans (h.waiting hx)
  root := h.root
  added hx := hadded _ (h.added hx)

end QueueStatus.Fits

namespace Core

variable {F : Forest} {n m : NodePtr} {d : Option Dest} {c c' : Core} {e : CoreEvent}

/-- Every node has a status which it can have, and the loaded plans have been added. -/
structure Settled (F : Forest) (c : Core) : Prop where
  fits : ∀ n, (c.queues.status n).Fits F c n
  loaded : ∀ r ∈ c.plan, r ∈ c.added

namespace Settled

theorem added_of_exists (h : c.Settled F) (hn : c.exists F n = true) : F.root n ∈ c.added
  := h.loaded _ (of_decide_eq_true hn)

/-- A node which is in a queue belongs to a plan which has been added. -/
theorem added_of_mem (h : c.Settled F) (hq : c.queues.WellFormed) {k : QueueName}
    (hn : n ∈ c.queues.members k) :
  F.root n ∈ c.added
  := by
  apply (h.fits n).added
  intro hnone
  exact hq.notMem_of_none hnone k hn

theorem waiting_of_pending (h : c.Settled F) (hq : c.queues.WellFormed)
    (hn : n ∈ c.queues.pending) :
  (c.node n).state = .waiting
  := (h.fits n).waiting (hq.queue_of_pending hn)

/-- A step which concerns the node `n`.  Other nodes stay in their queue or become
candidates. -/
theorem update (h : c.Settled F) (hplan : c'.plan = c.plan) (hadded : c'.added = c.added)
    (hstate : ∀ m, m ≠ n → (c'.node m).state = (c.node m).state)
    (hstatus : ∀ m, m ≠ n →
      (c'.queues.status m).queue = (c.queues.status m).queue ∨
        (c'.queues.status m).queue = some .candidate ∧ F.root m ∈ c.added)
    (hself : (c'.queues.status n).Fits F c' n) :
  c'.Settled F
  := by
  constructor
  case fits =>
    intro m
    by_cases hm : m = n
    · subst hm
      exact hself
    · rcases hstatus m hm with hqueue | ⟨hqueue, hroot⟩
      · apply ((h.fits m).of_queue hqueue).congr (hstate m hm)
        rw [hadded]
        exact fun _ hr => hr
      · have hcheck := (QueueStatus.queue_eq_candidate _).mp hqueue
        rw [hcheck]
        apply QueueStatus.Fits.other <;> simp [QueueStatus.queue, hadded, hroot]
  case loaded =>
    rw [hplan, hadded]
    exact h.loaded

/-- Only bookkeeping changes. -/
theorem quiet (h : c.Settled F) (hquiet : c.Quiet c') : c'.Settled F
  := by
  constructor
  case fits =>
    intro n
    rw [hquiet.queues]
    apply (h.fits n).congr (hquiet.node n).state
    rw [hquiet.added]
    exact fun _ hr => hr
  case loaded =>
    rw [hquiet.plan, hquiet.added]
    exact h.loaded

theorem notify (h : c.Settled F) (hn : F.root n ∈ c.added) :
  (c.withQueues (Queues.notify n)).Settled F
  := by
  have hstatus (m : NodePtr) : (c.withQueues (Queues.notify n)).queues.status m =
      if m = n then (c.queues.status n).notified else c.queues.status m := Queues.status_notify
  apply h.update (n := n)
  · rfl
  · rfl
  · exact fun _ _ => rfl
  · intro m hm
    rw [hstatus, if_neg hm]
    exact .inl rfl
  · rw [hstatus, if_pos rfl]
    exact ((h.fits n).notified hn).congr rfl fun _ hr => hr

end Settled

/-! ### A node of the candidate or the pending queue is handled -/

/-- The node `n` is handled: no node changes its state, the other nodes stay in their
queues, and no error branch of the queues is reached. -/
structure Handled (n : NodePtr) (c c' : Core) : Prop where
  plan : c'.plan = c.plan
  added : c'.added = c.added
  state : ∀ m, (c'.node m).state = (c.node m).state
  status : ∀ m, m ≠ n → (c'.queues.status m).queue = (c.queues.status m).queue
  error : c'.queues.error = c.queues.error

namespace Handled

theorem settled (h : Handled n c c') (hc : c.Settled F)
    (hself : (c'.queues.status n).Fits F c n) :
  c'.Settled F
  := by
  apply hc.update h.plan h.added
  · exact fun m _ => h.state m
  · exact fun m hm => .inl (h.status m hm)
  · apply hself.congr (h.state n)
    rw [h.added]
    exact fun _ hr => hr

theorem setStatus (h : Handled n c c') (x : QueueStatus) :
  Handled n c (c'.withQueues (Queues.setStatus n x))
  where
  plan := h.plan
  added := h.added
  state := h.state
  error := h.error
  status m hm := by
    change ((c'.queues.setStatus n x).status m).queue = _
    rw [Queues.setStatus_of_ne hm]
    exact h.status m hm

end Handled

theorem state_update_setDest (c : Core) (n : NodePtr) (d : Option Dest) (m : NodePtr) :
  (Function.update c.node n ((c.node n).setDest d) m).state = (c.node m).state
  := by
  by_cases hm : m = n
  · subst hm
    rw [Function.update_self]
    cases d <;> rfl
  · rw [Function.update_of_ne hm]

/-- The queues when a node leaves the pending queue. -/
theorem queues_of_leavePending (q : Queues) (n : NodePtr) (gone : Prop) [Decidable gone] :
  ((if gone then id else Queues.addStateChangeNode n) (q.removePending n)).error = q.error ∧
    ∀ m, m ≠ n →
      ((if gone then id else Queues.addStateChangeNode n) (q.removePending n)).status m = q.status m
  := by
  have hnone : (q.removePending n).status n = .none := Queues.setStatus_self
  split
  · exact ⟨rfl, fun m hm => Queues.setStatus_of_ne hm⟩
  · constructor
    · exact Queues.error_addStateChangeNode hnone
    · intro m hm
      rw [Queues.status_addStateChangeNode hnone, if_neg hm]
      exact Queues.setStatus_of_ne hm

theorem handled_evaluate (rest : List NodePtr) :
  Handled n c (c.evaluateCandidate F n rest d)
  := by
  obtain ⟨error, heq⟩ := evaluateCandidate_eq F n rest d c
  have taken (m : NodePtr) (hm : m ≠ n) :
      (c.queues.getCandidateNode n rest).status m = c.queues.status m := Queues.setStatus_of_ne hm
  have hnone : (c.queues.getCandidateNode n rest).status n = .none := Queues.setStatus_self
  rw [heq]
  constructor
  case plan => rfl
  case added => rfl
  case state => exact state_update_setDest c n d
  case status =>
    intro m hm
    dsimp only
    split
    · rw [taken m hm]
    · split
      · change (((c.queues.getCandidateNode n rest).setStatus n .pendingTry).status m).queue = _
        rw [Queues.setStatus_of_ne hm, taken m hm]
      · rw [Queues.status_addStateChangeNode hnone, if_neg hm, taken m hm]
  case error =>
    dsimp only
    split
    · rfl
    · split
      · rfl
      · exact Queues.error_addStateChangeNode hnone

theorem handled_recheckPending : Handled n c (c.recheckPending F n d).1
  := by
  obtain ⟨error, ⟨-, heq⟩ | ⟨-, heq⟩⟩ := recheckPending_eq F n d c
  · rw [heq]
    constructor
    case state => exact state_update_setDest c n d
    case status => exact fun _ _ => rfl
    all_goals rfl
  · rw [heq]
    have hqueues := queues_of_leavePending c.queues n (d = none)
    constructor
    case plan => rfl
    case added => rfl
    case state => exact state_update_setDest c n d
    case status => exact fun m hm => congrArg QueueStatus.queue (hqueues.2 m hm)
    case error => exact hqueues.1

theorem handled_examine : Handled n c (c.resourceCheckEligible F n d).1
  := by
  have same : Handled n c c := ⟨rfl, rfl, fun _ => rfl, fun _ _ => rfl, rfl⟩
  unfold resourceCheckEligible
  split
  · exact handled_recheckPending.setStatus .pending
  · exact handled_recheckPending
  · exact same
  · exact same
  · exact ⟨rfl, rfl, fun _ => rfl, fun _ _ => rfl, rfl⟩

theorem handled_acquire : Handled n c (c.acquire F n)
  := by
  rcases acquire_eq F n c with ⟨c₁, h, heq⟩ | ⟨c₁, h, heq⟩
  · rw [heq]
    have hqueues := queues_of_leavePending c₁.queues n False
    rw [if_neg not_false, h.queues] at hqueues
    have heq' : ((c₁.removePendingNode F n).withQueues (Queues.addStateChangeNode n)).queues =
        (c.queues.removePending n).addStateChangeNode n := by
      rw [← h.queues]
      rfl
    constructor
    case plan => exact h.plan
    case added => exact h.added
    case state => exact fun m => congrArg (fun node => (node m).state) h.node
    case status =>
      intro m hm
      rw [heq', hqueues.2 m hm]
    case error =>
      rw [heq']
      exact hqueues.1
  · rw [heq]
    obtain ⟨told, htold⟩ := h.queues
    apply Handled.setStatus
    constructor
    case plan => exact h.plan
    case added => exact h.added
    case state => exact fun m => congrArg (fun node => (node m).state) h.node
    case status =>
      intro m _
      rw [htold, Queues.notifyAllResourceAvailable_eq]
      dsimp only
      split
      · apply QueueStatus.queue_resourceAvailable
      · rfl
    case error =>
      rw [htold]
      apply Queues.error_notifyAllResourceAvailable

/-! ### A node makes its transition -/

/-- The queues before the node is notified or marked as finished: it is in no queue or a
candidate, and the other nodes have stayed in their queues. -/
theorem Transitioned.queues_told {rest : List NodePtr}
    (h : Transitioned F n (c.withQueues (Queues.getStateChangeNode n rest)) c') :
  ∃ q : Queues, (q.error = none ↔ c.queues.error = none) ∧ (q.status n = .none ∨ q.status n = .check) ∧
    (∀ m, m ≠ n → (q.status m).queue = (c.queues.status m).queue) ∧
    c'.queues =
      (if (c.node n).nextState = .finished ∧ (F.decl n).parent = none then q.addFinishedRootNode n
        else q.notify n).notifyAll (c.notifiedChildren F n (c.node n).nextState)
  := by
  obtain ⟨told, heq, -⟩ := h.queues_eq
  have hstatus (m : NodePtr) :
      ((c.queues.getStateChangeNode n rest).notifyAllResourceAvailable told).status m =
        if m ∈ told then ((c.queues.getStateChangeNode n rest).status m).resourceAvailable
        else (c.queues.getStateChangeNode n rest).status m := by
    rw [Queues.notifyAllResourceAvailable_eq]
  refine ⟨(c.queues.getStateChangeNode n rest).notifyAllResourceAvailable told, ?_, ?_, ?_, heq⟩
  · rw [Queues.error_notifyAllResourceAvailable]
    exact Queues.error_getStateChangeNode rest
  · rw [hstatus]
    rcases Queues.status_getStateChangeNode (q := c.queues) (n := n) (m := n) rest with
      ⟨-, hne⟩ | ⟨-, hn | hn⟩
    · exact absurd rfl hne
    · simp [hn, QueueStatus.resourceAvailable]
    · simp [hn, QueueStatus.resourceAvailable]
  · intro m hm
    rw [hstatus]
    rcases Queues.status_getStateChangeNode (q := c.queues) (n := n) (m := m) rest with
      ⟨hsame, -⟩ | ⟨hmn, -⟩
    · rw [hsame]
      split
      · apply QueueStatus.queue_resourceAvailable
      · rfl
    · exact absurd hmn hm

/-- A list node notifies children which are in INACTIVE or FINISHED. -/
theorem state_of_mem_notifiedChildren {newValue : NodeState}
    (h : m ∈ c.notifiedChildren F n newValue) :
  (c.node m).state = .inactive ∨ (c.node m).state = .finished
  := by
  unfold notifiedChildren at h
  split at h
  · split at h
    · exact .inr (of_decide_eq_true (List.mem_filter.mp h).2)
    · exact .inl (of_decide_eq_true (List.mem_filter.mp h).2)
    · exact .inl (of_decide_eq_true (List.mem_filter.mp h).2)
    · cases h
  · cases h

/-- The status of the node which makes the transition, before its children are notified. -/
theorem status_of_told {q : Queues} (hself : q.status n = .none ∨ q.status n = .check)
    (finishes : Prop) [Decidable finishes] :
  (if finishes then q.addFinishedRootNode n else q.notify n).status m =
    if m = n then if finishes then .delete else .check else q.status m
  := by
  split
  · unfold Queues.addFinishedRootNode
    rcases hself with h | h <;> rw [h] <;> exact Queues.status_setStatus
  · rw [Queues.status_notify]
    rcases hself with h | h <;> rw [h] <;> rfl

/-- A transition reaches no error branch of the queues. -/
theorem Transitioned.error {rest : List NodePtr} (hc : c.Settled F)
    (herror : c.queues.error = none)
    (h : Transitioned F n (c.withQueues (Queues.getStateChangeNode n rest)) c') :
  c'.queues.error = none
  := by
  obtain ⟨q, hq, hself, hothers, heq⟩ := h.queues_told
  replace hq := hq.mpr herror
  rw [heq, Queues.error_notifyAll]
  constructor
  · split
    · rw [Queues.error_addFinishedRootNode hself]
      exact hq
    · rw [Queues.error_notify]
      refine ⟨hq, ?_, ?_⟩ <;> rcases hself with hn | hn <;> rw [hn] <;> simp
  · -- The children are in no state in which they could wait for a resource.
    apply Queues.notifiable_of_queue
    intro m hm
    have hparent := (F.mem_children n m).mp (mem_children_of_mem_notifiedChildren hm)
    have hmn := (F.parent_ne hparent).symm
    rw [status_of_told hself, if_neg hmn]
    constructor
    · rw [hothers m hmn]
      intro hpending
      have hwaiting := (hc.fits m).waiting hpending
      rcases state_of_mem_notifiedChildren hm with hstate | hstate <;>
        exact absurd (hwaiting.symm.trans hstate) (by simp)
    · intro hdelete
      have hqueue := (hothers m hmn).symm
      rw [hdelete] at hqueue
      have hroot := (hc.fits m).root ((QueueStatus.queue_eq_finishedRoot _).mp hqueue)
      rw [hparent] at hroot
      cases hroot

theorem Transitioned.settled {rest : List NodePtr} (hc : c.Settled F) (hn : F.root n ∈ c.added)
    (h : Transitioned F n (c.withQueues (Queues.getStateChangeNode n rest)) c') :
  c'.Settled F
  := by
  obtain ⟨q, -, hself, hothers, heq⟩ := h.queues_told
  have hstatus (m : NodePtr) := status_of_told (m := m) hself
    ((c.node n).nextState = .finished ∧ (F.decl n).parent = none)
  apply hc.update (n := n) h.plan h.added
  · exact fun m hm => congrArg (fun x : NodeImpl => x.state) (h.others m hm)
  · intro m hm
    rw [heq, Queues.status_notifyAll, hstatus, if_neg hm]
    split
    · rename_i hchild
      have hparent := (F.mem_children n m).mp (mem_children_of_mem_notifiedChildren hchild)
      by_cases hnone : q.status m = .none
      · rw [hnone, F.root_of_parent hparent]
        exact .inr ⟨rfl, hn⟩
      · rw [QueueStatus.queue_notified hnone]
        exact .inl (hothers m hm)
    · exact .inl (hothers m hm)
  · have hchild : n ∉ c.notifiedChildren F n (c.node n).nextState := by
      intro hchild
      exact F.parent_ne ((F.mem_children n n).mp (mem_children_of_mem_notifiedChildren hchild)) rfl
    rw [heq, Queues.status_notifyAll, if_neg hchild, hstatus, if_pos rfl]
    have hadded : F.root n ∈ c'.added := by
      rw [h.added]
      exact hn
    split
    · rename_i hfinished
      exact ⟨by simp [QueueStatus.queue], fun _ => hfinished.2, fun _ => hadded⟩
    · apply QueueStatus.Fits.other <;> simp [QueueStatus.queue, hadded]

/-! ### The steps of the core -/

/-- The status of the first candidate after its evaluation. -/
theorem fits_evaluate {rest : List NodePtr} (hadded : F.root n ∈ c.added)
    (hfinds : c.Finds F n d) :
  ((c.evaluateCandidate F n rest d).queues.status n).Fits F c n
  := by
  obtain ⟨error, heq⟩ := evaluateCandidate_eq F n rest d c
  have hnone : (c.queues.getCandidateNode n rest).status n = .none := Queues.setStatus_self
  rw [heq]
  dsimp only
  split
  · rw [hnone]
    exact .unqueued
  · split
    · rename_i d hexecutes
      have hlegal := hfinds.legal
      rw [hexecutes.1] at hlegal
      have hstatus : ((c.queues.getCandidateNode n rest).addPendingNode F.priority n).status n =
          .pendingTry := Queues.setStatus_self
      rw [hstatus]
      exact ⟨fun _ => legalSuccessor_executing hlegal, by simp, fun _ => hadded⟩
    · rw [Queues.status_addStateChangeNode hnone, if_pos rfl]
      apply QueueStatus.Fits.other <;> simp [QueueStatus.queue, hadded]

/-- The status after a second look at a node which is in WAITING. -/
theorem fits_recheckPending (hadded : F.root n ∈ c.added)
    (hfits : (c.queues.status n).Fits F c n) :
  ((c.recheckPending F n d).1.queues.status n).Fits F c n
  := by
  obtain ⟨error, ⟨-, heq⟩ | ⟨-, heq⟩⟩ := recheckPending_eq F n d c
  · rw [heq]
    exact hfits
  · rw [heq]
    change (((if d = none then id else Queues.addStateChangeNode n)
      (c.queues.removePending n)).status n).Fits F c n
    rw [status_leavePending]
    split
    · exact .unqueued
    · apply QueueStatus.Fits.other <;> simp [QueueStatus.queue, hadded]

theorem fits_pending (hadded : F.root n ∈ c.added) (hstate : (c.node n).state = .waiting) :
  QueueStatus.pending.Fits F c n
  := ⟨fun _ => hstate, by simp, fun _ => hadded⟩

theorem fits_examine (hadded : F.root n ∈ c.added) (hstate : (c.node n).state = .waiting)
    (hfits : (c.queues.status n).Fits F c n) :
  ((c.resourceCheckEligible F n d).1.queues.status n).Fits F c n
  := by
  unfold resourceCheckEligible
  split
  · change (((c.recheckPending F n d).1.queues.setStatus n .pending).status n).Fits F c n
    rw [Queues.setStatus_self]
    exact fits_pending hadded hstate
  · exact fits_recheckPending hadded hfits
  all_goals exact hfits

theorem fits_acquire (hadded : F.root n ∈ c.added) (hstate : (c.node n).state = .waiting) :
  ((c.acquire F n).queues.status n).Fits F c n
  := by
  rcases acquire_eq F n c with ⟨c₁, h, heq⟩ | ⟨c₁, h, heq⟩
  · rw [heq]
    have hnone : (c₁.queues.removePending n).status n = .none := Queues.setStatus_self
    change (((c₁.queues.removePending n).addStateChangeNode n).status n).Fits F c n
    rw [Queues.status_addStateChangeNode hnone, if_pos rfl]
    apply QueueStatus.Fits.other <;> simp [QueueStatus.queue, hadded]
  · rw [heq]
    change ((c₁.queues.setStatus n .pending).status n).Fits F c n
    rw [Queues.setStatus_self]
    exact fits_pending hadded hstate

/-- A root which has not been added has no status. -/
theorem Settled.status_of_new {root : NodePtr} (h : c.Settled F)
    (hroot : (F.decl root).parent = none) (hadded : root ∉ c.added) :
  c.queues.status root = .none
  := by
  by_contra hne
  have hmem := (h.fits root).added hne
  rw [F.root_of_no_parent hroot] at hmem
  exact hadded hmem

/-- Every step of the core keeps the nodes settled. -/
theorem Step.settled (h : Step F c e c') (hq : c.queues.WellFormed) (hc : c.Settled F) :
  c'.Settled F
  := by
  cases h
  case quiet h => exact hc.quiet h
  case notify n hexists => exact hc.notify (hc.added_of_exists hexists)
  case notifyResourceAvailable n hexists =>
    constructor
    case fits =>
      intro m
      have hqueue : ((c.queues.notifyResourceAvailable n).status m).queue =
          (c.queues.status m).queue := by
        rw [Queues.status_notifyResourceAvailable]
        split
        · rename_i hm
          rw [hm, QueueStatus.queue_resourceAvailable]
        · rfl
      exact ((hc.fits m).of_queue hqueue).congr rfl fun _ hr => hr
    case loaded => exact hc.loaded
  case addPlan root hroot hadded =>
    have hself : F.root root ∈ c.added ++ [root] := by
      rw [F.root_of_no_parent hroot]
      exact List.mem_append_right _ (List.mem_singleton_self root)
    constructor
    case fits =>
      intro m
      dsimp only
      rw [Queues.status_notify]
      split
      · rename_i hm
        rw [hm, hc.status_of_new hroot hadded]
        apply QueueStatus.Fits.other <;> simp [QueueStatus.queue, QueueStatus.notified, hself]
      · exact (hc.fits m).congr rfl fun r hr => List.mem_append_left _ hr
    case loaded =>
      intro r hr
      rcases List.mem_append.mp hr with hr | hr
      · exact List.mem_append_left _ (hc.loaded r hr)
      · exact List.mem_append_right _ hr
  case deleteFinishedPlans =>
    constructor
    case fits => exact fun n => (hc.fits n).congr rfl fun _ hr => hr
    case loaded => exact fun r hr => hc.loaded r (List.mem_filter.mp hr).1
  case evaluate n rest d hcandidate hfinds =>
    have hadded := hc.added_of_mem hq (k := .candidate) (n := n) (by simp [Queues.members, hcandidate])
    exact (handled_evaluate rest).settled hc (fits_evaluate hadded hfinds)
  case examine n d hpending hfinds =>
    have hadded := hc.added_of_mem hq (k := .pending) hpending
    exact handled_examine.settled hc
      (fits_examine hadded (hc.waiting_of_pending hq hpending) (hc.fits n))
  case acquire n hpending =>
    have hadded := hc.added_of_mem hq (k := .pending) hpending
    exact handled_acquire.settled hc (fits_acquire hadded (hc.waiting_of_pending hq hpending))
  case stay n rest hstateChange hnext =>
    have hadded := hc.added_of_mem hq (k := .stateChange) (n := n) (by simp [Queues.members, hstateChange])
    have hstatus (m : NodePtr) :=
      Queues.status_getStateChangeNode (q := c.queues) (n := n) (m := m) rest
    apply hc.update (n := n)
    · rfl
    · rfl
    · exact fun _ _ => rfl
    · intro m hm
      rcases hstatus m with ⟨hsame, -⟩ | ⟨hmn, -⟩
      · exact .inl (congrArg QueueStatus.queue hsame)
      · exact absurd hmn hm
    · change ((c.queues.getStateChangeNode n rest).status n).Fits F _ n
      rcases hstatus n with ⟨-, hne⟩ | ⟨-, hn | hn⟩
      · exact absurd rfl hne
      · rw [hn]
        exact .unqueued
      · rw [hn]
        exact .other (by simp [QueueStatus.queue]) (by simp) hadded
  case transition n rest hstateChange hnext ht =>
    have hadded := hc.added_of_mem hq (k := .stateChange) (n := n) (by simp [Queues.members, hstateChange])
    exact ht.settled hc hadded

/-- A step of the core reaches no error branch of the queues, unless it notifies a node for
which `notify` has none but an error branch. -/
theorem Step.error (h : Step F c e c') (hc : c.Settled F) (herror : c.queues.error = none)
    (hnotify : ∀ n, e ≠ .notify n) :
  c'.queues.error = none
  := by
  cases h
  case quiet h =>
    rw [h.queues]
    exact herror
  case notify n hexists => exact absurd rfl (hnotify n)
  case notifyResourceAvailable n hexists =>
    change (c.queues.notifyResourceAvailable n).error = none
    rw [Queues.notifyResourceAvailable_eq]
    exact herror
  case addPlan root hroot hadded =>
    dsimp only
    rw [Queues.error_notify, hc.status_of_new hroot hadded]
    exact ⟨herror, by simp, by simp⟩
  case deleteFinishedPlans => exact herror
  case evaluate n rest d hcandidate hfinds => exact (handled_evaluate rest).error.trans herror
  case examine n d hpending hfinds => exact handled_examine.error.trans herror
  case acquire n hpending => exact handled_acquire.error.trans herror
  case stay n rest hstateChange hnext =>
    exact (Queues.error_getStateChangeNode rest).mpr herror
  case transition n rest hstateChange hnext ht => exact ht.error hc herror

end Core
end Plexil

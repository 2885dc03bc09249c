import Plexil.Exec.QueueMembership
import Plexil.Exec.ResourceLeak

/-!
# The wait lists of the resources

A node with the status QUEUE_PENDING has tried to acquire its resources in vain: it is on
the wait lists of all of them, and another node holds one of them, so that it will be told
when this one is released.  This is lost when a node leaves the pending queue with the
status QUEUE_PENDING, and when a node waits for nothing but resources which it has kept
itself.
-/

namespace Plexil

/-! ### Statuses -/

/-- The node has found its resources busy, and has not been told of a release since. -/
def QueueStatus.waits : QueueStatus → Bool
  | .pending | .pendingCheck => true
  | _ => false

@[simp]
theorem QueueStatus.waits_notified (x : QueueStatus) : x.notified.waits = x.waits := by
  cases x <;> rfl

@[simp]
theorem QueueStatus.waits_resourceAvailable (x : QueueStatus) : x.resourceAvailable.waits = false
  := by
  cases x <;> rfl

namespace Queues

variable {q : Queues} {n m : NodePtr} {rest ns : List NodePtr}

theorem waits_notify : ((q.notify n).status m).waits = (q.status m).waits := by
  rw [status_notify]
  split
  · rename_i hmn
    rw [hmn, QueueStatus.waits_notified]
  · rfl

theorem waits_notifyAll : ((q.notifyAll ns).status m).waits = (q.status m).waits := by
  rw [status_notifyAll]
  split
  · apply QueueStatus.waits_notified
  · rfl

theorem waits_notifyResourceAvailable (h : ((q.notifyResourceAvailable n).status m).waits = true) :
  (q.status m).waits = true
  := by
  rw [status_notifyResourceAvailable] at h
  split at h
  · rw [QueueStatus.waits_resourceAvailable] at h
    cases h
  · exact h

/-- Who is told does not wait any more. -/
theorem waits_notifyAllResourceAvailable
    (h : ((q.notifyAllResourceAvailable ns).status m).waits = true) :
  m ∉ ns ∧ (q.status m).waits = true
  := by
  rw [notifyAllResourceAvailable_eq] at h
  dsimp only at h
  split at h
  · rw [QueueStatus.waits_resourceAvailable] at h
    cases h
  · rename_i hm
    exact ⟨hm, h⟩

theorem waits_setStatus {x : QueueStatus} (hx : x.waits = false)
    (h : ((q.setStatus n x).status m).waits = true) :
  m ≠ n ∧ (q.status m).waits = true
  := by
  rw [status_setStatus] at h
  split at h
  · rw [hx] at h
    cases h
  · rename_i hm
    exact ⟨hm, h⟩

theorem waits_getCandidateNode (h : ((q.getCandidateNode n rest).status m).waits = true) :
  m ≠ n ∧ (q.status m).waits = true
  := waits_setStatus rfl h

theorem waits_removePending (h : ((q.removePending n).status m).waits = true) :
  m ≠ n ∧ (q.status m).waits = true
  := waits_setStatus rfl h

theorem waits_addPendingNode {priority : NodePtr → Int}
    (h : ((q.addPendingNode priority n).status m).waits = true) :
  m ≠ n ∧ (q.status m).waits = true
  := waits_setStatus rfl h

theorem waits_getStateChangeNode (h : ((q.getStateChangeNode n rest).status m).waits = true) :
  m ≠ n ∧ (q.status m).waits = true
  := by
  unfold getStateChangeNode at h
  dsimp only at h
  split at h
  · rw [waits_notify] at h
    exact waits_setStatus rfl h
  · exact waits_setStatus rfl h

theorem waits_addStateChangeNode (h : ((q.addStateChangeNode n).status m).waits = true) :
  (q.status m).waits = true
  := by
  unfold addStateChangeNode at h
  split at h
  · exact (waits_setStatus rfl h).2
  · exact h

theorem waits_addFinishedRootNode (h : ((q.addFinishedRootNode n).status m).waits = true) :
  (q.status m).waits = true
  := by
  unfold addFinishedRootNode at h
  split at h
  · exact (waits_setStatus rfl h).2
  · exact (waits_setStatus rfl h).2
  · exact h
  · exact h

end Queues

namespace Core

variable {F : Forest} {n m : NodePtr} {r : ReservableId} {d : Option Dest} {c c' : Core}

/-! ### Who waits for a resource is told of its release -/

/-- The node `n` holds the resource and `m` is on its wait list, or `m` does not wait. -/
def HeldOrTold (n m : NodePtr) (r : ReservableId) (c : Core) : Prop :=
  ((c.reservable r).holder = some n ∧ m ∈ (c.reservable r).waiters) ∨
    (c.queues.status m).waits = false

/-- The release of a held resource tells the nodes on its wait list. -/
theorem heldOrTold_release (h : c.HeldOrTold n m r) (r' : ReservableId) :
  (c.release n r').HeldOrTold n m r
  := by
  have hspec := release_spec n c r'
  obtain ⟨told, hqueues, htold⟩ := hspec.queues
  have hmono : ((c.release n r').queues.status m).waits = true →
      m ∉ told ∧ (c.queues.status m).waits = true := by
    rw [hqueues]
    apply Queues.waits_notifyAllResourceAvailable
  cases hwaits : ((c.release n r').queues.status m).waits with
  | false => exact .inr hwaits
  | true =>
    left
    obtain ⟨hnot, hbefore⟩ := hmono hwaits
    obtain ⟨hheld, hmem⟩ := h.resolve_right (by rw [hbefore]; exact Bool.noConfusion)
    have hne : r ∉ [r'] := by
      intro hr
      rw [List.mem_singleton] at hr
      apply hnot
      rw [htold]
      exact ⟨r, by rw [hr]; exact List.mem_singleton_self r', hheld, hmem⟩
    rw [hspec.reservable, if_neg hne]
    exact ⟨hheld, hmem⟩

/-- An attempt at resources leaves those which the node holds already as they are. -/
theorem HeldOrTold.attempted (h : c.HeldOrTold n m r) (hne : m ≠ n)
    (hqueues : c'.queues = c.queues) (hattempted : (c.reservable r).Attempted n (c'.reservable r)) :
  c'.HeldOrTold n m r
  := by
  rcases h with ⟨hheld, hmem⟩ | hnot
  · left
    constructor
    · rcases hattempted.holder with heq | ⟨hfree, -⟩
      · rw [heq, hheld]
      · rw [hheld] at hfree
        cases hfree
    · rw [hattempted.waiters m hne]
      exact hmem
  · right
    rw [hqueues]
    exact hnot

theorem attempted_acquireMutexes (F : Forest) (n : NodePtr) (r : ReservableId) (c : Core) :
  (c.acquireMutexes F n).1.queues = c.queues ∧
    (c.reservable r).Attempted n ((c.acquireMutexes F n).1.reservable r)
  := by
  rcases acquireMutexes_spec F n c with ⟨-, free, heq⟩ | ⟨-, -, res, error, heq, attempted, -⟩
  · rw [heq]
    refine ⟨rfl, ?_⟩
    dsimp only
    split
    · rename_i hr
      exact Reservable.attempted_acquired (free r hr)
    · apply Reservable.Attempted.refl
  · rw [heq]
    exact ⟨rfl, attempted r⟩

theorem attempted_acquireVariable (n : NodePtr) (r' : ReservableId) (success : Bool)
    (r : ReservableId) (c : Core) :
  (c.acquireVariable n r' success).1.queues = c.queues ∧
    (c.reservable r).Attempted n ((c.acquireVariable n r' success).1.reservable r)
  := by
  by_cases h : success = true ∧ (c.reservable r').holder = none
  · obtain ⟨rfl, hfree⟩ := h
    rw [acquireVariable_of_free hfree]
    refine ⟨rfl, ?_⟩
    dsimp only
    obtain rfl | hne := eq_or_ne r r'
    · rw [Function.update_self]
      exact Reservable.attempted_acquired hfree
    · rw [Function.update_of_ne hne]
      apply Reservable.Attempted.refl
  · rw [acquireVariable_of_held fun hs hfree => h ⟨hs, hfree⟩]
    refine ⟨rfl, ?_⟩
    dsimp only
    obtain rfl | hne := eq_or_ne r r'
    · rw [Function.update_self]
      exact (Reservable.Attempted.refl n _).addWaitingNode
    · rw [Function.update_of_ne hne]
      apply Reservable.Attempted.refl

theorem heldOrTold_backOut (h : c.HeldOrTold n m r) (hne : m ≠ n) (r' : ReservableId) :
  (c.backOut n r').HeldOrTold n m r
  := by
  have hqueues : (c.backOut n r').queues = (c.release n r').queues := rfl
  apply (heldOrTold_release h r').attempted hne hqueues
  change ((c.release n r').reservable r).Attempted n
    (Function.update (c.release n r').reservable r' _ r)
  obtain rfl | hr := eq_or_ne r r'
  · rw [Function.update_self]
    exact (Reservable.Attempted.refl n _).addWaitingNode
  · rw [Function.update_of_ne hr]
    apply Reservable.Attempted.refl

theorem heldOrTold_backOut_foldl (hne : m ≠ n) (rs : List ReservableId)
    (h : c.HeldOrTold n m r) :
  (rs.foldl (backOut n) c).HeldOrTold n m r
  := by
  induction rs generalizing c with
  | nil => exact h
  | cons r' rs ih => exact ih (heldOrTold_backOut h hne r')

/-- A node which waits for a resource is told when the attempt of another node gives this
resource up. -/
theorem heldOrTold_tryResourceAcquisition (F : Forest) (hne : m ≠ n) (h : c.HeldOrTold n m r) :
  (c.tryResourceAcquisition F n).1.HeldOrTold n m r
  := by
  obtain ⟨hqueues, hattempted⟩ := attempted_acquireMutexes F n r c
  have hmutexes := h.attempted hne hqueues hattempted
  by_cases htype : (F.decl n).nodeType = .assignment
  · obtain ⟨hqueues', hattempted'⟩ := attempted_acquireVariable n
      (.variable (F.decl n).baseVariable) (c.acquireMutexes F n).2 r (c.acquireMutexes F n).1
    have hvariable := hmutexes.attempted hne hqueues' hattempted'
    rw [tryResourceAcquisition_of_assignment htype]
    dsimp only
    split
    · exact hvariable
    · apply heldOrTold_backOut_foldl hne _ hvariable
  · rw [tryResourceAcquisition_of_ne_assignment htype]
    dsimp only
    split
    · exact hmutexes
    · apply heldOrTold_backOut_foldl hne _ hmutexes

/-! ### Nodes which wait -/

/-- The node is on the wait list of all resources it needs, and another node holds one of
them. -/
structure Waiting (F : Forest) (n : NodePtr) (c : Core) : Prop where
  waiters : ∀ r ∈ (F.decl n).needs, n ∈ (c.reservable r).waiters
  held : ∃ r ∈ (F.decl n).needs, ∃ m, m ≠ n ∧ (c.reservable r).holder = some m

/-- The invariant. -/
def AllWaiting (F : Forest) (c : Core) : Prop :=
  ∀ n, (c.queues.status n).waits = true → c.Waiting F n

/-- A resource is held, and not by the node itself. -/
def HeldByOther (n : NodePtr) (r : ReservableId) (c : Core) : Prop :=
  (c.reservable r).holder ≠ none ∧ (c.reservable r).holder ≠ some n

instance (n : NodePtr) (r : ReservableId) (c : Core) : Decidable (c.HeldByOther n r) :=
  inferInstanceAs (Decidable (_ ∧ _))

/-- The condition on a step of the core.  A node with the status QUEUE_PENDING_CHECK which is
examined is still to execute; a node which tries to acquire its resources while it holds one of
them finds another one held by another node. -/
def KeepsWaiting (F : Forest) (c : Core) : CoreEvent → Prop
  | .examine n d => c.queues.status n = .pendingCheck → executes d
  | .acquire n => (∃ r ∈ (F.decl n).needs, (c.reservable r).holder = some n) →
    ∃ r ∈ (F.decl n).needs, c.HeldByOther n r
  | _ => True

instance (F : Forest) (c : Core) (e : CoreEvent) : Decidable (c.KeepsWaiting F e) := by
  cases e
  case examine n d => exact inferInstanceAs (Decidable (_ → executes d))
  case acquire n => exact inferInstanceAs (Decidable ((∃ r ∈ _, _) → ∃ r ∈ _, _))
  all_goals exact .isTrue trivial

/-- The nodes of the pending queue which have the status of one which waits do wait. -/
def PendingWaiting (F : Forest) (c : Core) : Prop :=
  ∀ n ∈ c.queues.pending, (c.queues.status n).waits = true → c.Waiting F n

/-- The part of the condition on a step which concerns the acquisition. -/
def HeldUp (F : Forest) (c : Core) : CoreEvent → Prop
  | .acquire n => (∃ r ∈ (F.decl n).needs, (c.reservable r).holder = some n) →
    ∃ r ∈ (F.decl n).needs, c.HeldByOther n r
  | _ => True

theorem KeepsWaiting.heldUp {e : CoreEvent} (h : c.KeepsWaiting F e) :
  c.HeldUp F e
  := by
  cases e
  case acquire n => exact h
  all_goals trivial

/-- A change which concerns the node `n` leaves the others waiting. -/
theorem PendingWaiting.of_others (h : c.PendingWaiting F)
    (hself : n ∈ c'.queues.pending → (c'.queues.status n).waits = true → c'.Waiting F n)
    (hstatus : ∀ m, m ≠ n → m ∈ c'.queues.pending → (c'.queues.status m).waits = true →
      m ∈ c.queues.pending ∧ (c.queues.status m).waits = true)
    (hwaiters : ∀ m, m ≠ n → ∀ r, m ∈ (c.reservable r).waiters → m ∈ (c'.reservable r).waiters)
    (hheld : ∀ m, m ≠ n → m ∈ c'.queues.pending → (c'.queues.status m).waits = true →
      ∀ r ∈ (F.decl m).needs, ∀ a, a ≠ m →
        (c.reservable r).holder = some a → (c'.reservable r).holder = some a) :
  c'.PendingWaiting F
  := by
  intro m hpending hm
  obtain rfl | hne := eq_or_ne m n
  · apply hself hpending hm
  · obtain ⟨hpending', hm'⟩ := hstatus m hne hpending hm
    obtain ⟨hlist, r, hr, a, ha, hholder⟩ := h m hpending' hm'
    constructor
    · intro r' hr'
      apply hwaiters m hne r' (hlist r' hr')
    · exact ⟨r, hr, a, ha, hheld m hne hpending hm r hr a ha hholder⟩

/-- The resources stay as they are, and no node comes to wait. -/
theorem PendingWaiting.congr (h : c.PendingWaiting F)
    (hstatus : ∀ m ∈ c'.queues.pending, (c'.queues.status m).waits = true →
      m ∈ c.queues.pending ∧ (c.queues.status m).waits = true)
    (hreservable : c'.reservable = c.reservable) :
  c'.PendingWaiting F
  := by
  intro m hpending hm
  obtain ⟨hpending', hm'⟩ := hstatus m hpending hm
  obtain ⟨hlist, hheld⟩ := h m hpending' hm'
  constructor
  · rw [hreservable]
    exact hlist
  · rw [hreservable]
    exact hheld

/-! ### The steps -/

theorem pendingWaiting_evaluateCandidate (h : c.PendingWaiting F) {rest : List NodePtr} :
  (c.evaluateCandidate F n rest d).PendingWaiting F
  := by
  obtain ⟨error, heq⟩ := evaluateCandidate_eq F n rest d c
  rw [heq]
  refine h.congr ?_ rfl
  intro m
  dsimp only
  cases d with
  | none => exact fun hpending hm => ⟨hpending, (Queues.waits_getCandidateNode hm).2⟩
  | some d =>
    dsimp only
    split
    · intro hpending hm
      obtain ⟨hne, hm'⟩ := Queues.waits_addPendingNode hm
      refine ⟨?_, (Queues.waits_getCandidateNode hm').2⟩
      obtain heq | hpending' := PriorityQueue.mem_insert.mp hpending
      · contradiction
      · exact hpending'
    · intro hpending hm
      refine ⟨?_, (Queues.waits_getCandidateNode (Queues.waits_addStateChangeNode hm)).2⟩
      rw [Queues.pending_addStateChangeNode] at hpending
      exact hpending

/-- A node which leaves the pending queue leaves the wait lists. -/
theorem pendingWaiting_removePendingNode (h : c.PendingWaiting F) (hw : c.WaitersPending F)
    (n : NodePtr) :
  (c.removePendingNode F n).PendingWaiting F
  := by
  apply h.of_others (n := n)
  · intro _ hn
    exact absurd rfl (Queues.waits_removePending hn).1
  · intro m _ hpending hm
    exact ⟨List.mem_of_mem_erase hpending, (Queues.waits_removePending hm).2⟩
  · intro m hne r hm
    rw [(removePendingNode_reservable F n hw.nodup r).2.2]
    exact ⟨hm, fun _ => hne⟩
  · intro m _ _ _ r _ a _ ha
    rw [(removePendingNode_reservable F n hw.nodup r).1, ha]

theorem pendingWaiting_recheckPending (h : c.PendingWaiting F) (hw : c.WaitersPending F) :
  (c.recheckPending F n d).1.PendingWaiting F
  := by
  obtain ⟨error, hrecheck⟩ := recheckPending_eq F n d c
  have hdest : (c.withDest n d error).PendingWaiting F := h.congr (fun _ hp hm => ⟨hp, hm⟩) rfl
  have hdestw : (c.withDest n d error).WaitersPending F := hw.congr (fun _ => rfl) fun _ hm => hm
  rcases hrecheck with ⟨-, heq⟩ | ⟨-, heq⟩
  · rw [heq]
    exact hdest
  · rw [heq]
    refine (pendingWaiting_removePendingNode hdest hdestw n).congr ?_ rfl
    intro m hpending hm
    change (((if d = none then id else Queues.addStateChangeNode n)
      ((c.withDest n d error).removePendingNode F n).queues).status m).waits = true at hm
    change m ∈ ((if d = none then id else Queues.addStateChangeNode n)
      ((c.withDest n d error).removePendingNode F n).queues).pending at hpending
    split at hm
    · rename_i hd
      rw [if_pos hd] at hpending
      exact ⟨hpending, hm⟩
    · rename_i hd
      rw [if_neg hd, Queues.pending_addStateChangeNode] at hpending
      exact ⟨hpending, Queues.waits_addStateChangeNode hm⟩

theorem pendingWaiting_resourceCheckEligible (h : c.PendingWaiting F) (hw : c.WaitersPending F)
    (hq : c.queues.WellFormed) :
  (c.resourceCheckEligible F n d).1.PendingWaiting F
  := by
  have hrechecked := pendingWaiting_recheckPending (n := n) (d := d) h hw
  unfold resourceCheckEligible
  split
  · rename_i hstatus
    obtain ⟨error, hrecheck⟩ := recheckPending_eq F n d c
    refine hrechecked.congr ?_ rfl
    intro m hpending hm
    change m ∈ (c.recheckPending F n d).1.queues.pending at hpending
    change (((c.recheckPending F n d).1.queues.setStatus n .pending).status m).waits = true at hm
    refine ⟨hpending, ?_⟩
    rw [Queues.status_setStatus] at hm
    split at hm
    · rename_i hmn
      rw [hmn] at hpending ⊢
      rcases hrecheck with ⟨-, heq⟩ | ⟨-, heq⟩
      · -- The node was waiting with the status QUEUE_PENDING_CHECK.
        rw [heq]
        change (c.queues.status n).waits = true
        rw [hstatus]
        rfl
      · -- The node has left the pending queue.
        rw [heq] at hpending
        change n ∈ ((if d = none then id else Queues.addStateChangeNode n)
          (c.queues.removePending n)).pending at hpending
        rw [pending_leavePending] at hpending
        exact absurd hpending (hq.nodup .pending).not_mem_erase
    · exact hm
  · exact hrechecked
  · exact h
  · exact h
  · exact h.congr (fun _ hp hm => ⟨hp, hm⟩) rfl

/-- A node which has acquired its resources takes none for which another one waits in vain. -/
theorem pendingWaiting_acquires (h : c.PendingWaiting F) (hw : c.WaitersPending F)
    (hacquires : Acquires F n c c') :
  ((c'.removePendingNode F n).withQueues (Queues.addStateChangeNode n)).PendingWaiting F
  := by
  have hstatus : ∀ m, (((c'.queues.removePending n).addStateChangeNode n).status m).waits = true →
      m ≠ n ∧ (c.queues.status m).waits = true := by
    intro m hm
    rw [← hacquires.queues]
    exact Queues.waits_removePending (Queues.waits_addStateChangeNode hm)
  have hpending : ∀ m ∈ ((c'.queues.removePending n).addStateChangeNode n).pending,
      m ∈ c.queues.pending := by
    intro m hm
    rw [Queues.pending_addStateChangeNode, hacquires.queues] at hm
    exact List.mem_of_mem_erase hm
  apply h.of_others (n := n)
  · exact fun _ hn => absurd rfl (hstatus n hn).1
  · exact fun m _ hp hm => ⟨hpending m hp, (hstatus m hm).2⟩
  · intro m hne r hm
    change m ∈ ((c'.removePendingNode F n).reservable r).waiters
    rw [(hacquires.reservable_left hw r).2]
    exact ⟨hm, fun _ => hne⟩
  · intro m _ _ _ r _ a _ ha
    change ((c'.removePendingNode F n).reservable r).holder = some a
    rw [(hacquires.reservable_left hw r).1, if_neg]
    · exact ha
    · intro hr
      rw [hacquires.free r hr] at ha
      cases ha

/-- A node which waits after its attempt; who waits for what it gives up is told. -/
theorem pendingWaiting_waits (h : c.PendingWaiting F) (hok : c.HeldUp F (.acquire n))
    (hwaits : Waits F n c c') (htold : ∀ m, m ≠ n → ∀ r, c.HeldOrTold n m r → c'.HeldOrTold n m r) :
  (c'.withQueues (Queues.setStatus n .pending)).PendingWaiting F
  := by
  have hstatus : ∀ m, m ≠ n →
      ((c'.queues.setStatus n .pending).status m).waits = true →
      (c'.queues.status m).waits = true := by
    intro m hne hm
    rw [Queues.status_setStatus, if_neg hne] at hm
    exact hm
  obtain ⟨told, hqueues⟩ := hwaits.queues
  have hbefore : ∀ m, (c'.queues.status m).waits = true → (c.queues.status m).waits = true := by
    rw [hqueues]
    exact fun m hm => (Queues.waits_notifyAllResourceAvailable hm).2
  have hpending : ∀ m ∈ (c'.queues.setStatus n .pending).pending, m ∈ c.queues.pending := by
    intro m hm
    change m ∈ c'.queues.pending at hm
    rwa [hqueues, Queues.notifyAllResourceAvailable_eq] at hm
  apply h.of_others (n := n)
  · intro _ _
    constructor
    · intro r hr
      exact (hwaits.waiters r n).mpr (.inr ⟨rfl, hr⟩)
    · have hother : ∃ r ∈ (F.decl n).needs, c.HeldByOther n r := by
        obtain ⟨r, hr, hheld⟩ := hwaits.held
        by_cases hself : (c.reservable r).holder = some n
        · exact hok ⟨r, hr, hself⟩
        · exact ⟨r, hr, hheld, hself⟩
      obtain ⟨r, hr, hheld, hnot⟩ := hother
      obtain ⟨a, ha⟩ := Option.ne_none_iff_exists'.mp hheld
      have hne : a ≠ n := by
        rintro rfl
        exact hnot ha
      have hkept : (c'.reservable r).holder = (c.reservable r).holder :=
        (hwaits.holder r).resolve_right fun hself => hnot hself.1
      exact ⟨r, hr, a, hne, hkept.trans ha⟩
  · exact fun m hne hp hm => ⟨hpending m hp, hbefore m (hstatus m hne hm)⟩
  · exact fun m _ r hm => (hwaits.waiters r m).mpr (.inl hm)
  · intro m hne hp hm r hr a _ ha
    have hwaiting := h m (hpending m hp) (hbefore m (hstatus m hne hm))
    rcases hwaits.holder r with heq | ⟨hself, -⟩
    · exact heq.trans ha
    · have hheld := htold m hne r (.inl ⟨hself, hwaiting.waiters r hr⟩)
      rcases hheld with ⟨hheld, -⟩ | hnot
      · rw [hself] at ha
        cases ha
        exact hheld
      · have hm' := hstatus m hne hm
        rw [hnot] at hm'
        cases hm'

theorem pendingWaiting_acquire (h : c.PendingWaiting F) (hw : c.WaitersPending F)
    (hok : c.HeldUp F (.acquire n)) :
  (c.acquire F n).PendingWaiting F
  := by
  unfold acquire
  have htold : ∀ m, m ≠ n → ∀ r, c.HeldOrTold n m r →
      (c.tryResourceAcquisition F n).1.HeldOrTold n m r :=
    fun m hne r hm => heldOrTold_tryResourceAcquisition F hne hm
  rcases tryResourceAcquisition_spec F n c with ⟨hsuccess, hacquires⟩ | ⟨hfailure, hwaits⟩
  · dsimp only
    rw [hsuccess, if_pos rfl]
    apply pendingWaiting_acquires h hw hacquires
  · dsimp only
    rw [hfailure, if_neg Bool.false_ne_true]
    apply pendingWaiting_waits h hok hwaits htold

theorem pendingWaiting_getStateChangeNode (h : c.PendingWaiting F) (rest : List NodePtr) :
  (c.withQueues (Queues.getStateChangeNode n rest)).PendingWaiting F
  := by
  refine h.congr (fun m hpending hm => ⟨?_, (Queues.waits_getStateChangeNode hm).2⟩) rfl
  change m ∈ (c.queues.getStateChangeNode n rest).pending at hpending
  rwa [Queues.pending_getStateChangeNode] at hpending

/-- The transition of a node tells those who wait for what it releases. -/
theorem pendingWaiting_transitioned {rest : List NodePtr} (h : c.PendingWaiting F)
    (ht : Transitioned F n (c.withQueues (Queues.getStateChangeNode n rest)) c') :
  c'.PendingWaiting F
  := by
  have hbefore := pendingWaiting_getStateChangeNode (n := n) h rest
  obtain ⟨told, hqueues, htold⟩ := ht.queues_eq
  have hstatus : ∀ m, (c'.queues.status m).waits = true →
      m ∉ told ∧ (((c.queues.getStateChangeNode n rest).status m).waits = true) := by
    intro m hm
    rw [hqueues, Queues.waits_notifyAll] at hm
    apply Queues.waits_notifyAllResourceAvailable
    split at hm
    · exact Queues.waits_addFinishedRootNode hm
    · rw [Queues.waits_notify] at hm
      exact hm
  have hpending : ∀ m ∈ c'.queues.pending, m ∈ (c.queues.getStateChangeNode n rest).pending := by
    intro m hm
    rw [ht.pending_eq] at hm
    exact hm
  apply hbefore.of_others (n := n)
  · intro _ hn
    exact absurd rfl (Queues.waits_getStateChangeNode (hstatus n hn).2).1
  · exact fun m _ hp hm => ⟨hpending m hp, (hstatus m hm).2⟩
  · intro m _ r hm
    rw [ht.waiters_eq]
    exact hm
  · intro m _ hp hm r hr a _ ha
    rw [ht.reservable_eq]
    split
    · rename_i hreleased
      rw [Reservable.holder_released, if_neg]
      · exact ha
      · intro hself
        apply (hstatus m hm).1
        rw [htold]
        exact ⟨r, hreleased, hself,
          (hbefore m (hpending m hp) (hstatus m hm).2).waiters r hr⟩
    · exact ha

theorem Step.pendingWaiting {e : CoreEvent} (h : c.PendingWaiting F) (hw : c.WaitersPending F)
    (hq : c.queues.WellFormed) (hok : c.HeldUp F e) (hstep : Step F c e c') :
  c'.PendingWaiting F
  := by
  cases hstep
  case quiet hquiet =>
    apply h.congr _ hquiet.reservable
    intro m hpending hm
    rw [hquiet.queues] at hpending hm
    exact ⟨hpending, hm⟩
  case notify n hexists =>
    refine h.congr ?_ rfl
    intro m hpending hm
    change m ∈ (c.queues.notify n).pending at hpending
    change ((c.queues.notify n).status m).waits = true at hm
    rw [Queues.pending_notify] at hpending
    rw [Queues.waits_notify] at hm
    exact ⟨hpending, hm⟩
  case notifyResourceAvailable n hexists =>
    refine h.congr (fun m hpending hm => ⟨?_, Queues.waits_notifyResourceAvailable hm⟩) rfl
    change m ∈ (c.queues.notifyResourceAvailable n).pending at hpending
    rwa [Queues.pending_notifyResourceAvailable] at hpending
  case addPlan root hroot hadded =>
    refine h.congr ?_ rfl
    intro m hpending hm
    dsimp only at hpending hm
    rw [Queues.pending_notify] at hpending
    rw [Queues.waits_notify] at hm
    exact ⟨hpending, hm⟩
  case deleteFinishedPlans => exact h.congr (fun _ hp hm => ⟨hp, hm⟩) rfl
  case evaluate n rest d hcandidate hfinds => exact pendingWaiting_evaluateCandidate h
  case examine n d hpending hfinds => exact pendingWaiting_resourceCheckEligible h hw hq
  case acquire n hpending => exact pendingWaiting_acquire h hw hok
  case stay n rest hstateChange hnext => exact pendingWaiting_getStateChangeNode h rest
  case transition n rest hstateChange hnext ht => exact pendingWaiting_transitioned h ht

/-- A node of the pending queue holds nothing, where no resource leaks. -/
theorem Leakfree.holder_ne_of_pending (h : c.Leakfree F) (hq : c.queues.WellFormed)
    (hn : n ∈ c.queues.pending) (r : ReservableId) :
  (c.reservable r).holder ≠ some n
  := by
  intro hr
  rcases h.active r n hr with hactive | ⟨hqueued, -⟩
  · have hlegal := h.exclusive.legal n (.inl hn)
    unfold NextLegal at hlegal
    rw [h.exclusive.next n hn] at hlegal
    rw [legalSuccessor_executing hlegal] at hactive
    cases hactive
  · exact hq.disjoint n hn hqueued

end Core

namespace Exec

variable {F : Forest} {s : Exec}

/-- The wait lists and the pending queue agree: a node with the status QUEUE_PENDING is on the
wait lists of the resources it needs and waits for another node, a node on the wait list of a
resource needs it and is in the pending queue once, and a node with the status
QUEUE_PENDING is told of the release of each resource it needs. -/
structure WaitersCoherent (F : Forest) (s : Exec) : Prop where
  waiting : ∀ n, s.queues.status n = .pending →
    ∀ r ∈ (F.decl n).needs, n ∈ (s.reservable r).waiters
  held : ∀ n, s.queues.status n = .pending →
    ∃ r ∈ (F.decl n).needs, ∃ m, m ≠ n ∧ (s.reservable r).holder = some m
  needs : ∀ r, ∀ n ∈ (s.reservable r).waiters, r ∈ (F.decl n).needs
  pending : ∀ r, ∀ n ∈ (s.reservable r).waiters, s.queues.pending.count n = 1
  once : ∀ r, ∀ n ∈ (s.reservable r).waiters, (s.reservable r).waiters.count n = 1
  told : ∀ n, s.queues.status n = .pending → ∀ r ∈ (F.decl n).needs, ∀ m,
    (s.reservable r).holder = some m → (s.toCore.release m r).queues.status n = .pendingTry

/-- The condition on an event. -/
def KeepsWaiting (F : Forest) (s : Exec) (e : Event) : Prop :=
  s.toCore.KeepsWaiting F (s.coreEvent F e)

instance (F : Forest) (s : Exec) (e : Event) : Decidable (s.KeepsWaiting F e) :=
  inferInstanceAs (Decidable (Core.KeepsWaiting F _ _))

/-- The nodes of the pending queue wait in every run in which a node which tries to acquire its
resources is not kept from it by itself alone. -/
theorem Reachable.pendingWaiting {Allowed : Exec → Event → Prop}
    (hallowed : ∀ s e, Allowed s e → s.HeldUp F (s.coreEvent F e)) (h : Reachable F Allowed s) :
  s.toCore.PendingWaiting F
  := by
  have hboth : s.toCore.Exclusive F ∧ s.toCore.PendingWaiting F := by
    apply h.core_invariant (P := fun c => c.Exclusive F ∧ c.PendingWaiting F) (Core.HeldUp F)
    · exact fun s e _ _ h _ => hallowed s e h
    · exact fun _ _ => trivial
    · intro hierarchy w
      exact ⟨exclusive_initial hierarchy w, fun n hn => nomatch hn⟩
    · rintro c e c' hq ⟨hexclusive, hwaiting⟩ hok hstep
      exact ⟨hstep.exclusive hq hexclusive,
        hstep.pendingWaiting hwaiting hexclusive.waiters hq hok⟩
  exact hboth.2

/-- Where the queues are exact, the nodes which wait are all in the pending queue. -/
theorem Reachable.allWaiting (h : Reachable F (KeepsWaiting F) s) : s.toCore.AllWaiting F
  := by
  have hkept : Reachable F (RecheckKept F) s := by
    apply h.mono
    intro s e hkeeps n hn
    have hevent := coreEvent_of_examined hn
    unfold KeepsWaiting at hkeeps
    rw [hevent] at hkeeps
    exact hkeeps
  have hexact := hkept.exact
  have hwaiting := h.pendingWaiting fun s e hkeeps => Core.KeepsWaiting.heldUp hkeeps
  intro n hn
  apply hwaiting n _ hn
  apply hexact.queues.pending
  cases hstatus : s.queues.status n <;> rw [hstatus] at hn <;> cases hn <;> rfl

/-- In every run in which a node with the status QUEUE_PENDING_CHECK which is examined is
still to execute, and a node which tries to acquire its resources is not kept from it by
itself alone, the wait lists and the pending queue agree in all states. -/
theorem waitersCoherent_of_keepsWaiting (h : Reachable F (KeepsWaiting F) s) :
  s.WaitersCoherent F
  := by
  have hwaiting := h.allWaiting
  have hw := h.exclusive.waiters
  have hn (n : NodePtr) (hstatus : s.queues.status n = .pending) : s.toCore.Waiting F n := by
    apply hwaiting n
    rw [hstatus]
    rfl
  constructor
  case waiting => exact fun n hstatus => (hn n hstatus).waiters
  case held => exact fun n hstatus => (hn n hstatus).held
  case needs => exact hw.needs
  case pending =>
    intro r n hmem
    apply List.count_eq_one_of_mem (h.wellFormed.nodup .pending)
    exact hw.pending r n hmem
  case once =>
    intro r n hmem
    apply List.count_eq_one_of_mem (hw.nodup r) hmem
  case told =>
    intro n hstatus r hr m hm
    obtain ⟨told, hqueues, htold⟩ := (Core.release_spec m s.toCore r).queues
    have hmem : n ∈ told := by
      rw [htold]
      exact ⟨r, List.mem_singleton_self r, hm, (hn n hstatus).waiters r hr⟩
    rw [hqueues, Queues.notifyAllResourceAvailable_eq]
    dsimp only
    rw [if_pos hmem, hstatus]
    rfl

/-- Where no resource leaks, a node is never kept from its resources by itself. -/
theorem Reachable.keepsWaiting
    (h : Reachable F (fun s e => s.RecheckKept F e ∧ s.ReleasesAll F e) s) :
  Reachable F (KeepsWaiting F) s
  := by
  induction h with
  | init h => exact .init h
  | step hs allowed hstep ih =>
    apply StateMachine.Reachable.step ih _ hstep
    rename_i s s' e
    unfold KeepsWaiting Core.KeepsWaiting
    split
    · rename_i n d hevent
      obtain ⟨hexamined, rfl⟩ := examined_of_coreEvent hevent
      apply allowed.1 n hexamined
    · rename_i n hevent
      obtain ⟨rest, chain, hphase⟩ := coreEvent_eq_acquire hevent
      have hn : n ∈ s.queues.pending := by
        apply ih.walk.pending
        rw [hphase]
        exact List.mem_cons_self
      have hleakfree := Reachable.leakfree (hs.mono fun _ _ h => h.2)
      rintro ⟨r, -, hr⟩
      exact absurd hr (hleakfree.holder_ne_of_pending ih.wellFormed hn r)
    · trivial

/-- The second node waits for the mutex of the first one. -/
theorem waitersCoherent_of_keepsWaiting_sharedMutex :
  ∃ s, StateMachine.checkedRun (apply sharedMutex) (KeepsWaiting sharedMutex)
      ([.addPlan 0, .addPlan 1, .step 0] ++ Event.nexts 27 (startWorld true) ++
        [.change (startWorld true) [1], .step 0] ++ Event.nexts 5 (startWorld true))
      (initial ∅ (startWorld true)) = some s ∧
    s.queues.status 1 = .pending ∧ s.WaitersCoherent sharedMutex
  := by
  have hrun : (StateMachine.checkedRun (apply sharedMutex) (KeepsWaiting sharedMutex)
      ([.addPlan 0, .addPlan 1, .step 0] ++ Event.nexts 27 (startWorld true) ++
        [.change (startWorld true) [1], .step 0] ++ Event.nexts 5 (startWorld true))
      (initial ∅ (startWorld true))).map (fun s => s.queues.status 1) = some .pending := by
    decide +kernel
  obtain ⟨s, hs, hstatus⟩ := Option.map_eq_some_iff.mp hrun
  use s, hs, hstatus
  exact waitersCoherent_of_keepsWaiting (.of_checkedRun (.init ⟨_, _, rfl⟩) hs)

/-- The start condition becomes false while the second node waits for the mutex: the node has the
status QUEUE_PENDING and is not on the wait list of the mutex. -/
theorem not_waitersCoherent :
  ¬ ∀ s, Reachable sharedMutex (fun _ _ => True) s → s.WaitersCoherent sharedMutex
  := by
  intro h
  have hrun : (StateMachine.run (apply sharedMutex)
      ([.addPlan 0, .addPlan 1, .step 0] ++ Event.nexts 27 (startWorld true) ++
        [.change (startWorld false) [1], .step 0] ++ Event.nexts 5 (startWorld false))
      (initial ∅ (startWorld true))).map
      (fun s => (s.queues.status 1, (s.reservable (.mutex 0)).waiters)) = some (.pending, []) := by
    decide +kernel
  obtain ⟨s, hs, hstate⟩ := Option.map_eq_some_iff.mp hrun
  obtain ⟨hstatus, hwaiters⟩ := Prod.mk.inj hstate
  have hcoherent := h s (StateMachine.Reachable.of_run (.init ⟨_, _, rfl⟩) hs)
  have hmem := hcoherent.waiting 1 hstatus (.mutex 0) (by decide)
  rw [hwaiters] at hmem
  cases hmem

end Exec

end Plexil

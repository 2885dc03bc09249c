import Plexil.Exec.State

/-!
# The queues and the queue status

`Queues.WellFormed` relates the queues to the status of the nodes as far as it holds in
all runs.  A node with a status of the pending queue may be in the state change queue or
in no queue at all.  Every operation keeps it.
-/

namespace Plexil
namespace QueueStatus

/-- The status after `notify`. -/
def notified : QueueStatus → QueueStatus
  | .none => .check
  | .pending => .pendingCheck
  | .pendingTry => .pendingTryCheck
  | .transition => .transitionCheck
  | x => x

/-- The status after `notifyResourceAvailable`. -/
def resourceAvailable : QueueStatus → QueueStatus
  | .pending => .pendingTry
  | .pendingCheck => .pendingTryCheck
  | x => x

@[simp]
theorem queue_none : QueueStatus.none.queue = Option.none := rfl

@[simp]
theorem queue_eq_none (x : QueueStatus) : x.queue = Option.none ↔ x = .none
  := by
  cases x <;> simp [queue]

@[simp]
theorem queue_eq_candidate (x : QueueStatus) : x.queue = some .candidate ↔ x = .check
  := by
  cases x <;> simp [queue]

@[simp]
theorem queue_eq_finishedRoot (x : QueueStatus) : x.queue = some .finishedRoot ↔ x = .delete
  := by
  cases x <;> simp [queue]

theorem queue_notified {x : QueueStatus} (h : x ≠ .none) : x.notified.queue = x.queue
  := by
  cases x <;> first | contradiction | rfl

@[simp]
theorem notified_notified (x : QueueStatus) : x.notified.notified = x.notified
  := by
  cases x <;> rfl

@[simp]
theorem resourceAvailable_resourceAvailable (x : QueueStatus) :
  x.resourceAvailable.resourceAvailable = x.resourceAvailable
  := by
  cases x <;> rfl

@[simp]
theorem queue_resourceAvailable (x : QueueStatus) : x.resourceAvailable.queue = x.queue
  := by
  cases x <;> rfl

end QueueStatus

namespace Queues

variable {n m : NodePtr} {q : Queues} {x : QueueStatus}

/-! ### What the operations do -/

@[simp]
theorem setStatus_self : (q.setStatus n x).status n = x
  := Function.update_self ..

theorem setStatus_of_ne (h : m ≠ n) : (q.setStatus n x).status m = q.status m
  := Function.update_of_ne h ..

theorem status_setStatus : (q.setStatus n x).status m = if m = n then x else q.status m
  := by
  unfold setStatus Function.update
  simp

theorem setStatus_eq_self (h : q.status n = x) : q.setStatus n x = q
  := by
  unfold setStatus
  rw [← h, Function.update_eq_self]

/-- `notify` changes the status, and puts a node without a queue into the candidate
queue. -/
theorem notify_eq (n : NodePtr) (q : Queues) :
  ∃ error, q.notify n =
    { q.setStatus n (q.status n).notified with
      candidate := if q.status n = .none then q.candidate ++ [n] else q.candidate
      error }
  := by
  unfold notify
  cases h : q.status n <;> dsimp only [QueueStatus.notified]
  case none => exact ⟨_, rfl⟩
  case pending => exact ⟨_, rfl⟩
  case pendingTry => exact ⟨_, rfl⟩
  case transition => exact ⟨_, rfl⟩
  case delete =>
    rw [setStatus_eq_self h]
    exact ⟨_, rfl⟩
  case pendingTryCheck =>
    rw [setStatus_eq_self h]
    exact ⟨_, rfl⟩
  all_goals
    rw [setStatus_eq_self h]
    exact ⟨_, rfl⟩

theorem notifyResourceAvailable_eq (n : NodePtr) (q : Queues) :
  q.notifyResourceAvailable n = q.setStatus n (q.status n).resourceAvailable
  := by
  unfold notifyResourceAvailable
  cases h : q.status n <;> dsimp only [QueueStatus.resourceAvailable]
  all_goals rw [setStatus_eq_self h]

@[simp]
theorem candidate_notifyResourceAvailable :
  (q.notifyResourceAvailable n).candidate = q.candidate
  := by
  rw [notifyResourceAvailable_eq]
  rfl

@[simp]
theorem pending_notifyResourceAvailable : (q.notifyResourceAvailable n).pending = q.pending
  := by
  rw [notifyResourceAvailable_eq]
  rfl

@[simp]
theorem stateChange_notifyResourceAvailable :
  (q.notifyResourceAvailable n).stateChange = q.stateChange
  := by
  rw [notifyResourceAvailable_eq]
  rfl

@[simp]
theorem finishedRoot_notifyResourceAvailable :
  (q.notifyResourceAvailable n).finishedRoot = q.finishedRoot
  := by
  rw [notifyResourceAvailable_eq]
  rfl

theorem status_notify :
  (q.notify n).status m = if m = n then (q.status n).notified else q.status m
  := by
  obtain ⟨_, heq⟩ := notify_eq n q
  rw [heq]
  apply status_setStatus

theorem status_notifyResourceAvailable :
  (q.notifyResourceAvailable n).status m =
    if m = n then (q.status n).resourceAvailable else q.status m
  := by
  rw [notifyResourceAvailable_eq, status_setStatus]

@[simp]
theorem pending_notify : (q.notify n).pending = q.pending
  := by
  obtain ⟨_, heq⟩ := notify_eq n q
  rw [heq]
  rfl

@[simp]
theorem stateChange_notify : (q.notify n).stateChange = q.stateChange
  := by
  obtain ⟨_, heq⟩ := notify_eq n q
  rw [heq]
  rfl

@[simp]
theorem finishedRoot_notify : (q.notify n).finishedRoot = q.finishedRoot
  := by
  obtain ⟨_, heq⟩ := notify_eq n q
  rw [heq]
  rfl

variable (ns : List NodePtr)

@[simp]
theorem pending_notifyAll : (q.notifyAll ns).pending = q.pending
  := by
  unfold notifyAll
  induction ns generalizing q with
  | nil => rfl
  | cons n ns ih => exact ih.trans pending_notify

@[simp]
theorem stateChange_notifyAll : (q.notifyAll ns).stateChange = q.stateChange
  := by
  unfold notifyAll
  induction ns generalizing q with
  | nil => rfl
  | cons n ns ih => exact ih.trans stateChange_notify

@[simp]
theorem finishedRoot_notifyAll : (q.notifyAll ns).finishedRoot = q.finishedRoot
  := by
  unfold notifyAll
  induction ns generalizing q with
  | nil => rfl
  | cons n ns ih => exact ih.trans finishedRoot_notify

theorem status_notifyAll :
  (q.notifyAll ns).status m = if m ∈ ns then (q.status m).notified else q.status m
  := by
  unfold notifyAll
  induction ns generalizing q with
  | nil => simp
  | cons n ns ih =>
    rw [List.foldl_cons, ih, status_notify]
    by_cases hm : m = n
    · subst hm
      simp
    · simp [hm]

/-- The release of a resource changes only the status of nodes. -/
theorem notifyAllResourceAvailable_eq :
  q.notifyAllResourceAvailable ns =
    { q with
      status := fun m =>
        if m ∈ ns then (q.status m).resourceAvailable else q.status m }
  := by
  unfold notifyAllResourceAvailable
  induction ns generalizing q with
  | nil => simp
  | cons n ns ih =>
    rw [List.foldl_cons, ih, notifyResourceAvailable_eq]
    unfold setStatus
    congr 1
    funext m
    by_cases hm : m = n
    · subst hm
      simp
    · simp [hm]

theorem mem_candidate_notify (h : m ∈ (q.notify n).candidate) : m = n ∨ m ∈ q.candidate
  := by
  obtain ⟨_, heq⟩ := notify_eq n q
  rw [heq] at h
  dsimp only at h
  split at h
  · rcases List.mem_append.mp h with h | h
    · exact .inr h
    · exact .inl (List.mem_singleton.mp h)
  · exact .inr h

theorem mem_candidate_notifyAll {ns : List NodePtr} (h : m ∈ (q.notifyAll ns).candidate) :
  m ∈ ns ∨ m ∈ q.candidate
  := by
  unfold notifyAll at h
  induction ns generalizing q with
  | nil => exact .inr h
  | cons n ns ih =>
    rcases ih h with hm | hm
    · exact .inl (.tail n hm)
    · rcases mem_candidate_notify hm with rfl | hm
      · exact .inl (.head ns)
      · exact .inr hm

theorem mem_candidate_addFinishedRootNode (h : m ∈ (q.addFinishedRootNode n).candidate) :
  m ∈ q.candidate
  := by
  unfold addFinishedRootNode at h
  split at h
  · exact List.mem_of_mem_erase h
  all_goals exact h

theorem mem_candidate_getStateChangeNode {rest : List NodePtr}
    (h : m ∈ (q.getStateChangeNode n rest).candidate) :
  m = n ∨ m ∈ q.candidate
  := by
  unfold getStateChangeNode at h
  dsimp only at h
  split at h
  · have hm := mem_candidate_notify h
    exact hm
  · exact .inr h

@[simp]
theorem pending_addFinishedRootNode : (q.addFinishedRootNode n).pending = q.pending
  := by
  unfold addFinishedRootNode
  split <;> rfl

@[simp]
theorem pending_addStateChangeNode : (q.addStateChangeNode n).pending = q.pending
  := by
  unfold addStateChangeNode
  split <;> rfl

@[simp]
theorem stateChange_addFinishedRootNode :
  (q.addFinishedRootNode n).stateChange = q.stateChange
  := by
  unfold addFinishedRootNode
  split <;> rfl

@[simp]
theorem pending_getStateChangeNode {rest : List NodePtr} :
  (q.getStateChangeNode n rest).pending = q.pending
  := by
  unfold getStateChangeNode
  dsimp only
  split
  · apply pending_notify
  · rfl

@[simp]
theorem finishedRoot_getStateChangeNode {rest : List NodePtr} :
  (q.getStateChangeNode n rest).finishedRoot = q.finishedRoot
  := by
  unfold getStateChangeNode
  dsimp only
  split
  · exact finishedRoot_notify
  · rfl

theorem mem_finishedRoot_addFinishedRootNode (h : m ∈ (q.addFinishedRootNode n).finishedRoot) :
  m = n ∨ m ∈ q.finishedRoot
  := by
  unfold addFinishedRootNode at h
  split at h
  · simpa [or_comm] using h
  · simpa [or_comm] using h
  · exact .inr h
  · exact .inr h

@[simp]
theorem stateChange_getStateChangeNode {rest : List NodePtr} :
  (q.getStateChangeNode n rest).stateChange = rest
  := by
  unfold getStateChangeNode
  dsimp only
  split
  · apply stateChange_notify
  · rfl

theorem status_removePending :
  (q.removePending n).status m = if m = n then .none else q.status m
  := status_setStatus

theorem status_addStateChangeNode (h : q.status n = .none) :
  (q.addStateChangeNode n).status m = if m = n then .transition else q.status m
  := by
  unfold addStateChangeNode
  rw [h]
  apply status_setStatus

/-! ### Well-formed queues -/

/-- What relates the queues to the queue status in all runs. -/
structure WellFormed (q : Queues) : Prop where
  nodup : ∀ k, (q.members k).Nodup
  mem_of_queue : ∀ n k, (q.status n).queue = some k → k = .candidate ∨ k = .stateChange →
    n ∈ q.members k
  queue_of_mem : ∀ n k, n ∈ q.members k →
    (q.status n).queue = some k ∨ (k = .stateChange ∧ (q.status n).queue = some .pending)
  disjoint : ∀ n ∈ q.members .pending, n ∉ q.members .stateChange

namespace WellFormed

theorem mem_candidate (h : q.WellFormed) (n : NodePtr) : n ∈ q.candidate ↔ q.status n = .check
  := by
  rw [← QueueStatus.queue_eq_candidate]
  constructor
  · intro hn
    rcases h.queue_of_mem n .candidate hn with hq | ⟨hk, -⟩
    · exact hq
    · cases hk
  · intro hq
    exact h.mem_of_queue n .candidate hq (.inl rfl)

theorem queue_of_pending (h : q.WellFormed) (hn : n ∈ q.pending) :
  (q.status n).queue = some .pending
  := by
  rcases h.queue_of_mem n .pending hn with hq | ⟨hk, -⟩
  · exact hq
  · cases hk

/-- A node is in at most one queue. -/
theorem unique (h : q.WellFormed) {k j : QueueName} (hk : n ∈ q.members k)
    (hj : n ∈ q.members j) :
  k = j
  := by
  rcases h.queue_of_mem n k hk with hqk | ⟨rfl, hqk⟩
  · rcases h.queue_of_mem n j hj with hqj | ⟨rfl, hqj⟩
    · exact Option.some.inj (hqk.symm.trans hqj)
    · cases Option.some.inj (hqk.symm.trans hqj)
      exact absurd hj (h.disjoint n hk)
  · rcases h.queue_of_mem n j hj with hqj | ⟨rfl, -⟩
    · cases Option.some.inj (hqk.symm.trans hqj)
      exact absurd hk (h.disjoint n hj)
    · rfl

/-- A node without a queue status is in no queue. -/
theorem notMem_of_none (h : q.WellFormed) (hn : q.status n = .none) (k : QueueName) :
  n ∉ q.members k
  := by
  intro hmem
  simpa [hn] using h.queue_of_mem n k hmem

/-- Only the queue given by the status matters. -/
theorem congr {q q' : Queues} (h : q.WellFormed)
    (hqueue : ∀ n, (q'.status n).queue = (q.status n).queue)
    (hmembers : ∀ k, q'.members k = q.members k) :
  q'.WellFormed
  := by
  constructor
  case nodup =>
    intro k
    rw [hmembers]
    exact h.nodup k
  case mem_of_queue =>
    intro n k
    rw [hqueue, hmembers]
    exact h.mem_of_queue n k
  case queue_of_mem =>
    intro n k
    rw [hqueue, hmembers]
    exact h.queue_of_mem n k
  case disjoint =>
    rw [hmembers, hmembers]
    exact h.disjoint

theorem setStatus (h : q.WellFormed) (hx : x.queue = (q.status n).queue) :
  (q.setStatus n x).WellFormed
  := by
  apply h.congr
  · intro m
    rw [status_setStatus]
    split
    · rename_i hm
      rw [hx, hm]
    · rfl
  · intro k
    cases k <;> rfl

/-- The status of a node which is in no queue or in the state change queue can become one
of the pending queue. -/
theorem setPending (h : q.WellFormed) (hcandidate : q.status n ≠ .check)
    (hfinished : q.status n ≠ .delete) :
  (q.setStatus n .pending).WellFormed
  := by
  have hmembers (k : QueueName) : (q.setStatus n .pending).members k = q.members k := by
    cases k <;> rfl
  constructor
  case nodup =>
    intro k
    rw [hmembers]
    exact h.nodup k
  case mem_of_queue =>
    intro m k
    rw [hmembers, status_setStatus]
    split
    · rintro hk (rfl | rfl) <;> cases hk
    · exact h.mem_of_queue m k
  case queue_of_mem =>
    intro m k
    rw [hmembers, status_setStatus]
    intro hm
    split
    · rename_i hmn
      subst hmn
      rcases h.queue_of_mem m k hm with hq | ⟨rfl, hq⟩
      · cases k
        case candidate => exact absurd ((QueueStatus.queue_eq_candidate _).mp hq) hcandidate
        case pending => exact .inl rfl
        case stateChange => exact .inr ⟨rfl, rfl⟩
        case finishedRoot => exact absurd ((QueueStatus.queue_eq_finishedRoot _).mp hq) hfinished
      · exact .inr ⟨rfl, rfl⟩
    · exact h.queue_of_mem m k hm
  case disjoint =>
    rw [hmembers, hmembers]
    exact h.disjoint

/-- The finished nodes are forgotten. -/
theorem clearFinishedRoot (h : q.WellFormed) : WellFormed { q with finishedRoot := [] }
  := by
  have hmem {m : NodePtr} {k : QueueName}
      (hm : m ∈ ({ q with finishedRoot := [] } : Queues).members k) : m ∈ q.members k := by
    cases k
    case finishedRoot => cases hm
    all_goals exact hm
  constructor
  case nodup =>
    intro k
    cases k
    case candidate => exact h.nodup .candidate
    case pending => exact h.nodup .pending
    case stateChange => exact h.nodup .stateChange
    case finishedRoot => exact List.nodup_nil
  case mem_of_queue =>
    rintro m k hq (rfl | rfl)
    · exact h.mem_of_queue m .candidate hq (.inl rfl)
    · exact h.mem_of_queue m .stateChange hq (.inr rfl)
  case queue_of_mem =>
    intro m k hm
    exact h.queue_of_mem m k (hmem hm)
  case disjoint => exact h.disjoint

/-- A node without a queue joins the queue of its new status. -/
theorem join (h : q.WellFormed) (hn : q.status n = .none) {k : QueueName}
    (hx : x.queue = some k) {q' : Queues}
    (hstatus : ∀ m, q'.status m = if m = n then x else q.status m)
    (hself : (q'.members k).Perm (n :: q.members k))
    (hothers : ∀ j, j ≠ k → q'.members j = q.members j) :
  q'.WellFormed
  := by
  have fresh := h.notMem_of_none hn
  have hmem (m : NodePtr) (j : QueueName) :
      m ∈ q'.members j ↔ (m = n ∧ j = k) ∨ m ∈ q.members j := by
    by_cases hj : j = k
    · subst hj
      rw [hself.mem_iff, List.mem_cons]
      simp
    · rw [hothers j hj]
      simp [hj]
  constructor
  case nodup =>
    intro j
    by_cases hj : j = k
    · subst hj
      rw [hself.nodup_iff, List.nodup_cons]
      exact ⟨fresh j, h.nodup j⟩
    · rw [hothers j hj]
      exact h.nodup j
  case mem_of_queue =>
    intro m j
    rw [hstatus, hmem]
    split
    · rename_i hm
      intro hq _
      exact .inl ⟨hm, Option.some.inj (hq.symm.trans hx)⟩
    · intro hq hj
      exact .inr (h.mem_of_queue m j hq hj)
  case queue_of_mem =>
    intro m j
    rw [hstatus, hmem]
    rintro (⟨rfl, rfl⟩ | hm)
    · rw [if_pos rfl]
      exact .inl hx
    · rw [if_neg (ne_of_mem_of_not_mem hm (fresh j))]
      exact h.queue_of_mem m j hm
  case disjoint =>
    intro m hp hs
    rcases (hmem m .pending).mp hp with ⟨rfl, hk⟩ | hp
    · rcases (hmem m .stateChange).mp hs with ⟨-, hk'⟩ | hs
      · exact QueueName.noConfusion (hk.trans hk'.symm)
      · exact fresh .stateChange hs
    · rcases (hmem m .stateChange).mp hs with ⟨rfl, -⟩ | hs
      · exact fresh .pending hp
      · exact h.disjoint m hp hs

/-- A node leaves its queue. -/
theorem leave (h : q.WellFormed) {k : QueueName} (hn : n ∈ q.members k) {q' : Queues}
    (hstatus : ∀ m, q'.status m = if m = n then .none else q.status m)
    (hself : q'.members k = (q.members k).erase n)
    (hothers : ∀ j, j ≠ k → q'.members j = q.members j) :
  q'.WellFormed
  := by
  have hmem (m : NodePtr) (j : QueueName) :
      m ∈ q'.members j ↔ m ≠ n ∧ m ∈ q.members j := by
    by_cases hj : j = k
    · subst hj
      rw [hself, (h.nodup j).mem_erase_iff]
    · rw [hothers j hj]
      constructor
      · intro hm
        constructor
        · rintro rfl
          exact hj (h.unique hm hn)
        · exact hm
      · exact And.right
  constructor
  case nodup =>
    intro j
    by_cases hj : j = k
    · subst hj
      rw [hself]
      exact (h.nodup j).erase n
    · rw [hothers j hj]
      exact h.nodup j
  case mem_of_queue =>
    intro m j
    rw [hstatus, hmem]
    split
    · intro hq
      cases hq
    · rename_i hm
      intro hq hj
      exact ⟨hm, h.mem_of_queue m j hq hj⟩
  case queue_of_mem =>
    intro m j
    rw [hstatus, hmem]
    rintro ⟨hm, hj⟩
    rw [if_neg hm]
    exact h.queue_of_mem m j hj
  case disjoint =>
    intro m hp hs
    exact h.disjoint m ((hmem m .pending).mp hp).2 ((hmem m .stateChange).mp hs).2

end WellFormed

/-! ### The operations -/

namespace WellFormed

theorem notify (h : q.WellFormed) (n : NodePtr) : (q.notify n).WellFormed
  := by
  obtain ⟨error, heq⟩ := notify_eq n q
  rw [heq]
  by_cases hn : q.status n = .none
  · apply h.join hn (x := (q.status n).notified) (k := .candidate)
    · rw [hn]
      rfl
    · intro m
      apply status_setStatus
    · rw [if_pos hn]
      exact List.perm_append_singleton ..
    · intro j hj
      cases j <;> first | rfl | contradiction
  · rw [if_neg hn]
    apply (h.setStatus (QueueStatus.queue_notified hn)).congr
    · exact fun _ => rfl
    · intro k
      cases k <;> rfl

theorem notifyResourceAvailable (h : q.WellFormed) (n : NodePtr) :
  (q.notifyResourceAvailable n).WellFormed
  := by
  rw [notifyResourceAvailable_eq]
  apply h.setStatus
  apply QueueStatus.queue_resourceAvailable

theorem notifyAll (h : q.WellFormed) (ns : List NodePtr) : (q.notifyAll ns).WellFormed
  := by
  unfold Queues.notifyAll
  induction ns generalizing q with
  | nil => exact h
  | cons n ns ih => exact ih (h.notify n)

theorem notifyAllResourceAvailable (h : q.WellFormed) (ns : List NodePtr) :
  (q.notifyAllResourceAvailable ns).WellFormed
  := by
  unfold Queues.notifyAllResourceAvailable
  induction ns generalizing q with
  | nil => exact h
  | cons n ns ih => exact ih (h.notifyResourceAvailable n)

theorem fail (h : q.WellFormed) (e : ExecError) : (q.fail e).WellFormed
  := by
  apply h.congr
  · exact fun _ => rfl
  · intro k
    cases k <;> rfl

theorem getCandidateNode (h : q.WellFormed) {rest : List NodePtr}
    (hq : q.candidate = n :: rest) :
  (q.getCandidateNode n rest).WellFormed
  := by
  apply h.leave (n := n) (k := .candidate)
  · unfold members
    simp [hq]
  · intro m
    apply status_setStatus
  · unfold members
    dsimp only [Queues.getCandidateNode]
    rw [hq, List.erase_cons_head]
  · intro j hj
    cases j <;> first | rfl | contradiction

theorem getStateChangeNode (h : q.WellFormed) {rest : List NodePtr}
    (hq : q.stateChange = n :: rest) :
  (q.getStateChangeNode n rest).WellFormed
  := by
  have taken : WellFormed { q.setStatus n .none with stateChange := rest } := by
    apply h.leave (n := n) (k := .stateChange)
    · unfold members
      simp [hq]
    · intro m
      apply status_setStatus
    · unfold members
      dsimp only
      rw [hq, List.erase_cons_head]
    · intro j hj
      cases j <;> first | rfl | contradiction
  unfold Queues.getStateChangeNode
  dsimp only
  split
  · exact taken.notify n
  · exact taken

theorem addStateChangeNode (h : q.WellFormed) (n : NodePtr) :
  (q.addStateChangeNode n).WellFormed
  := by
  unfold Queues.addStateChangeNode
  split
  · rename_i hn
    apply h.join hn (x := .transition) (k := .stateChange) rfl
    · intro m
      apply status_setStatus
    · exact List.perm_append_singleton ..
    · intro j hj
      cases j <;> first | rfl | contradiction
  · exact h.fail _

theorem addPendingNode (h : q.WellFormed) (priority : NodePtr → Int) (hn : q.status n = .none) :
  (q.addPendingNode priority n).WellFormed
  := by
  apply h.join hn (x := .pendingTry) (k := .pending) rfl
  · intro m
    apply status_setStatus
  · exact PriorityQueue.insert_perm ..
  · intro j hj
    cases j <;> first | rfl | contradiction

theorem removePending (h : q.WellFormed) (hn : n ∈ q.pending) :
  (q.removePending n).WellFormed
  := by
  apply h.leave (n := n) (k := .pending) hn
  · intro m
    apply status_setStatus
  · rfl
  · intro j hj
    cases j <;> first | rfl | contradiction

theorem addFinishedRootNode (h : q.WellFormed) (n : NodePtr) :
  (q.addFinishedRootNode n).WellFormed
  := by
  unfold Queues.addFinishedRootNode
  split
  · rename_i hn
    -- The node leaves the candidate queue and then joins the other one.
    have left : WellFormed { q.setStatus n .none with candidate := q.candidate.erase n } := by
      apply h.leave (n := n) (k := .candidate)
      · exact (h.mem_candidate n).mpr hn
      · intro m
        apply status_setStatus
      · rfl
      · intro j hj
        cases j <;> first | rfl | contradiction
    apply left.join (n := n) setStatus_self (x := .delete) (k := .finishedRoot) rfl
    · intro m
      dsimp only
      rw [status_setStatus, status_setStatus]
      split <;> rfl
    · exact List.perm_append_singleton ..
    · intro j hj
      cases j <;> first | rfl | contradiction
  · rename_i hn
    apply h.join hn (x := .delete) (k := .finishedRoot) rfl
    · intro m
      apply status_setStatus
    · exact List.perm_append_singleton ..
    · intro j hj
      cases j <;> first | rfl | contradiction
  · exact h
  · exact h.fail _

end WellFormed
end Queues
end Plexil

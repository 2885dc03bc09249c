import Plexil.Exec.CoreStep

/-!
# A node is considered

The evaluation of a candidate, a second look at a node of the pending queue and an attempt
to acquire resources have much in common: one node may get a new destination and another
queue, and the rest stays as it is.  `Core.Considered` is what the invariants need of them.
-/

namespace Plexil
namespace Core

variable {F : Forest} {n m : NodePtr} {rest : List NodePtr} {d : Option Dest} {c c' : Core}

/-- The waiting lists have nodes of the pending queue, each at the resources it needs. -/
structure WaitersPending (F : Forest) (c : Core) : Prop where
  nodup : ∀ r, (c.reservable r).waiters.Nodup
  pending : ∀ r, ∀ n ∈ (c.reservable r).waiters, n ∈ c.queues.pending
  needs : ∀ r, ∀ n ∈ (c.reservable r).waiters, r ∈ (F.decl n).needs

/-- The next state of the node is a legal successor of its state. -/
def NextLegal (F : Forest) (n : NodePtr) (c : Core) : Prop :=
  legalSuccessor (F.decl n).nodeType (c.node n).state (c.node n).nextState = true

/-- The node holds all resources it needs. -/
def HoldsNeeds (F : Forest) (n : NodePtr) (c : Core) : Prop :=
  ∀ r ∈ (F.decl n).needs, (c.reservable r).holder = some n

/-- The node is taken from its queue and put into the queue `k`, if any. -/
def Placed (n : NodePtr) (k : Option QueueName) (q q' : Queues) : Prop :=
  ∀ m j, m ∈ q'.members j ↔ (m = n ∧ k = some j) ∨ (m ≠ n ∧ m ∈ q.members j)

/-- What is done to a node which is considered and then belongs to the queue `k`. -/
structure Considered (F : Forest) (n : NodePtr) (k : Option QueueName) (c c' : Core) : Prop where
  plan : c'.plan = c.plan
  added : c'.added = c.added
  others : ∀ m, m ≠ n → c'.node m = c.node m
  state : (c'.node n).state = (c.node n).state
  place : k = none ∨ k = some .pending ∨ k = some .stateChange
  placed : Placed n k c.queues c'.queues
  next : k = some .pending → (c'.node n).nextState = .executing
  legal : k ≠ none → c'.NextLegal F n
  holds : k = some .stateChange → (c'.node n).nextState = .executing → c'.HoldsNeeds F n
  holder : ∀ r, (c'.reservable r).holder = (c.reservable r).holder ∨
    ((c.reservable r).holder = none ∧ (c'.reservable r).holder = some n ∧
      r ∈ (F.decl n).needs ∧ k = some .stateChange ∧ (c'.node n).nextState = .executing) ∨
    ((c.reservable r).holder = some n ∧ (c'.reservable r).holder = none ∧
      (c.node n).state = .waiting)
  waiters : c'.WaitersPending F

/-! ### Places -/

theorem Placed.others {k : Option QueueName} {q q' : Queues} (h : Placed n k q q') (hm : m ≠ n)
    (j : QueueName) :
  m ∈ q'.members j ↔ m ∈ q.members j
  := by
  rw [h m j]
  simp [hm]

theorem Placed.trans {k k' : Option QueueName} {q q' q'' : Queues} (h : Placed n k q q')
    (h' : Placed n k' q' q'') :
  Placed n k' q q''
  := by
  intro m j
  rw [h' m j, h m j]
  by_cases hm : m = n <;> simp [hm]

/-- The status of nodes does not matter. -/
theorem Placed.congr {k : Option QueueName} {q q' q'' : Queues} (h : Placed n k q q')
    (hmembers : ∀ j, q''.members j = q'.members j) :
  Placed n k q q''
  := by
  intro m j
  rw [hmembers]
  exact h m j

/-- A node which leaves the only queue it is in. -/
theorem placed_none {q q' : Queues} {k : QueueName} (hq : q.WellFormed) (hn : n ∈ q.members k)
    (hself : ∀ m, m ∈ q'.members k ↔ m ≠ n ∧ m ∈ q.members k)
    (hothers : ∀ j, j ≠ k → q'.members j = q.members j) :
  Placed n none q q'
  := by
  intro m j
  by_cases hj : j = k
  · subst hj
    rw [hself]
    simp
  · rw [hothers j hj]
    have : m ∈ q.members j → m ≠ n := by
      rintro hm rfl
      exact hj (hq.unique hm hn)
    simpa using this

theorem placed_getCandidateNode {q : Queues} (hq : q.WellFormed) (hcandidate : q.candidate = n :: rest) :
  Placed n none q (q.getCandidateNode n rest)
  := by
  have hmem : n ∈ q.members .candidate := by
    simp [Queues.members, hcandidate]
  apply placed_none hq hmem
  · intro m
    have herase : rest = (q.members .candidate).erase n := by
      simp [Queues.members, hcandidate]
    change m ∈ rest ↔ _
    rw [herase]
    exact (hq.nodup .candidate).mem_erase_iff
  · intro j hj
    cases j <;> first | rfl | contradiction

theorem placed_removePending {q : Queues} (hq : q.WellFormed) (hn : n ∈ q.pending) :
  Placed n none q (q.removePending n)
  := by
  apply placed_none hq (k := .pending) hn
  · intro m
    exact (hq.nodup .pending).mem_erase_iff
  · intro j hj
    cases j <;> first | rfl | contradiction

/-- A node which joins a queue. -/
theorem placed_some {q q' : Queues} {k : QueueName} (hq : q.WellFormed) (hn : q.status n = .none)
    (hself : ∀ m, m ∈ q'.members k ↔ m = n ∨ m ∈ q.members k)
    (hothers : ∀ j, j ≠ k → q'.members j = q.members j) :
  Placed n (some k) q q'
  := by
  have fresh := hq.notMem_of_none hn
  intro m j
  by_cases hm : m = n
  · subst hm
    by_cases hj : j = k
    · simp [hj, hself]
    · rw [hothers j hj]
      simp [fresh j, Ne.symm hj]
  · by_cases hj : j = k
    · simp [hj, hself, hm]
    · rw [hothers j hj]
      simp [hm]

theorem placed_addPendingNode {q : Queues} (priority : NodePtr → Int) (hq : q.WellFormed)
    (hn : q.status n = .none) :
  Placed n (some .pending) q (q.addPendingNode priority n)
  := by
  apply placed_some hq hn
  · intro m
    exact PriorityQueue.mem_insert
  · intro j hj
    cases j <;> first | rfl | contradiction

theorem placed_addStateChangeNode {q : Queues} (hq : q.WellFormed) (hn : q.status n = .none) :
  Placed n (some .stateChange) q (q.addStateChangeNode n)
  := by
  unfold Queues.addStateChangeNode
  rw [hn]
  apply placed_some hq hn
  · intro m
    change m ∈ q.stateChange ++ [n] ↔ _
    simp [Queues.members, or_comm]
  · intro j hj
    cases j <;> first | rfl | contradiction

/-- A node of the pending queue stays where it is. -/
theorem placed_refl {q : Queues} {k : QueueName} (hq : q.WellFormed) (hn : n ∈ q.members k) :
  Placed n (some k) q q
  := by
  intro m j
  by_cases hm : m = n
  · subst hm
    have : m ∈ q.members j ↔ k = j :=
      ⟨fun hj => hq.unique hn hj, fun hj => hj ▸ hn⟩
    simpa using this
  · simp [hm]

/-! ### The evaluation of a candidate -/

/-- A change of the waiting lists to which only nodes of the pending queue belong. -/
theorem WaitersPending.congr (h : c.WaitersPending F)
    (hreservable : ∀ r, (c'.reservable r).waiters = (c.reservable r).waiters)
    (hpending : ∀ m ∈ c.queues.pending, m ∈ c'.queues.pending) :
  c'.WaitersPending F
  := by
  constructor
  case nodup =>
    intro r
    rw [hreservable]
    exact h.nodup r
  case pending =>
    intro r m
    rw [hreservable]
    exact fun hm => hpending m (h.pending r m hm)
  case needs =>
    intro r m
    rw [hreservable]
    exact h.needs r m

/-- A node which has found a destination is placed accordingly, and the resources stay as
they are. -/
theorem considered_of_dest {k : Option QueueName} {q : Queues} {error : Option ExecError}
    (hw : c.WaitersPending F) (hfinds : c.Finds F n d) (place : k = none ∨ k = some .pending ∨ k = some .stateChange)
    (placed : Placed n k c.queues q) (hpending : k = some .pending ∨ n ∉ c.queues.pending)
    (some_of_place : k ≠ none → d ≠ none)
    (executes_of_pending : k = some .pending → executes d)
    (needs_nil : k = some .stateChange → executes d → (F.decl n).needs = []) :
  Considered F n k c
    { c with node := Function.update c.node n ((c.node n).setDest d), queues := q, error }
  := by
  have hself : Function.update c.node n ((c.node n).setDest d) n = (c.node n).setDest d :=
    Function.update_self ..
  have hexecutes : d ≠ none → (((c.node n).setDest d).nextState = .executing ↔ executes d) := by
    intro hd
    cases d with
    | none => contradiction
    | some d => simp [executes, NodeImpl.setDest]
  constructor
  case plan => rfl
  case added => rfl
  case others => exact fun m hm => Function.update_of_ne hm ..
  case state =>
    dsimp only
    rw [hself]
    cases d <;> rfl
  case place => exact place
  case placed => exact placed
  case next =>
    rintro rfl
    dsimp only
    rw [hself]
    exact (hexecutes (some_of_place (by simp))).mpr (executes_of_pending rfl)
  case legal =>
    intro hk
    cases d with
    | none => exact absurd rfl (some_of_place hk)
    | some d =>
      unfold NextLegal
      dsimp only
      rw [hself]
      exact hfinds.legal
  case holds =>
    rintro rfl hnext r hr
    dsimp only at hnext
    rw [hself] at hnext
    rw [needs_nil rfl ((hexecutes (some_of_place (by simp))).mp hnext)] at hr
    cases hr
  case holder => exact fun r => .inl rfl
  case waiters =>
    apply hw.congr
    · exact fun _ => rfl
    · intro m hm
      apply (placed m .pending).mpr
      by_cases hmn : m = n
      · exact .inl ⟨hmn, hpending.resolve_right (not_not_intro (hmn ▸ hm))⟩
      · exact .inr ⟨hmn, hm⟩

theorem considered_evaluate (hq : c.queues.WellFormed) (hw : c.WaitersPending F)
    (hcandidate : c.queues.candidate = n :: rest)
    (hfinds : c.Finds F n d) :
  ∃ k, Considered F n k c (c.evaluateCandidate F n rest d) ∧ (k ≠ none ↔ d ≠ none)
  := by
  obtain ⟨error, heq⟩ := evaluateCandidate_eq F n rest d c
  have taken := hq.getCandidateNode hcandidate
  have hnone : (c.queues.getCandidateNode n rest).status n = .none := Queues.setStatus_self
  have left := placed_getCandidateNode hq hcandidate
  have hpending : n ∉ c.queues.pending := by
    intro hn
    have hmem : n ∈ c.queues.members .candidate := by
      simp [Queues.members, hcandidate]
    cases hq.unique hmem (j := .pending) hn
  rw [heq]
  cases d with
  | none =>
    refine ⟨none, ?_, by simp⟩
    apply considered_of_dest hw hfinds (.inl rfl) left (.inr hpending) <;> simp
  | some d =>
    by_cases hd : d.state = .executing ∧ (F.decl n).acquiresResources = true
    · refine ⟨some .pending, ?_, by simp⟩
      dsimp only
      rw [if_pos hd]
      apply considered_of_dest hw hfinds (.inr (.inl rfl))
        (left.trans (placed_addPendingNode F.priority taken hnone)) (.inr hpending)
      · simp
      · exact fun _ => ⟨d, rfl, hd.1⟩
      · simp
    · refine ⟨some .stateChange, ?_, by simp⟩
      dsimp only
      rw [if_neg hd]
      apply considered_of_dest hw hfinds (.inr (.inr rfl))
        (left.trans (placed_addStateChangeNode taken hnone)) (.inr hpending)
      · simp
      · simp
      · rintro - ⟨d', hd', hexec⟩
        cases hd'
        apply NodeDecl.needs_eq_nil
        simpa [hexec] using hd

theorem node_evaluateCandidate (F : Forest) (n : NodePtr) (rest : List NodePtr) (d : Option Dest)
    (c : Core) :
  (c.evaluateCandidate F n rest d).node n = (c.node n).setDest d
  := by
  obtain ⟨error, heq⟩ := evaluateCandidate_eq F n rest d c
  rw [heq]
  exact Function.update_self ..

theorem node_resourceCheckEligible (F : Forest) (n : NodePtr) (d : Option Dest) (c : Core) :
  (c.resourceCheckEligible F n d).1.node = c.node ∨
    (c.resourceCheckEligible F n d).1.node =
      Function.update c.node n ((c.node n).setDest d)
  := by
  obtain ⟨error, hrecheck⟩ := recheckPending_eq F n d c
  have hnode : (c.recheckPending F n d).1.node =
      Function.update c.node n ((c.node n).setDest d) := by
    rcases hrecheck with ⟨-, heq⟩ | ⟨-, heq⟩ <;> rw [heq] <;> rfl
  unfold resourceCheckEligible
  split
  · exact .inr hnode
  · exact .inr hnode
  all_goals exact .inl rfl

theorem node_acquire (F : Forest) (n : NodePtr) (c : Core) :
  (c.acquire F n).node = c.node
  := by
  rcases acquire_eq F n c with ⟨c₁, h, heq⟩ | ⟨c₁, h, heq⟩
  · rw [heq]
    exact h.node
  · rw [heq]
    exact h.node

/-! ### A second look at a node of the pending queue -/

/-- A node of the pending queue which stays there. -/
theorem considered_stay (hq : c.queues.WellFormed) (hw : c.WaitersPending F)
    (hn : n ∈ c.queues.pending) (hnext : (c.node n).nextState = .executing)
    (hlegal : c.NextLegal F n) (error : Option ExecError) :
  Considered F n (some .pending) c { c with error }
  := by
  constructor
  case others => exact fun _ _ => rfl
  case place => exact .inr (.inl rfl)
  case placed => exact placed_refl hq hn
  case next => exact fun _ => hnext
  case legal => exact fun _ => hlegal
  case holds =>
    intro hk
    cases hk
  case holder => exact fun _ => .inl rfl
  case waiters => exact hw.congr (fun _ => rfl) fun _ hm => hm
  all_goals rfl

/-- The status of the node does not matter. -/
theorem Considered.setStatus {k : Option QueueName} (h : Considered F n k c c')
    (x : QueueStatus) :
  Considered F n k c (c'.withQueues (Queues.setStatus n x))
  := by
  have hmembers (j : QueueName) : (c'.queues.setStatus n x).members j = c'.queues.members j := by
    cases j <;> rfl
  constructor
  case plan => exact h.plan
  case added => exact h.added
  case others => exact h.others
  case state => exact h.state
  case place => exact h.place
  case placed => exact h.placed.congr hmembers
  case next => exact h.next
  case legal => exact h.legal
  case holds => exact h.holds
  case holder => exact h.holder
  case waiters => exact h.waiters.congr (fun _ => rfl) fun _ hm => hm

/-- The waiting lists when a node leaves the pending queue. -/
theorem WaitersPending.removePendingNode (h : c.WaitersPending F) {q : Queues}
    (hpending : ∀ m, m ≠ n → m ∈ c.queues.pending → m ∈ q.pending)
    (hreservable : ∀ r, (c'.reservable r).waiters.Nodup ∧
      ∀ m ∈ (c'.reservable r).waiters, m ∈ (c.reservable r).waiters) :
  ({ c'.removePendingNode F n with queues := q }).WaitersPending F
  := by
  have removed := removePendingNode_reservable (c := c') F n fun r => (hreservable r).1
  constructor
  case nodup => exact fun r => (removed r).2.1
  case pending =>
    intro r m hm
    obtain ⟨hm, hne⟩ := ((removed r).2.2 m).mp hm
    have hm' := (hreservable r).2 m hm
    apply hpending m _ (h.pending r m hm')
    rintro rfl
    exact hne (h.needs r m hm') rfl
  case needs =>
    intro r m hm
    exact h.needs r m ((hreservable r).2 m (((removed r).2.2 m).mp hm).1)

theorem queues_leavePending {q : Queues} (hq : q.WellFormed) (hn : n ∈ q.pending)
    (gone : Prop) [Decidable gone] :
  Placed n (if gone then none else some .stateChange) q
    ((if gone then id else Queues.addStateChangeNode n) (q.removePending n))
  := by
  have left := placed_removePending hq hn
  split
  · exact left
  · exact left.trans (placed_addStateChangeNode (hq.removePending hn) Queues.setStatus_self)

/-- A node which no longer is to execute leaves the pending queue. -/
theorem considered_leave (hq : c.queues.WellFormed) (hw : c.WaitersPending F)
    (hn : n ∈ c.queues.pending) (hfinds : c.Finds F n d) (hd : ¬ executes d)
    (error : Option ExecError) :
  Considered F n (if d = none then none else some .stateChange) c
    (((c.withDest n d error).removePendingNode F n).withQueues
      (if d = none then id else Queues.addStateChangeNode n))
  := by
  have hself : ((c.withDest n d error).node n) = (c.node n).setDest d := Function.update_self ..
  have placed := queues_leavePending hq hn (d = none)
  have hnodup : ∀ r, (((c.withDest n d error).reservable r).waiters.Nodup ∧
      ∀ m ∈ ((c.withDest n d error).reservable r).waiters, m ∈ (c.reservable r).waiters) :=
    fun r => ⟨hw.nodup r, fun _ hm => hm⟩
  have hnext : (c.withDest n d error |>.node n).nextState ≠ .executing := by
    rw [hself]
    cases d with
    | none => simp [NodeImpl.setDest]
    | some d => exact fun h => hd ⟨d, rfl, h⟩
  constructor
  case plan => rfl
  case added => rfl
  case others => exact fun m hm => Function.update_of_ne hm ..
  case state =>
    change ((c.withDest n d error).node n).state = _
    rw [hself]
    cases d <;> rfl
  case place => split <;> simp
  case placed => exact placed
  case next => split <;> simp
  case legal =>
    intro hk
    change legalSuccessor _ ((c.withDest n d error).node n).state
      ((c.withDest n d error).node n).nextState = true
    rw [hself]
    cases d with
    | none => simp at hk
    | some d => exact hfinds.legal
  case holds => exact fun _ h => absurd h hnext
  case holder =>
    intro r
    exact .inl (removePendingNode_reservable (c := c.withDest n d error) F n
      (fun r => (hnodup r).1) r).1
  case waiters =>
    apply hw.removePendingNode _ hnodup
    intro m hm hp
    exact (placed m .pending).mpr (.inr ⟨hm, hp⟩)

theorem considered_examine (hq : c.queues.WellFormed) (hw : c.WaitersPending F)
    (hn : n ∈ c.queues.pending) (hfinds : c.Finds F n d)
    (hnext : (c.node n).nextState = .executing) (hlegal : c.NextLegal F n) :
  ∃ k, Considered F n k c (c.resourceCheckEligible F n d).1 ∧ (d ≠ none → k ≠ none)
  := by
  have stay := considered_stay hq hw hn hnext hlegal c.error
  have recheck : ∃ k, Considered F n k c (c.recheckPending F n d).1 ∧ (d ≠ none → k ≠ none) := by
    obtain ⟨error, ⟨hd, heq⟩ | ⟨hd, heq⟩⟩ := recheckPending_eq F n d c
    · rw [heq]
      refine ⟨some .pending, ?_, by simp⟩
      apply considered_of_dest hw hfinds (.inr (.inl rfl)) (placed_refl hq hn) (.inl rfl)
      · rintro - rfl
        obtain ⟨d', hd', -⟩ := hd
        cases hd'
      · exact fun _ => hd
      · simp
    · rw [heq]
      exact ⟨_, considered_leave hq hw hn hfinds hd error, fun hsome => by simp [hsome]⟩
  unfold resourceCheckEligible
  split
  · obtain ⟨k, h, hk⟩ := recheck
    exact ⟨k, h.setStatus .pending, hk⟩
  · exact recheck
  · exact ⟨_, stay, by simp⟩
  · exact ⟨_, stay, by simp⟩
  · exact ⟨_, considered_stay hq hw hn hnext hlegal _, by simp⟩

/-! ### An attempt to acquire resources -/

/-- A successful attempt adds no waiting node. -/
theorem Acquires.waiters {c₁ : Core} (h : Acquires F n c c₁) (hw : c.WaitersPending F)
    (r : ReservableId) :
  (c₁.reservable r).waiters.Nodup ∧
    ∀ m ∈ (c₁.reservable r).waiters, m ∈ (c.reservable r).waiters
  := by
  rw [h.reservable]
  split
  · exact ⟨Reservable.nodup_removeWaitingNode (hw.nodup r), fun m hm => List.mem_of_mem_erase hm⟩
  · exact ⟨hw.nodup r, fun _ hm => hm⟩

/-- The resources after a successful attempt. -/
theorem Acquires.reservable_left {c₁ : Core} (h : Acquires F n c c₁) (hw : c.WaitersPending F)
    (r : ReservableId) :
  ((c₁.removePendingNode F n).reservable r).holder =
      (if r ∈ (F.decl n).needs then some n else (c.reservable r).holder) ∧
    ∀ m, m ∈ ((c₁.removePendingNode F n).reservable r).waiters ↔
      m ∈ (c.reservable r).waiters ∧ (r ∈ (F.decl n).needs → m ≠ n)
  := by
  have hnodup : ∀ r, (c₁.reservable r).waiters.Nodup := fun r => (h.waiters hw r).1
  obtain ⟨holder, -, waiters⟩ := removePendingNode_reservable F n hnodup r
  constructor
  · rw [holder, h.reservable]
    split <;> rfl
  · intro m
    rw [waiters, h.reservable]
    split
    · have hmem : m ∈ ((c.reservable r).acquired n).waiters ↔ m ≠ n ∧ m ∈ (c.reservable r).waiters :=
        Reservable.mem_removeWaitingNode (hw.nodup r)
      rw [hmem]
      tauto
    · rfl

/-- The attempt has succeeded. -/
theorem considered_acquired {c₁ : Core} (hq : c.queues.WellFormed) (hw : c.WaitersPending F)
    (hn : n ∈ c.queues.pending) (hnext : (c.node n).nextState = .executing)
    (hlegal : c.NextLegal F n) (h : Acquires F n c c₁) :
  Considered F n (some .stateChange) c
    ((c₁.removePendingNode F n).withQueues (Queues.addStateChangeNode n))
  := by
  have placed : Placed n (some .stateChange) c.queues
      ((c₁.queues.removePending n).addStateChangeNode n) := by
    have left := queues_leavePending hq hn False
    rw [if_neg not_false, if_neg not_false] at left
    rw [h.queues]
    exact left
  have hholder (r : ReservableId) : ((c₁.removePendingNode F n).reservable r).holder =
      if r ∈ (F.decl n).needs then some n else (c.reservable r).holder :=
    (h.reservable_left hw r).1
  constructor
  case plan => exact h.plan
  case added => exact h.added
  case others => exact fun m _ => congrFun h.node m
  case state => exact congrArg (fun node => (node n).state) h.node
  case place => exact .inr (.inr rfl)
  case placed => exact placed
  case next =>
    intro hk
    cases hk
  case legal =>
    intro _
    change legalSuccessor _ (c₁.node n).state (c₁.node n).nextState = true
    rw [h.node]
    exact hlegal
  case holds =>
    intro _ _ r hr
    exact (hholder r).trans (if_pos hr)
  case holder =>
    intro r
    by_cases hr : r ∈ (F.decl n).needs
    · refine .inr (.inl ⟨h.free r hr, (hholder r).trans (if_pos hr), hr, rfl, ?_⟩)
      exact (congrArg (fun node => (node n).nextState) h.node).trans hnext
    · exact .inl ((hholder r).trans (if_neg hr))
  case waiters =>
    apply hw.removePendingNode _ (h.waiters hw)
    intro m hm hp
    exact (placed m .pending).mpr (.inr ⟨hm, hp⟩)

/-- The attempt has failed. -/
theorem considered_waits {c₁ : Core} (hq : c.queues.WellFormed) (hw : c.WaitersPending F)
    (hn : n ∈ c.queues.pending) (hnext : (c.node n).nextState = .executing)
    (hlegal : c.NextLegal F n) (h : Waits F n c c₁) :
  Considered F n (some .pending) c c₁
  := by
  obtain ⟨told, htold⟩ := h.queues
  have hmembers (j : QueueName) : c₁.queues.members j = c.queues.members j := by
    rw [htold, Queues.notifyAllResourceAvailable_eq]
    cases j <;> rfl
  constructor
  case plan => exact h.plan
  case added => exact h.added
  case others => exact fun m _ => congrFun h.node m
  case state => exact congrArg (fun node => (node n).state) h.node
  case place => exact .inr (.inl rfl)
  case placed => exact (placed_refl (k := .pending) hq hn).congr hmembers
  case next => exact fun _ => (congrArg (fun node => (node n).nextState) h.node).trans hnext
  case legal =>
    intro _
    unfold NextLegal
    rw [h.node]
    exact hlegal
  case holds =>
    intro hk
    cases hk
  case holder =>
    intro r
    rcases h.holder r with heq | heq
    · exact .inl heq
    · refine .inr (.inr ⟨heq.1, heq.2, ?_⟩)
      unfold NextLegal at hlegal
      rw [hnext] at hlegal
      exact legalSuccessor_executing hlegal
  case waiters =>
    have hpending : c₁.queues.pending = c.queues.pending := hmembers .pending
    constructor
    case nodup => exact fun r => h.nodup r (hw.nodup r)
    case pending =>
      intro r m hm
      rw [hpending]
      rcases (h.waiters r m).mp hm with hm | ⟨rfl, -⟩
      · exact hw.pending r m hm
      · exact hn
    case needs =>
      intro r m hm
      rcases (h.waiters r m).mp hm with hm | ⟨rfl, hr⟩
      · exact hw.needs r m hm
      · exact hr

theorem considered_acquire (hq : c.queues.WellFormed) (hw : c.WaitersPending F)
    (hn : n ∈ c.queues.pending) (hnext : (c.node n).nextState = .executing)
    (hlegal : c.NextLegal F n) :
  ∃ k, Considered F n k c (c.acquire F n)
  := by
  rcases acquire_eq F n c with ⟨c₁, h, heq⟩ | ⟨c₁, h, heq⟩
  · rw [heq]
    exact ⟨_, considered_acquired hq hw hn hnext hlegal h⟩
  · rw [heq]
    exact ⟨_, (considered_waits hq hw hn hnext hlegal h).setStatus .pending⟩

end Core
end Plexil

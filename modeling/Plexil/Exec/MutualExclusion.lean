import Plexil.Exec.CoreSpec

/-!
# Mutual exclusion

A node in EXECUTING, FINISHING or FAILING holds all resources it needs, and so does a node
which is about to go to EXECUTING.  Since a resource has one holder, nodes which need the
same resource are never active together.
-/

namespace Plexil

/-- Two nodes use the same mutex, or assign variables with the same base variable. -/
def NodeDecl.Conflict (d d' : NodeDecl) : Prop :=
  (∃ mutex, mutex ∈ d.usingMutexes ∧ mutex ∈ d'.usingMutexes) ∨
    (d.nodeType = .assignment ∧ d'.nodeType = .assignment ∧ d.baseVariable = d'.baseVariable)

/-- Nodes in conflict need a common resource. -/
theorem NodeDecl.Conflict.needs {d d' : NodeDecl} (h : d.Conflict d') :
  ∃ r, r ∈ d.needs ∧ r ∈ d'.needs
  := by
  rcases h with ⟨mutex, hm, hm'⟩ | ⟨htype, htype', hvariable⟩
  · use .mutex mutex
    constructor
    · exact mem_needs_of_mem_mutexes (List.mem_map_of_mem hm)
    · exact mem_needs_of_mem_mutexes (List.mem_map_of_mem hm')
  · use .variable d.baseVariable
    unfold NodeDecl.needs
    rw [htype, htype', hvariable]
    simp

namespace Core

variable {F : Forest} {n m : NodePtr} {c c' : Core}

/-- The invariant of mutual exclusion. -/
structure Exclusive (F : Forest) (c : Core) : Prop where
  waiters : c.WaitersPending F
  next : ∀ n ∈ c.queues.pending, (c.node n).nextState = .executing
  legal : ∀ n, n ∈ c.queues.pending ∨ n ∈ c.queues.stateChange → c.NextLegal F n
  queued : ∀ n ∈ c.queues.stateChange, (c.node n).nextState = .executing → c.HoldsNeeds F n
  active : ∀ n, (c.node n).state.isActive = true → c.HoldsNeeds F n

namespace Exclusive

/-- Only the states of the nodes, the queues of nodes to transition and the resources
matter. -/
theorem congr (h : c.Exclusive F) (hstate : ∀ n, (c'.node n).state = (c.node n).state)
    (hnext : ∀ n, (c'.node n).nextState = (c.node n).nextState)
    (hpending : c'.queues.pending = c.queues.pending)
    (hstateChange : c'.queues.stateChange = c.queues.stateChange)
    (hreservable : c'.reservable = c.reservable) :
  c'.Exclusive F
  := by
  constructor
  case waiters => exact h.waiters.congr (fun r => by rw [hreservable]) fun m hm => hpending ▸ hm
  case next =>
    intro n hn
    rw [hnext]
    exact h.next n (hpending ▸ hn)
  case legal =>
    intro n hn
    unfold NextLegal
    rw [hstate, hnext]
    rw [hpending, hstateChange] at hn
    exact h.legal n hn
  case queued =>
    intro n hn hexec
    rw [hnext] at hexec
    unfold HoldsNeeds
    rw [hreservable]
    exact h.queued n (hstateChange ▸ hn) hexec
  case active =>
    intro n hn
    rw [hstate] at hn
    unfold HoldsNeeds
    rw [hreservable]
    exact h.active n hn

/-- The holdings of a node are not touched when another node is considered. -/
theorem holdsNeeds_considered {k : Option QueueName} (hc : Considered F n k c c') (hm : m ≠ n)
    (h : c.HoldsNeeds F m) :
  c'.HoldsNeeds F m
  := by
  intro r hr
  rcases hc.holder r with heq | ⟨hnone, -⟩ | ⟨hn, -⟩
  · rw [heq]
    exact h r hr
  · cases hnone.symm.trans (h r hr)
  · exact absurd (Option.some.inj ((h r hr).symm.trans hn)) hm

theorem considered {k : Option QueueName} (h : c.Exclusive F) (hc : Considered F n k c c') :
  c'.Exclusive F
  := by
  constructor
  case waiters => exact hc.waiters
  case next =>
    intro m hm
    rcases (hc.placed m .pending).mp hm with ⟨rfl, hk⟩ | ⟨hne, hm⟩
    · exact hc.next hk
    · rw [hc.others m hne]
      exact h.next m hm
  case legal =>
    intro m hm
    by_cases hne : m = n
    · subst hne
      apply hc.legal
      rintro rfl
      rcases hm with hm | hm
      · simpa using (hc.placed m .pending).mp hm
      · simpa using (hc.placed m .stateChange).mp hm
    · unfold NextLegal
      rw [hc.others m hne]
      apply h.legal
      exact hm.imp (hc.placed.others hne .pending).mp (hc.placed.others hne .stateChange).mp
  case queued =>
    intro m hm hexec
    rcases (hc.placed m .stateChange).mp hm with ⟨rfl, hk⟩ | ⟨hne, hm⟩
    · exact hc.holds hk hexec
    · rw [hc.others m hne] at hexec
      exact holdsNeeds_considered hc hne (h.queued m hm hexec)
  case active =>
    intro m hm
    by_cases hne : m = n
    · subst hne
      rw [hc.state] at hm
      intro r hr
      have held := h.active m hm r hr
      rcases hc.holder r with heq | ⟨hnone, -⟩ | ⟨-, -, hwaiting⟩
      · rw [heq]
        exact held
      · cases hnone.symm.trans held
      · rw [hwaiting] at hm
        cases hm
    · rw [hc.others m hne] at hm
      exact holdsNeeds_considered hc hne (h.active m hm)

theorem transitioned {rest : List NodePtr} (h : c.Exclusive F) (hq : c.queues.WellFormed)
    (hstateChange : c.queues.stateChange = n :: rest)
    (ht : Transitioned F n (c.withQueues (Queues.getStateChangeNode n rest)) c') :
  c'.Exclusive F
  := by
  have hmem : n ∈ c.queues.members .stateChange := by
    simp [Queues.members, hstateChange]
  have hpending : c'.queues.pending = c.queues.pending :=
    ht.pending_eq.trans Queues.pending_getStateChangeNode
  have hrest : c'.queues.stateChange = rest :=
    ht.stateChange_eq.trans Queues.stateChange_getStateChangeNode
  have hne_of_pending : ∀ m ∈ c.queues.pending, m ≠ n := by
    rintro m hm rfl
    exact hq.disjoint m hm hmem
  have hne_of_rest : ∀ m ∈ rest, m ≠ n := by
    rintro m hm rfl
    have hnodup : c.queues.stateChange.Nodup := hq.nodup .stateChange
    rw [hstateChange] at hnodup
    exact (List.nodup_cons.mp hnodup).1 hm
  have hlegal := h.legal n (.inr hmem)
  -- The other nodes keep what they hold.
  have holds (m : NodePtr) (hne : m ≠ n) (hm : c.HoldsNeeds F m) : c'.HoldsNeeds F m := by
    intro r hr
    have held : (c.reservable r).holder = some m := hm r hr
    rw [ht.reservable_eq]
    split
    · rw [Reservable.holder_released, if_neg]
      · exact held
      · intro heq
        exact hne (Option.some.inj (held.symm.trans heq))
    · exact held
  constructor
  case waiters =>
    apply h.waiters.congr
    · exact ht.waiters_eq
    · rw [hpending]
      exact fun _ hm => hm
  case next =>
    intro m hm
    rw [hpending] at hm
    rw [ht.others m (hne_of_pending m hm)]
    exact h.next m hm
  case legal =>
    intro m hm
    rw [hpending, hrest] at hm
    have hne : m ≠ n := hm.elim (hne_of_pending m) (hne_of_rest m)
    unfold NextLegal
    rw [ht.others m hne]
    apply h.legal
    rw [hstateChange]
    exact hm.imp_right (.tail n)
  case queued =>
    intro m hm hexec
    rw [hrest] at hm
    have hne := hne_of_rest m hm
    rw [ht.others m hne] at hexec
    exact holds m hne (h.queued m (hstateChange ▸ .tail n hm) hexec)
  case active =>
    intro m hm
    by_cases hne : m = n
    · subst hne
      rw [ht.state] at hm
      -- A node which is active now was active before or comes from the acquisition.
      have held : c.HoldsNeeds F m := by
        rcases legalSuccessor_isActive hlegal hm with hexec | hactive
        · exact h.queued m hmem hexec
        · exact h.active m hactive
      intro r hr
      rw [ht.reservable_eq, NodeDecl.released_of_isActive hm]
      exact held r hr
    · rw [ht.others m hne] at hm
      exact holds m hne (h.active m hm)

end Exclusive

theorem Step.exclusive {e : CoreEvent} (hq : c.queues.WellFormed) (h : c.Exclusive F)
    (hstep : Step F c e c') :
  c'.Exclusive F
  := by
  cases hstep
  case quiet hquiet =>
    exact h.congr (fun n => (hquiet.node n).state) (fun n => (hquiet.node n).nextState)
      (by rw [hquiet.queues]) (by rw [hquiet.queues]) hquiet.reservable
  case notify n hexists =>
    exact h.congr (fun _ => rfl) (fun _ => rfl) Queues.pending_notify Queues.stateChange_notify rfl
  case notifyResourceAvailable n hexists =>
    exact h.congr (fun _ => rfl) (fun _ => rfl) Queues.pending_notifyResourceAvailable
      Queues.stateChange_notifyResourceAvailable rfl
  case addPlan root hroot hadded =>
    exact h.congr (fun _ => rfl) (fun _ => rfl) Queues.pending_notify Queues.stateChange_notify rfl
  case deleteFinishedPlans =>
    exact h.congr (fun _ => rfl) (fun _ => rfl) rfl rfl rfl
  case evaluate n rest d hcandidate hfinds =>
    obtain ⟨k, hc, -⟩ := considered_evaluate hq h.waiters hcandidate hfinds
    exact h.considered hc
  case examine n d hpending hfinds =>
    obtain ⟨k, hc, -⟩ := considered_examine hq h.waiters hpending hfinds (h.next n hpending)
      (h.legal n (.inl hpending))
    exact h.considered hc
  case acquire n hpending =>
    obtain ⟨k, hc⟩ := considered_acquire hq h.waiters hpending (h.next n hpending)
      (h.legal n (.inl hpending))
    exact h.considered hc
  case stay n rest hstateChange hnext =>
    have hlegal := h.legal n (.inr (by simp [hstateChange]))
    exact absurd hnext (legalSuccessor_ne hlegal)
  case transition n rest hstateChange hnext ht => exact h.transitioned hq hstateChange ht

end Core

namespace Exec

variable {F : Forest} {Allowed : Exec → Event → Prop} {s : Exec}

theorem exclusive_initial (hierarchy : ResourceHierarchyMap) (w : World) :
  (initial hierarchy w).Exclusive F
  := by
  constructor
  case waiters => 
    exact ⟨fun _ => List.nodup_nil, (fun _ _ hm => nomatch hm), fun _ _ hm => nomatch hm⟩
  case next => exact fun _ hn => nomatch hn
  case legal => exact fun _ hn => nomatch hn
  case queued => exact fun _ hn => nomatch hn
  case active => exact fun _ hn => nomatch hn

theorem Reachable.exclusive (h : Reachable F Allowed s) : s.Exclusive F
  := h.core_invariant (fun _ _ => True) (fun _ _ _ _ _ _ => trivial) (fun _ _ => trivial)
    exclusive_initial fun _ _ _ hq hc _ hstep => hstep.exclusive hq hc

/-- Mutual exclusion: two different nodes in conflict are never both in EXECUTING, FINISHING
or FAILING. -/
theorem mutual_exclusion (h : Reachable F (fun _ _ => True) s) {m n : NodePtr} (hne : m ≠ n)
    (hm : (s.node m).state.isActive = true) (hn : (s.node n).state.isActive = true) :
  ¬ (F.decl m).Conflict (F.decl n)
  := by
  intro hconflict
  obtain ⟨r, hr, hr'⟩ := hconflict.needs
  have held := h.exclusive.active m hm r hr
  have held' := h.exclusive.active n hn r hr'
  exact hne (Option.some.inj (held.symm.trans held'))

/-- Empty root nodes, each of which uses a mutex of its own. -/
def ownMutexes : Forest :=
  .ofRoots (fun n => ⟨.empty, none, [], 0, [n], 0, fun _ => false, false⟩) (fun _ => rfl)
    (fun _ => rfl) List.nodup_singleton

/-- Nodes which use different mutexes are active together. -/
theorem mutual_exclusion_ownMutexes :
  ∃ s, StateMachine.run (apply ownMutexes)
      ([.addPlan 0, .addPlan 1, .step 0] ++ Event.nexts 17 .unknown) (initial ∅ .unknown) = some s ∧
    (s.node 0).state = .executing ∧ (s.node 1).state = .executing ∧
    ¬ (ownMutexes.decl 0).Conflict (ownMutexes.decl 1)
  := by
  have hrun : (StateMachine.run (apply ownMutexes)
      ([.addPlan 0, .addPlan 1, .step 0] ++ Event.nexts 17 .unknown) (initial ∅ .unknown)).map
      (fun s => ((s.node 0).state, (s.node 1).state)) = some (.executing, .executing) := by
    decide +kernel
  obtain ⟨s, hs, hstates⟩ := Option.map_eq_some_iff.mp hrun
  obtain ⟨h0, h1⟩ := Prod.mk.inj hstates
  use s, hs, h0, h1
  apply mutual_exclusion (s := s) (StateMachine.Reachable.of_run (.init ⟨_, _, rfl⟩) hs)
  · exact Nat.zero_ne_one
  · rw [h0]
    rfl
  · rw [h1]
    rfl

end Exec
end Plexil

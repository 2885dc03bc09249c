import Plexil.Exec.WaiterCoherence
import Plexil.Util.PriorityOrder

/-!
# Priorities and the grants of resources

`resolveResourceConflicts` walks through the pending queue in the order of the priorities.  It
passes over a node only when another one holds what the node needs, and so the nodes with
precedence over the one which is granted its resources are all blocked.  This is lost when a
node which tries to acquire its resources holds one of them itself: it gives this one up, and
nodes which the walk has passed over are free to execute.
-/

namespace Plexil

namespace Core

variable {F : Forest} {n m : NodePtr} {d : Option Dest} {c c' : Core}

/-! ### The order of the pending queue -/

theorem Step.ordered {e : CoreEvent} (h : PriorityQueue.Ordered F.priority c.queues.pending)
    (hstep : Step F c e c') :
  PriorityQueue.Ordered F.priority c'.queues.pending
  := by
  cases hstep
  case quiet hquiet => rwa [hquiet.queues]
  case notify n hexists =>
    change PriorityQueue.Ordered F.priority (c.queues.notify n).pending
    rwa [Queues.pending_notify]
  case notifyResourceAvailable n hexists =>
    change PriorityQueue.Ordered F.priority (c.queues.notifyResourceAvailable n).pending
    rwa [Queues.pending_notifyResourceAvailable]
  case addPlan root hroot hadded =>
    change PriorityQueue.Ordered F.priority (c.queues.notify root).pending
    rwa [Queues.pending_notify]
  case deleteFinishedPlans => exact h
  case evaluate n rest d hcandidate hfinds =>
    obtain ⟨error, heq⟩ := evaluateCandidate_eq F n rest d c
    rw [heq]
    cases d with
    | none => exact h
    | some d =>
      dsimp only
      split
      · apply h.insert
      · rwa [Queues.pending_addStateChangeNode]
  case examine n d hpending hfinds =>
    rcases pending_resourceCheckEligible F n d c with heq | ⟨heq, -⟩
    · rwa [heq]
    · rw [heq]
      apply h.sublist List.erase_sublist
  case acquire n hpending =>
    rcases pending_acquire F n c with heq | heq
    · rwa [heq]
    · rw [heq]
      apply h.sublist List.erase_sublist
  case stay n rest hstateChange hnext =>
    change PriorityQueue.Ordered F.priority (c.queues.getStateChangeNode n rest).pending
    rwa [Queues.pending_getStateChangeNode]
  case transition n rest hstateChange hnext ht =>
    rw [ht.pending_eq]
    change PriorityQueue.Ordered F.priority (c.queues.getStateChangeNode n rest).pending
    rwa [Queues.pending_getStateChangeNode]

/-! ### Nodes whose resources are not all free -/

/-- One of the resources which the node needs is held. -/
def Blocked (F : Forest) (c : Core) (n : NodePtr) : Prop :=
  ∃ r ∈ (F.decl n).needs, (c.reservable r).holder ≠ none

theorem Waiting.blocked (h : c.Waiting F n) : c.Blocked F n
  := by
  obtain ⟨r, hr, m, -, hheld⟩ := h.held
  use r, hr
  rw [hheld]
  exact Option.some_ne_none m

theorem Blocked.mono (h : c.Blocked F n)
    (hheld : ∀ r, (c.reservable r).holder ≠ none → (c'.reservable r).holder ≠ none) :
  c'.Blocked F n
  := by
  obtain ⟨r, hr, hne⟩ := h
  use r, hr
  apply hheld r hne

/-- The examination of a node leaves the holders as they are. -/
theorem holder_resourceCheckEligible (hw : c.WaitersPending F) (r : ReservableId) :
  ((c.resourceCheckEligible F n d).1.reservable r).holder = (c.reservable r).holder
  := by
  obtain ⟨error, hrecheck⟩ := recheckPending_eq F n d c
  have hholder : ((c.recheckPending F n d).1.reservable r).holder = (c.reservable r).holder := by
    rcases hrecheck with ⟨-, heq⟩ | ⟨-, heq⟩
    · rw [heq]
      rfl
    · rw [heq]
      exact (removePendingNode_reservable (c := c.withDest n d error) F n hw.nodup r).1
  unfold resourceCheckEligible
  split
  · exact hholder
  · exact hholder
  all_goals rfl

/-- A node which is not eligible and stays in the pending queue waits for a resource. -/
theorem blocked_of_not_eligible (h : c.PendingWaiting F) (hq : c.queues.WellFormed)
    (hn : n ∈ c.queues.pending) (heligible : (c.resourceCheckEligible F n d).2 = false)
    (hstays : n ∈ (c.resourceCheckEligible F n d).1.queues.pending) :
  c.Blocked F n
  := by
  have hwaits : (c.queues.status n).waits = true := by
    have hqueue := hq.queue_of_pending hn
    unfold resourceCheckEligible at heligible hstays
    cases hstatus : c.queues.status n <;> rw [hstatus] at hqueue heligible hstays
    case pending => rfl
    case pendingCheck => rfl
    case pendingTry => cases heligible
    case pendingTryCheck =>
      obtain ⟨error, ⟨-, heq⟩ | ⟨-, heq⟩⟩ := recheckPending_eq F n d c
      · dsimp only at heligible
        rw [heq] at heligible
        cases heligible
      · dsimp only at hstays
        rw [heq] at hstays
        change n ∈ ((if d = none then id else Queues.addStateChangeNode n)
          (c.queues.removePending n)).pending at hstays
        rw [pending_leavePending] at hstays
        exact absurd hstays (hq.nodup .pending).not_mem_erase
    all_goals cases hqueue
  exact (h n hn hwaits).blocked

/-- The condition on a step of the core: a node which tries to acquire its resources holds
nothing. -/
def HoldsNone (c : Core) : CoreEvent → Prop
  | .acquire n => ∀ r, (c.reservable r).holder ≠ some n
  | _ => True

theorem HoldsNone.heldUp {e : CoreEvent} (h : c.HoldsNone e) : c.HeldUp F e
  := by
  cases e
  case acquire n =>
    rintro ⟨r, -, hr⟩
    exact absurd hr (h r)
  all_goals trivial

/-- A node which holds nothing gives nothing up. -/
theorem held_acquire (hw : c.WaitersPending F) (hok : c.HoldsNone (.acquire n))
    {r : ReservableId} (hr : (c.reservable r).holder ≠ none) :
  ((c.acquire F n).reservable r).holder ≠ none
  := by
  rcases acquire_eq F n c with ⟨c₁, hacquires, heq⟩ | ⟨c₁, hwaits, heq⟩
  · rw [heq]
    change ((c₁.removePendingNode F n).reservable r).holder ≠ none
    rw [(hacquires.reservable_left hw r).1]
    split
    · exact Option.some_ne_none n
    · exact hr
  · rw [heq]
    change (c₁.reservable r).holder ≠ none
    rcases hwaits.holder r with hkept | ⟨hself, -⟩
    · rwa [hkept]
    · exact absurd hself (hok r)

/-- A node which still is in the pending queue after its attempt is blocked. -/
theorem blocked_acquire (hw : c.WaitersPending F) (hq : c.queues.WellFormed)
    (hok : c.HoldsNone (.acquire n)) (hstays : n ∈ (c.acquire F n).queues.pending) :
  (c.acquire F n).Blocked F n
  := by
  have hheld : c.Blocked F n := by
    rcases acquire_eq F n c with ⟨c₁, hacquires, heq⟩ | ⟨c₁, hwaits, -⟩
    · rw [heq] at hstays
      change n ∈ ((c₁.queues.removePending n).addStateChangeNode n).pending at hstays
      rw [Queues.pending_addStateChangeNode, hacquires.queues] at hstays
      exact absurd hstays (hq.nodup .pending).not_mem_erase
    · exact hwaits.held
  apply hheld.mono
  exact fun r hr => held_acquire hw hok hr

end Core

namespace Exec

variable {F : Forest} {s s' : Exec} {Allowed : Exec → Event → Prop}

theorem Reachable.ordered (h : Reachable F Allowed s) :
  PriorityQueue.Ordered F.priority s.queues.pending
  := by
  apply h.core_invariant (P := fun c => PriorityQueue.Ordered F.priority c.queues.pending)
    fun _ _ => True
  · exact fun _ _ _ _ _ _ => trivial
  · exact fun _ _ => trivial
  · exact fun _ _ => PriorityQueue.ordered_nil
  · exact fun _ _ _ _ h _ hstep => hstep.ordered h

/-! ### The walk through the pending queue -/

/-- The nodes which the loops over the pending queue have passed over are blocked, or have no
precedence over those which are to come. -/
def PriorityWalk (F : Forest) (s : Exec) : Prop :=
  PriorityQueue.Walk F.priority (Core.Blocked F s.toCore) s.queues.pending s.phase.walk

theorem PriorityWalk.of_nil (h : s.phase.walk = []) : s.PriorityWalk F
  := by
  unfold PriorityWalk
  rw [h]
  exact .finished

/-- The condition on an event: a node which tries to acquire its resources holds nothing. -/
def HoldsNone (F : Forest) (s : Exec) (e : Event) : Prop :=
  s.toCore.HoldsNone (s.coreEvent F e)

/-- A node which is not eligible is passed over, as it waits.  When a node leaves the queue, so
does the walk those which have not been examined yet. -/
theorem PriorityWalk.gather {acc rest : List NodePtr} {temp : NodePtr} {thisPriority : Int}
    (h : PriorityQueue.Walk F.priority (Core.Blocked F s.toCore) s.queues.pending
      (acc ++ temp :: rest))
    (hq : s.queues.WellFormed) (hwaiting : s.PendingWaiting F) (hw : s.WaitersPending F)
    (htemp : temp ∈ s.queues.pending) :
  (s.gather F thisPriority acc temp rest).PriorityWalk F
  := by
  have hafter : PriorityQueue.Walk F.priority
      (Core.Blocked F (s.resourceCheckEligible F temp (s.dest F temp)).1)
      (s.resourceCheckEligible F temp (s.dest F temp)).1.queues.pending
      (acc ++ temp :: rest) := by
    apply h.mono
    · intro m hm _
      rcases Core.pending_resourceCheckEligible F temp (s.dest F temp) s.toCore with heq | ⟨heq, -⟩
      · rwa [heq] at hm
      · rw [heq] at hm
        exact List.mem_of_mem_erase hm
    · intro m _ _ hblocked
      apply hblocked.mono
      intro r hr
      rwa [Core.holder_resourceCheckEligible hw]
  unfold PriorityWalk Exec.gather
  dsimp only [Phase.walk]
  rcases Core.pending_resourceCheckEligible F temp (s.dest F temp) s.toCore with
    hpending | ⟨hpending, heligible⟩
  · have hstays : temp ∈ (s.resourceCheckEligible F temp (s.dest F temp)).1.queues.pending := by
      rwa [hpending]
    rw [if_pos hstays]
    split
    · rw [List.append_assoc]
      exact hafter
    · rename_i heligible
      apply hafter.leaveOut
      intro _
      apply (Core.blocked_of_not_eligible hwaiting hq htemp (by simpa using heligible) hstays).mono
      intro r hr
      rwa [Core.holder_resourceCheckEligible hw]
  · have hgone : temp ∉ (s.resourceCheckEligible F temp (s.dest F temp)).1.queues.pending := by
      rw [hpending]
      exact (hq.nodup .pending).not_mem_erase
    rw [heligible, if_neg hgone, if_neg Bool.false_ne_true, List.append_nil]
    exact hafter.cut

/-- The node which has tried to acquire its resources has left the queue, or is blocked. -/
theorem PriorityWalk.acquireNode {n : NodePtr} {rest chain : List NodePtr}
    (h : PriorityQueue.Walk F.priority (Core.Blocked F s.toCore) s.queues.pending
      (n :: rest ++ chain))
    (hq : s.queues.WellFormed) (hw : s.WaitersPending F) (hok : s.toCore.HoldsNone (.acquire n)) :
  (s.acquireNode F n rest chain).PriorityWalk F
  := by
  have hafter : PriorityQueue.Walk F.priority (Core.Blocked F (s.toCore.acquire F n))
      (s.toCore.acquire F n).queues.pending (n :: rest ++ chain) := by
    apply h.mono
    · intro m hm _
      rcases Core.pending_acquire F n s.toCore with heq | heq
      · rwa [heq] at hm
      · rw [heq] at hm
        exact List.mem_of_mem_erase hm
    · intro m _ _ hblocked
      apply hblocked.mono
      exact fun r hr => Core.held_acquire hw hok hr
  have hnext : PriorityQueue.Walk F.priority (Core.Blocked F (s.toCore.acquire F n))
      (s.toCore.acquire F n).queues.pending ([] ++ n :: (rest ++ chain)) := hafter
  apply hnext.leaveOut
  apply Core.blocked_acquire hw hq hok

end Exec

theorem Move.priorityWalk {F : Forest} {s s' : Exec} {e : Event} (h : Move F s e s')
    (hs : s.PriorityWalk F) (hwalk : s.Walk) (hq : s.queues.WellFormed)
    (hordered : PriorityQueue.Ordered F.priority s.queues.pending)
    (hwaiting : s.PendingWaiting F) (hw : s.WaitersPending F) (hok : s.HoldsNone F e) :
  s'.PriorityWalk F
  := by
  have idle (hphase : s.phase = .idle) : s.phase.walk = [] := congrArg Phase.walk hphase
  cases h
  case addPlan root hphase hroot hadded => exact .of_nil (idle hphase)
  case notify n hexists =>
    apply hs.mono
    · intro m hm _
      change m ∈ (s.queues.notify n).pending at hm
      rwa [Queues.pending_notify] at hm
    · exact fun _ _ _ hblocked => hblocked
  case notifyResourceAvailable n hexists =>
    apply hs.mono
    · intro m hm _
      change m ∈ (s.queues.notifyResourceAvailable n).pending at hm
      rwa [Queues.pending_notifyResourceAvailable] at hm
    · exact fun _ _ _ hblocked => hblocked
  case change w ns hphase hns => exact .of_nil (idle hphase)
  case commandHandle n handle w ns hphase htype hhandle hns => exact .of_nil (idle hphase)
  case commandAbortAck n ack w ns hphase htype hns => exact .of_nil (idle hphase)
  case updateAck n ack w ns hphase htype hns => exact .of_nil (idle hphase)
  case deleteFinishedPlans hphase => exact .of_nil (idle hphase)
  case evaluate w ns rest n hphase hcandidate => exact .of_nil (congrArg Phase.walk hphase)
  case resolve w ns hphase hcandidate =>
    unfold Exec.PriorityWalk
    rw [Exec.walk_beginGathering, Exec.toCore_beginGathering]
    exact .start hordered
  case gather w ns acc rest thisPriority temp hphase hpriority =>
    have hbefore : s.phase.walk = acc ++ temp :: rest := congrArg Phase.walk hphase
    have htemp : temp ∈ s.queues.pending := by
      apply hwalk.pending
      simp [hbefore]
    unfold Exec.PriorityWalk at hs
    rw [hbefore] at hs
    exact .gather hs hq hwaiting hw htemp
  case gathered w ns acc chain thisPriority hphase hpriority =>
    unfold Exec.PriorityWalk at hs
    rw [hphase] at hs
    exact hs
  case acquire w ns rest chain n hphase =>
    have hevent : s.coreEvent F (.next w ns) = .acquire n := by
      rw [Exec.coreEvent_next, hphase]
    unfold Exec.HoldsNone at hok
    rw [hevent] at hok
    unfold Exec.PriorityWalk at hs
    rw [hphase] at hs
    exact .acquireNode hs hq hw hok
  case acquired w ns chain hphase =>
    unfold Exec.PriorityWalk at hs ⊢
    rw [hphase] at hs
    rw [Exec.walk_beginGathering, Exec.toCore_beginGathering]
    exact hs
  case transition w ns rest n hphase hstateChange hns =>
    apply Exec.PriorityWalk.of_nil
    change (s.transitionNode F n rest).phase.walk = []
    rw [Exec.phase_transitionNode, hphase]
    rfl
  case arbitrate w ns hphase harbitrate => exact .of_nil (Exec.walk_arbitrate harbitrate)
  case invokeAbort w ns rest n hphase houtput hns => exact .of_nil (congrArg Phase.walk hphase)
  case executeUpdate w ns rest n hphase houtput hns => exact .of_nil (congrArg Phase.walk hphase)
  all_goals exact .of_nil rfl

/-! ### Grants by priority -/

namespace Exec

variable {F : Forest} {s : Exec}

theorem Reachable.priorityWalk (h : Reachable F (HoldsNone F) s) : s.PriorityWalk F
  := by
  apply h.invariant_of (Q := Reachable F (HoldsNone F))
  · exact fun s hs => hs
  · rintro s ⟨hierarchy, w, rfl⟩
    exact .of_nil rfl
  · intro s e s' hs hwalk hok hstep
    have hwaiting : s.PendingWaiting F :=
      hs.pendingWaiting fun _ _ hnone => Core.HoldsNone.heldUp hnone
    exact (Move.of_apply hstep).priorityWalk hwalk hs.walk hs.wellFormed hs.ordered hwaiting
      hs.exclusive.waiters hok

/-- Where no resource leaks, a node which tries to acquire its resources holds nothing. -/
theorem Reachable.holdsNone (h : Reachable F (ReleasesAll F) s) : Reachable F (HoldsNone F) s
  := by
  induction h with
  | init h => exact .init h
  | step hs allowed hstep ih =>
    apply StateMachine.Reachable.step ih _ hstep
    rename_i s s' e
    unfold HoldsNone Core.HoldsNone
    split
    · rename_i n hevent
      obtain ⟨rest, chain, hphase⟩ := coreEvent_eq_acquire hevent
      have hn : n ∈ s.queues.pending := by
        apply ih.walk.pending
        rw [hphase]
        exact List.mem_cons_self
      exact (Reachable.leakfree hs).holder_ne_of_pending ih.wellFormed hn
    · trivial

/-- Whenever a node is granted the resources it needs, no node of the pending queue which is to
execute and has a better priority could have all of its resources. -/
def GrantsByPriority (F : Forest) (s : Exec) : Prop :=
  ∀ n rest chain, s.phase = .acquiring (n :: rest) chain →
    (s.toCore.tryResourceAcquisition F n).2 = true →
      ∀ m ∈ s.queues.pending, Core.executes (s.dest F m) → F.priority m < F.priority n →
        ∃ r ∈ (F.decl m).needs, (s.reservable r).holder ≠ none

/-- In every run in which a node which tries to acquire its resources holds nothing, the grants
go by priority. -/
theorem grantsByPriority_of_holdsNone (h : Reachable F (HoldsNone F) s) :
  s.GrantsByPriority F
  := by
  intro n rest chain hphase _ m hm _ hlt
  have hwalk := h.priorityWalk
  unfold PriorityWalk at hwalk
  rw [hphase] at hwalk
  exact hwalk.blocked_of_lt hm hlt

/-- A list node with an exit condition and a repeat condition, and a child with the mutex 0.  The
root node 2 has the mutex 1 and a worse priority, the other root nodes have the mutex 0. -/
def twoPriorities : Forest :=
  .ofFamily
    (fun n => ⟨if n = 0 then .nodeList else .empty, if n ∈ [1] then some 0 else none,
      if n = 0 then [1] else [], if n = 2 then 1 else 0,
      if n = 0 then [] else if n = 2 then [1] else [0], 0,
      fun c => c = .end ∨ (n = 0 ∧ (c = .exit ∨ c = .repeat)) ∨ (n ≠ 0 ∧ c = .start), false⟩)
    [1] Forest.root_notMem_singleton (fun _ => rfl) (fun _ => rfl) rfl
    (fun n => by by_cases h0 : n = 0 <;> by_cases h2 : n = 2 <;> simp [h0, h2])

/-- The world in which the exit and start conditions have the given values, and the repeat
condition is true or unknown. -/
def repeatWorld (exit repeats start : Bool) : World :=
  { World.unknown with
    condition := fun _ c =>
      match c with
      | .exit => some exit
      | .repeat => if repeats then some true else none
      | .start => some start
      | _ => none }

/-- The node 4 waits for the mutex of the node 3 when the node 2 is granted its own. -/
theorem grantsByPriority_of_holdsNone_twoPriorities :
  ∃ s, StateMachine.checkedRun (apply twoPriorities)
      (fun s e => s.ReleasesMutexes twoPriorities ∧ ¬ e matches .deleteFinishedPlans)
      ([.addPlan 3, .addPlan 4, .addPlan 2, .step 0] ++
        Event.nexts 20 (repeatWorld false false true))
      (initial ∅ (repeatWorld false false true)) = some s ∧
    s.phase = .acquiring [2] [] ∧ (s.toCore.tryResourceAcquisition twoPriorities 2).2 = true ∧
    4 ∈ s.queues.pending ∧ s.GrantsByPriority twoPriorities
  := by
  have hrun : (StateMachine.checkedRun (apply twoPriorities)
      (fun s e => s.ReleasesMutexes twoPriorities ∧ ¬ e matches .deleteFinishedPlans)
      ([.addPlan 3, .addPlan 4, .addPlan 2, .step 0] ++
        Event.nexts 20 (repeatWorld false false true))
      (initial ∅ (repeatWorld false false true))).map
      (fun s => (s.phase, (s.toCore.tryResourceAcquisition twoPriorities 2).2,
        decide (4 ∈ s.queues.pending))) = some (.acquiring [2] [], true, true) := by
    decide +kernel
  obtain ⟨s, hs, hstate⟩ := Option.map_eq_some_iff.mp hrun
  obtain ⟨hphase, hrest⟩ := Prod.mk.inj hstate
  obtain ⟨hgranted, hpending⟩ := Prod.mk.inj hrest
  use s, hs, hphase, hgranted, of_decide_eq_true hpending
  apply grantsByPriority_of_holdsNone
  apply Reachable.holdsNone
  apply (StateMachine.Reachable.of_checkedRun (.init ⟨_, _, rfl⟩) hs).mono
  rintro s e ⟨hreleases, hdeletion⟩
  cases e
  case next => exact hreleases
  case deleteFinishedPlans => exact absurd rfl hdeletion
  all_goals trivial

/-- The child is interrupted and keeps its mutex.  When it starts again with the root node 2, it
tries in vain and gives the mutex up.  The root node is granted its own although the child has
precedence and could execute. -/
theorem not_grantsByPriority :
  ¬ ∀ s, Reachable twoPriorities (fun _ _ => True) s → s.GrantsByPriority twoPriorities
  := by
  intro h
  have hrun : (StateMachine.run (apply twoPriorities)
      ([.addPlan 0, .step 0] ++ Event.nexts 28 (repeatWorld false false true) ++
        [.change (repeatWorld true false true) [0, 1], .step 0] ++
        Event.nexts 18 (repeatWorld true false true) ++
        [.addPlan 2, .change (repeatWorld false true false) [0], .step 0] ++
        Event.nexts 25 (repeatWorld false true false) ++
        [.change (repeatWorld false false true) [1, 2], .step 0] ++
        Event.nexts 9 (repeatWorld false false true))
      (initial ∅ (repeatWorld false false true))).map
      (fun s => (s.phase, (s.toCore.tryResourceAcquisition twoPriorities 2).2,
        decide (1 ∈ s.queues.pending ∧ Core.executes (s.dest twoPriorities 1)),
        (s.reservable (.mutex 0)).holder)) = some (.acquiring [2] [], true, true, none) := by
    decide +kernel
  obtain ⟨s, hs, hstate⟩ := Option.map_eq_some_iff.mp hrun
  obtain ⟨hphase, hrest⟩ := Prod.mk.inj hstate
  obtain ⟨hgranted, hrest⟩ := Prod.mk.inj hrest
  obtain ⟨hchild, hfree⟩ := Prod.mk.inj hrest
  obtain ⟨hpending, hexecutes⟩ := of_decide_eq_true hchild
  have hgrants := h s (StateMachine.Reachable.of_run (.init ⟨_, _, rfl⟩) hs)
  obtain ⟨r, hr, hheld⟩ := hgrants 2 [] [] hphase hgranted 1 hpending hexecutes (by decide)
  obtain rfl : r = .mutex 0 := List.mem_singleton.mp hr
  exact hheld hfree

end Exec

end Plexil

import Plexil.Exec.Moves

/-!
# The steps of the core

An event does one thing to the core and then notifies nodes.  `Core.Step` has what it can
do; `Core.invariant` derives that a property of the core holds in all runs from its
preservation by these steps.
-/

namespace Plexil

/-- What an event does to the core, apart from notifications. -/
inductive CoreEvent where
  /-- Only bookkeeping of nodes changes. -/
  | quiet
  | notify (n : NodePtr)
  | notifyResourceAvailable (n : NodePtr)
  | addPlan (root : NodePtr)
  | deleteFinishedPlans
  /-- The first candidate is evaluated, with the destination found. -/
  | evaluate (n : NodePtr) (d : Option Dest)
  /-- A node of the pending queue is passed to `resourceCheckEligible`, with the
  destination which would be found. -/
  | examine (n : NodePtr) (d : Option Dest)
  /-- A node of the pending queue tries to acquire its resources. -/
  | acquire (n : NodePtr)
  /-- The first node of the state change queue makes its transition. -/
  | transition (n : NodePtr)

/-- A change of the bookkeeping of nodes. -/
structure Core.Quiet (c c' : Core) : Prop where
  plan : c'.plan = c.plan
  added : c'.added = c.added
  queues : c'.queues = c.queues
  reservable : c'.reservable = c.reservable
  node : ∀ n, (c.node n).SameControl (c'.node n)

/-- The destination `d` is found for the node with some values of its conditions. -/
def Core.Finds (F : Forest) (c : Core) (n : NodePtr) (d : Option Dest) : Prop :=
  ∃ v : NodeView, v.nodeType = (F.decl n).nodeType ∧ v.state = (c.node n).state ∧
    v.failureType = (c.node n).failureType ∧
    v.parentState = (F.decl n).parent.map (fun p => (c.node p).state) ∧ destState v = d

/-- The destination is a legal successor of the state. -/
theorem Core.Finds.legal {F : Forest} {c : Core} {n : NodePtr} {d : Dest}
    (h : c.Finds F n (some d)) :
  legalSuccessor (F.decl n).nodeType (c.node n).state d.state = true
  := by
  obtain ⟨v, htype, hstate, -, -, hd⟩ := h
  rw [← htype, ← hstate]
  exact destState_legal hd

/-- One step of the core. -/
inductive Core.Step (F : Forest) (c : Core) : CoreEvent → Core → Prop where
  | quiet {c' : Core} : c.Quiet c' → Step F c .quiet c'
  | notify {n : NodePtr} :
      c.exists F n → Step F c (.notify n) (c.withQueues (Queues.notify n))
  | notifyResourceAvailable {n : NodePtr} :
      c.exists F n →
      Step F c (.notifyResourceAvailable n) (c.withQueues (Queues.notifyResourceAvailable n))
  | addPlan {root : NodePtr} :
      (F.decl root).parent = none → root ∉ c.added →
      Step F c (.addPlan root)
        { c with
          plan := c.plan ++ [root]
          added := c.added ++ [root]
          queues := c.queues.notify root }
  | deleteFinishedPlans :
      Step F c .deleteFinishedPlans
        { c with
          plan := c.plan.filter (· ∉ c.queues.finishedRoot)
          queues := { c.queues with finishedRoot := [] } }
  | evaluate {n : NodePtr} {rest : List NodePtr} {d : Option Dest} :
      c.queues.candidate = n :: rest → c.Finds F n d →
      Step F c (.evaluate n d) (c.evaluateCandidate F n rest d)
  | examine {n : NodePtr} {d : Option Dest} :
      n ∈ c.queues.pending → c.Finds F n d →
      Step F c (.examine n d) (c.resourceCheckEligible F n d).1
  | acquire {n : NodePtr} :
      n ∈ c.queues.pending → Step F c (.acquire n) (c.acquire F n)
  | stay {n : NodePtr} {rest : List NodePtr} :
      c.queues.stateChange = n :: rest → (c.node n).nextState = (c.node n).state →
      Step F c (.transition n) (c.withQueues (Queues.getStateChangeNode n rest))
  | transition {n : NodePtr} {rest : List NodePtr} {c' : Core} :
      c.queues.stateChange = n :: rest → (c.node n).nextState ≠ (c.node n).state →
      Core.Transitioned F n (c.withQueues (Queues.getStateChangeNode n rest)) c' →
      Step F c (.transition n) c'

namespace Core

variable {F : Forest} {n : NodePtr} {rest : List NodePtr} {d : Option Dest} {c c' : Core}

theorem exists_eq_of_plan (h : c'.plan = c.plan) (n : NodePtr) : c'.exists F n = c.exists F n
  := by
  unfold Core.exists
  rw [h]

/-! ### What the operations do -/

/-- The core after `getDestState`; an invalid state is an error. -/
theorem getDestState_eq (F : Forest) (n : NodePtr) (d : Option Dest) (c : Core) :
  ∃ error, c.getDestState F n d =
    { c with node := Function.update c.node n ((c.node n).setDest d), error }
  := by
  unfold getDestState
  dsimp only
  split <;> exact ⟨_, rfl⟩

/-- A candidate for which a destination is found goes to the pending queue if it needs
resources, and to the state change queue otherwise. -/
theorem evaluateCandidate_eq (F : Forest) (n : NodePtr) (rest : List NodePtr) (d : Option Dest)
    (c : Core) :
  ∃ error, c.evaluateCandidate F n rest d =
    { c with
      node := Function.update c.node n ((c.node n).setDest d)
      queues :=
        match d with
        | none => c.queues.getCandidateNode n rest
        | some d =>
          if d.state = .executing ∧ (F.decl n).acquiresResources = true then
            (c.queues.getCandidateNode n rest).addPendingNode F.priority n
          else (c.queues.getCandidateNode n rest).addStateChangeNode n
      error }
  := by
  obtain ⟨error, heq⟩ :=
    getDestState_eq F n d (c.withQueues (Queues.getCandidateNode n rest))
  unfold evaluateCandidate
  dsimp only
  rw [heq]
  cases d with
  | none => exact ⟨error, rfl⟩
  | some d =>
    have hrequired : (resourceCheckRequired F n
        { c.withQueues (Queues.getCandidateNode n rest) with
          node := Function.update c.node n ((c.node n).setDest (some d)), error }) = true ↔
        d.state = .executing ∧ (F.decl n).acquiresResources = true := by
      unfold resourceCheckRequired
      simp [NodeImpl.setDest]
    use error
    by_cases h : d.state = .executing ∧ (F.decl n).acquiresResources = true
    · dsimp only
      rw [if_pos h]
      exact if_pos (hrequired.mpr h)
    · dsimp only
      rw [if_neg h]
      exact if_neg (mt hrequired.mp h)

/-- The core in which the node has a new destination. -/
def withDest (n : NodePtr) (d : Option Dest) (error : Option ExecError) (c : Core) : Core :=
  { c with node := Function.update c.node n ((c.node n).setDest d), error }

/-- Whether the node is to execute. -/
def executes (d : Option Dest) : Prop := ∃ d', d = some d' ∧ d'.state = .executing

instance : DecidablePred executes := fun d =>
  decidable_of_iff (d.map Dest.state = some .executing) Option.map_eq_some_iff

/-- A node of the pending queue which is evaluated again stays if it still is to execute.
Otherwise it leaves the queue, for the state change queue if it has a destination. -/
theorem recheckPending_eq (F : Forest) (n : NodePtr) (d : Option Dest) (c : Core) :
  ∃ error, executes d ∧ c.recheckPending F n d = (c.withDest n d error, true) ∨
    ¬ executes d ∧ c.recheckPending F n d =
      (((c.withDest n d error).removePendingNode F n).withQueues
        (if d = none then id else Queues.addStateChangeNode n), false)
  := by
  obtain ⟨error, heq⟩ := getDestState_eq F n d c
  use error
  unfold recheckPending
  dsimp only
  rw [heq]
  cases d with
  | none =>
    apply Or.inr
    constructor
    · rintro ⟨d', h, -⟩
      cases h
    · rfl
  | some d =>
    by_cases h : d.state = .executing
    · apply Or.inl
      constructor
      · exact ⟨d, rfl, h⟩
      · apply if_neg
        simp [NodeImpl.setDest, h]
    · apply Or.inr
      constructor
      · rintro ⟨d', hd', h'⟩
        cases hd'
        exact h h'
      · apply if_pos
        simpa [NodeImpl.setDest] using h

theorem plan_resourceCheckEligible (F : Forest) (n : NodePtr) (d : Option Dest) (c : Core) :
  (c.resourceCheckEligible F n d).1.plan = c.plan ∧
    (c.resourceCheckEligible F n d).1.added = c.added
  := by
  obtain ⟨error, hrecheck⟩ := recheckPending_eq F n d c
  have hplan : (c.recheckPending F n d).1.plan = c.plan ∧
      (c.recheckPending F n d).1.added = c.added := by
    rcases hrecheck with ⟨-, heq⟩ | ⟨-, heq⟩ <;> rw [heq] <;> exact ⟨rfl, rfl⟩
  unfold resourceCheckEligible
  split
  · exact hplan
  · exact hplan
  all_goals exact ⟨rfl, rfl⟩

theorem acquire_eq (F : Forest) (n : NodePtr) (c : Core) :
  (∃ c₁, Acquires F n c c₁ ∧
    c.acquire F n = (c₁.removePendingNode F n).withQueues (Queues.addStateChangeNode n)) ∨
  (∃ c₁, Waits F n c c₁ ∧ c.acquire F n = c₁.withQueues (Queues.setStatus n .pending))
  := by
  unfold acquire
  rcases tryResourceAcquisition_spec F n c with ⟨hsuccess, h⟩ | ⟨hsuccess, h⟩
  · apply Or.inl
    use (c.tryResourceAcquisition F n).1
    constructor
    · exact h
    · dsimp only
      rw [hsuccess]
      rfl
  · apply Or.inr
    use (c.tryResourceAcquisition F n).1
    constructor
    · exact h
    · dsimp only
      rw [hsuccess]
      rfl

theorem plan_acquire (F : Forest) (n : NodePtr) (c : Core) :
  (c.acquire F n).plan = c.plan ∧ (c.acquire F n).added = c.added
  := by
  rcases acquire_eq F n c with ⟨c₁, h, heq⟩ | ⟨c₁, h, heq⟩
  · rw [heq]
    exact ⟨h.plan, h.added⟩
  · rw [heq]
    exact ⟨h.plan, h.added⟩

/-! ### Well-formed queues -/

/-- A node leaves the pending queue, for the state change queue or for none. -/
theorem wellFormed_leavePending {q : Queues} (h : q.WellFormed) (hn : n ∈ q.pending)
    (gone : Prop) [Decidable gone] :
  ((if gone then id else Queues.addStateChangeNode n) (q.removePending n)).WellFormed
  := by
  have removed := h.removePending hn
  split
  · exact removed
  · exact removed.addStateChangeNode n

theorem status_leavePending (q : Queues) (n : NodePtr) (gone : Prop) [Decidable gone] :
  ((if gone then id else Queues.addStateChangeNode n) (q.removePending n)).status n =
    if gone then .none else .transition
  := by
  split
  · exact Queues.status_removePending.trans (if_pos rfl)
  · rw [Queues.status_addStateChangeNode, if_pos rfl]
    rw [Queues.status_removePending, if_pos rfl]

theorem wellFormed_resourceCheckEligible {c : Core} (h : c.queues.WellFormed)
    (hn : n ∈ c.queues.pending) :
  (c.resourceCheckEligible F n d).1.queues.WellFormed
  := by
  obtain ⟨error, hrecheck⟩ := recheckPending_eq F n d c
  unfold resourceCheckEligible
  split
  · rename_i hstatus
    rcases hrecheck with ⟨-, heq⟩ | ⟨-, heq⟩
    · rw [heq]
      apply h.setStatus
      rw [hstatus]
      rfl
    · rw [heq]
      have hself := status_leavePending c.queues n (d = none)
      apply (wellFormed_leavePending h hn (d = none)).setPending <;> rw [hself] <;> split <;> simp
  · rcases hrecheck with ⟨-, heq⟩ | ⟨-, heq⟩
    · rw [heq]
      exact h
    · rw [heq]
      exact wellFormed_leavePending h hn (d = none)
  · exact h
  · exact h
  · exact h

/-- Every step keeps the queues well-formed. -/
theorem Step.wellFormed {e : CoreEvent} (h : Step F c e c') (hc : c.queues.WellFormed) :
  c'.queues.WellFormed
  := by
  cases h
  case quiet h =>
    rw [h.queues]
    exact hc
  case notify => exact hc.notify _
  case notifyResourceAvailable => exact hc.notifyResourceAvailable _
  case addPlan => exact hc.notify _
  case deleteFinishedPlans => exact hc.clearFinishedRoot
  case evaluate n rest d hcandidate hfinds =>
    obtain ⟨error, heq⟩ := evaluateCandidate_eq F n rest d c
    rw [heq]
    have taken := hc.getCandidateNode hcandidate
    cases d with
    | none => exact taken
    | some d =>
      dsimp only
      split
      · exact taken.addPendingNode _ Queues.setStatus_self
      · exact taken.addStateChangeNode n
  case examine n d hpending hfinds => exact wellFormed_resourceCheckEligible hc hpending
  case acquire n hpending =>
    rcases acquire_eq F n c with ⟨c₁, h, heq⟩ | ⟨c₁, h, heq⟩
    · rw [heq]
      change ((c₁.queues.removePending n).addStateChangeNode n).WellFormed
      rw [h.queues]
      exact (hc.removePending hpending).addStateChangeNode n
    · rw [heq]
      obtain ⟨told, htold⟩ := h.queues
      change (c₁.queues.setStatus n .pending).WellFormed
      rw [htold]
      have waited := hc.notifyAllResourceAvailable told
      apply waited.setStatus
      rw [waited.queue_of_pending]
      · rfl
      · rw [Queues.notifyAllResourceAvailable_eq]
        exact hpending
  case stay n rest hstateChange hnext => exact hc.getStateChangeNode hstateChange
  case transition n rest hstateChange hnext h =>
    obtain ⟨told, heq, -⟩ := h.queues_eq
    have taken := hc.getStateChangeNode hstateChange
    have released := taken.notifyAllResourceAvailable told
    rw [heq]
    apply Queues.WellFormed.notifyAll
    split
    · exact released.addFinishedRootNode n
    · exact released.notify n

end Core

/-- The nodes which the loops over the pending queue still are to look at. -/
def Phase.walk : Phase → List NodePtr
  | .gathering _ acc chain | .acquiring acc chain => acc ++ chain
  | _ => []

namespace Exec

/-- What an event does to the core. -/
def coreEvent (F : Forest) (s : Exec) : Event → CoreEvent
  | .addPlan root => .addPlan root
  | .notify n => .notify n
  | .notifyResourceAvailable n => .notifyResourceAvailable n
  | .deleteFinishedPlans => .deleteFinishedPlans
  | .next _ _ =>
    match s.phase with
    | .evaluating =>
      match s.queues.candidate with
      | n :: _ => .evaluate n (s.dest F n)
      | [] => .quiet
    | .gathering thisPriority _ (temp :: _) =>
      if F.priority temp = thisPriority then .examine temp (s.dest F temp) else .quiet
    | .acquiring (n :: _) _ => .acquire n
    | .transitioning =>
      match s.queues.stateChange with
      | n :: _ => .transition n
      | [] => .quiet
    | _ => .quiet
  | _ => .quiet

/-- The loops over the pending queue see nodes of the queue, and each of them once. -/
structure Walk (s : Exec) : Prop where
  nodup : s.phase.walk.Nodup
  pending : ∀ n ∈ s.phase.walk, n ∈ s.queues.pending

section

variable {F : Forest} {s s' : Exec} {e : Event}

theorem coreEvent_next {w : World} {ns : List NodePtr} :
  s.coreEvent F (.next w ns) =
    match s.phase with
    | .evaluating =>
      match s.queues.candidate with
      | n :: _ => .evaluate n (s.dest F n)
      | [] => .quiet
    | .gathering thisPriority _ (temp :: _) =>
      if F.priority temp = thisPriority then .examine temp (s.dest F temp) else .quiet
    | .acquiring (n :: _) _ => .acquire n
    | .transitioning =>
      match s.queues.stateChange with
      | n :: _ => .transition n
      | [] => .quiet
    | _ => .quiet
  := rfl

theorem coreEvent_eq_transition {n : NodePtr} (h : s.coreEvent F e = .transition n) :
  (∃ w ns, e = .next w ns) ∧ s.phase = .transitioning ∧ ∃ rest, s.queues.stateChange = n :: rest
  := by
  unfold coreEvent at h
  split at h <;> try cases h
  split at h
  · split at h <;> cases h
  · split at h <;> cases h
  · cases h
  · rename_i hphase
    split at h
    · rename_i hstateChange
      cases h
      exact ⟨⟨_, _, rfl⟩, hphase, _, hstateChange⟩
    · cases h
  · cases h

theorem coreEvent_eq_evaluate {n : NodePtr} {d : Option Dest}
    (h : s.coreEvent F e = .evaluate n d) :
  s.phase = .evaluating ∧ d = s.dest F n
  := by
  unfold coreEvent at h
  split at h <;> try cases h
  split at h
  · rename_i hphase
    split at h <;> cases h
    exact ⟨hphase, rfl⟩
  · split at h <;> cases h
  · cases h
  · split at h <;> cases h
  · cases h

theorem coreEvent_eq_examine {n : NodePtr} {d : Option Dest}
    (h : s.coreEvent F e = .examine n d) :
  (∃ w ns, e = .next w ns) ∧ (∃ acc rest, s.phase = .gathering (F.priority n) acc (n :: rest)) ∧
    d = s.dest F n
  := by
  unfold coreEvent at h
  split at h <;> try cases h
  split at h
  · split at h <;> cases h
  · rename_i hphase
    split at h
    · rename_i hpriority
      cases h
      exact ⟨⟨_, _, rfl⟩, ⟨_, _, hpriority ▸ hphase⟩, rfl⟩
    · cases h
  · cases h
  · split at h <;> cases h
  · cases h

theorem coreEvent_eq_acquire {n : NodePtr} (h : s.coreEvent F e = .acquire n) :
  ∃ rest chain, s.phase = .acquiring (n :: rest) chain
  := by
  unfold coreEvent at h
  split at h <;> try cases h
  split at h
  · split at h <;> cases h
  · split at h <;> cases h
  · rename_i hphase
    cases h
    exact ⟨_, _, hphase⟩
  · split at h <;> cases h
  · cases h

theorem coreEvent_eq_deleteFinishedPlans (h : s.coreEvent F e = .deleteFinishedPlans) :
  e = .deleteFinishedPlans
  := by
  unfold coreEvent at h
  split at h <;> try cases h
  · rfl
  · split at h
    · split at h <;> cases h
    · split at h <;> cases h
    · cases h
    · split at h <;> cases h
    · cases h

theorem finds_dest (F : Forest) (s : Exec) (n : NodePtr) : s.Finds F n (s.dest F n)
  := ⟨s.view F n, rfl, rfl, rfl, rfl, rfl⟩

/-! ### Bookkeeping -/

theorem quiet_refl (c : Core) : c.Quiet c
  := ⟨rfl, rfl, rfl, rfl, fun _ => .refl _⟩

theorem quiet_modifyNode {n : NodePtr} {f : NodeImpl → NodeImpl}
    (h : (s.node n).SameControl (f (s.node n))) :
  s.toCore.Quiet (s.modifyNode n f).toCore
  := by
  have hb := Bookkeeping.modifyNode h
  constructor
  case plan => exact hb.plan
  case added => exact hb.added
  case queues => exact hb.queues
  case reservable => exact hb.reservable
  case node =>
    intro m
    by_cases hm : m = n
    · rw [hm]
      exact hb.self
    · rw [hb.others m hm]
      exact .refl _

theorem toCore_beginGathering (F : Forest) (chain : List NodePtr) (s : Exec) :
  (s.beginGathering F chain).toCore = s.toCore
  := by
  unfold beginGathering beginTransitions
  split
  · split <;> rfl
  · rfl

/-- A node without a new state is only taken from the state change queue. -/
theorem transitionNode_cases (F : Forest) (n : NodePtr) (rest : List NodePtr) (s : Exec) :
  (s.node n).nextState = (s.node n).state ∧
      s.transitionNode F n rest = s.onCore (Core.withQueues (Queues.getStateChangeNode n rest)) ∨
    (s.node n).nextState ≠ (s.node n).state ∧
      Transitioned F n (s.onCore (Core.withQueues (Queues.getStateChangeNode n rest)))
        (s.transitionNode F n rest)
  := by
  by_cases hnext : (s.node n).nextState = (s.node n).state
  · exact .inl ⟨hnext, if_pos hnext⟩
  · apply Or.inr
    constructor
    · exact hnext
    · apply transition_spec
      exact hnext

theorem plan_transitionNode (F : Forest) (n : NodePtr) (rest : List NodePtr) (s : Exec) :
  (s.transitionNode F n rest).plan = s.plan
  := by
  rcases transitionNode_cases F n rest s with ⟨-, heq⟩ | ⟨-, h⟩
  · rw [heq]
    rfl
  · exact h.core.plan

theorem phase_transitionNode (F : Forest) (n : NodePtr) (rest : List NodePtr) (s : Exec) :
  (s.transitionNode F n rest).phase = s.phase
  := by
  rcases transitionNode_cases F n rest s with ⟨-, heq⟩ | ⟨-, h⟩
  · rw [heq]
    rfl
  · exact h.phase

theorem walk_arbitrate (h : s.arbitrate = some s') : s'.phase.walk = []
  := by
  unfold arbitrate at h
  split at h
  · cases h
    rfl
  · obtain ⟨⟨arbiter, accepted, rejected⟩, -, rfl⟩ := Option.map_eq_some_iff.mp h
    rfl

theorem toCore_arbitrate (h : s.arbitrate = some s') : s'.toCore = s.toCore
  := by
  unfold arbitrate at h
  split at h
  · cases h
    rfl
  · obtain ⟨⟨arbiter, accepted, rejected⟩, -, rfl⟩ := Option.map_eq_some_iff.mp h
    rfl

/-- The loop over the pending queue starts with `chain`. -/
theorem walk_beginGathering (F : Forest) (chain : List NodePtr) (s : Exec) :
  (s.beginGathering F chain).phase.walk = chain
  := by
  unfold beginGathering beginTransitions
  split
  · split <;> rfl
  · rfl

end

end Exec

/-- An event makes one step of the core, and then notifies nodes. -/
theorem Move.core {F : Forest} {s s' : Exec} {e : Event} (h : Move F s e s') (walk : s.Walk) :
  ∃ c₁ ns, Core.Step F s.toCore (s.coreEvent F e) c₁ ∧ (∀ n ∈ ns, c₁.exists F n) ∧
    s'.toCore = c₁.withQueues (Queues.notifyAll ns)
  := by
  have quietly (ns : List NodePtr) {c₁ : Core} (hquiet : s.toCore.Quiet c₁)
      (hevent : s.coreEvent F e = .quiet) (hns : s.allExist F ns)
      (hs' : s'.toCore = c₁.withQueues (Queues.notifyAll ns)) :
      ∃ c₁ ns, Core.Step F s.toCore (s.coreEvent F e) c₁ ∧ (∀ n ∈ ns, c₁.exists F n) ∧
        s'.toCore = c₁.withQueues (Queues.notifyAll ns) := by
    refine ⟨c₁, ns, ?_, ?_, hs'⟩
    · rw [hevent]
      exact .quiet hquiet
    · intro n hn
      unfold Core.exists
      rw [hquiet.plan]
      exact List.all_eq_true.mp hns n hn
  have tail {n : NodePtr} {ns : List NodePtr} (hns : s.allExist F (n :: ns)) :
      s.allExist F ns := (Bool.and_eq_true_iff.mp hns).2
  cases h
  case addPlan root hphase hroot hadded =>
    exact ⟨_, [], .addPlan hroot hadded, by simp, rfl⟩
  case notify n hexists => exact ⟨_, [], .notify hexists, by simp, rfl⟩
  case notifyResourceAvailable n hexists =>
    exact ⟨_, [], .notifyResourceAvailable hexists, by simp, rfl⟩
  case change w ns hphase hns => exact quietly _ (Exec.quiet_refl _) rfl hns rfl
  case deleteFinishedPlans hphase =>
    exact ⟨_, [], .deleteFinishedPlans, by simp, rfl⟩
  case commandHandle n handle w ns hphase htype hhandle hns =>
    apply quietly _ (Exec.quiet_modifyNode ?_) rfl (tail hns) rfl
    split <;> exact ⟨rfl, rfl, rfl, rfl, rfl, rfl⟩
  case commandAbortAck n ack w ns hphase htype hns =>
    apply quietly _ (Exec.quiet_modifyNode ?_) rfl (tail hns) rfl
    split <;> exact ⟨rfl, rfl, rfl, rfl, rfl, rfl⟩
  case updateAck n ack w ns hphase htype hns =>
    exact quietly _ (Exec.quiet_modifyNode ⟨rfl, rfl, rfl, rfl, rfl, rfl⟩) rfl (tail hns) rfl
  case step startTime hphase hstateChange =>
    exact quietly [] (Exec.quiet_refl _) rfl rfl rfl
  case evaluate w ns rest n hphase hcandidate =>
    refine ⟨s.toCore.evaluateCandidate F n rest (s.dest F n), [], ?_, by simp, rfl⟩
    rw [Exec.coreEvent_next, hphase, hcandidate]
    exact .evaluate hcandidate (Exec.finds_dest F s n)
  case resolve w ns hphase hcandidate =>
    apply quietly [] (Exec.quiet_refl _) _ rfl (Exec.toCore_beginGathering ..)
    rw [Exec.coreEvent_next, hphase, hcandidate]
  case gather w ns acc rest thisPriority temp hphase hpriority =>
    refine ⟨(s.toCore.resourceCheckEligible F temp (s.dest F temp)).1, [], ?_, by simp, rfl⟩
    rw [Exec.coreEvent_next, hphase]
    dsimp only
    rw [if_pos hpriority]
    apply Core.Step.examine _ (Exec.finds_dest F s temp)
    apply walk.pending
    rw [hphase]
    simp [Phase.walk]
  case gathered w ns acc chain thisPriority hphase hpriority =>
    apply quietly [] (Exec.quiet_refl _) _ rfl rfl
    rw [Exec.coreEvent_next, hphase]
    cases chain with
    | nil => rfl
    | cons temp rest => exact if_neg (hpriority temp rfl)
  case acquire w ns rest chain n hphase =>
    refine ⟨s.toCore.acquire F n, [], ?_, by simp, rfl⟩
    rw [Exec.coreEvent_next, hphase]
    apply Core.Step.acquire
    apply walk.pending
    rw [hphase]
    simp [Phase.walk]
  case acquired w ns chain hphase =>
    apply quietly [] (Exec.quiet_refl _) _ rfl (Exec.toCore_beginGathering ..)
    rw [Exec.coreEvent_next, hphase]
  case transition w ns rest n hphase hstateChange hns =>
    have hexist : ∀ m ∈ ns, s.exists F m := List.all_eq_true.mp hns
    refine ⟨(s.transitionNode F n rest).toCore, ns, ?_, ?_, rfl⟩
    · rw [Exec.coreEvent_next, hphase, hstateChange]
      rcases Exec.transitionNode_cases F n rest s with ⟨hnext, heq⟩ | ⟨hnext, h⟩
      · rw [heq]
        exact .stay hstateChange hnext
      · exact .transition hstateChange hnext h.core
    · intro m hm
      unfold Core.exists
      rw [Exec.plan_transitionNode]
      exact hexist m hm
  case continueLoop w ns hphase hstateChange hcontinue =>
    apply quietly [] (Exec.quiet_refl _) _ rfl rfl
    rw [Exec.coreEvent_next, hphase, hstateChange]
  case leaveLoop w ns hphase hstateChange hcontinue =>
    apply quietly [] (Exec.quiet_refl _) _ rfl rfl
    rw [Exec.coreEvent_next, hphase, hstateChange]
  case executeAssignment w ns rest n hphase hns =>
    apply quietly _ (Exec.quiet_modifyNode ⟨rfl, rfl, rfl, rfl, rfl, rfl⟩) _ hns rfl
    rw [Exec.coreEvent_next, hphase]
  case assignmentsExecuted w ns hphase =>
    apply quietly [] (Exec.quiet_refl _) _ rfl rfl
    rw [Exec.coreEvent_next, hphase]
  case retractAssignment w ns rest n hphase hns =>
    apply quietly _ (Exec.quiet_modifyNode ⟨rfl, rfl, rfl, rfl, rfl, rfl⟩) _ hns rfl
    rw [Exec.coreEvent_next, hphase]
  case arbitrate w ns hphase harbitrate =>
    have hcore := Exec.toCore_arbitrate harbitrate
    apply quietly [] (Exec.quiet_refl _) _ rfl hcore
    rw [Exec.coreEvent_next, hphase]
  case executeCommand w ns accepted rejected n hphase hns =>
    apply quietly _ (Exec.quiet_refl _) _ hns rfl
    rw [Exec.coreEvent_next, hphase]
  case reportFailure w ns rejected n hphase hns =>
    apply quietly _ (Exec.quiet_modifyNode ?_) _ hns rfl
    · split <;> exact ⟨rfl, rfl, rfl, rfl, rfl, rfl⟩
    · rw [Exec.coreEvent_next, hphase]
  case commandsExecuted w ns hphase =>
    apply quietly [] (Exec.quiet_refl _) _ rfl rfl
    rw [Exec.coreEvent_next, hphase]
  case invokeAbort w ns rest n hphase houtput hns =>
    apply quietly _ (Exec.quiet_refl _) _ hns rfl
    rw [Exec.coreEvent_next, hphase]
  case abortsInvoked w ns hphase houtput =>
    apply quietly [] (Exec.quiet_refl _) _ rfl rfl
    rw [Exec.coreEvent_next, hphase]
  case executeUpdate w ns rest n hphase houtput hns =>
    apply quietly _ (Exec.quiet_refl _) _ hns rfl
    rw [Exec.coreEvent_next, hphase]
  case updatesExecuted w ns hphase houtput =>
    apply quietly [] (Exec.quiet_refl _) _ rfl rfl
    rw [Exec.coreEvent_next, hphase]

/-! ### The loops over the pending queue -/

namespace Core

variable {F : Forest} {n : NodePtr} {d : Option Dest} {c : Core}

theorem pending_leavePending (q : Queues) (n : NodePtr) (gone : Prop) [Decidable gone] :
  ((if gone then id else Queues.addStateChangeNode n) (q.removePending n)).pending =
    q.pending.erase n
  := by
  split
  · rfl
  · unfold Queues.addStateChangeNode
    split <;> rfl

/-- A node which leaves the pending queue is not eligible. -/
theorem pending_resourceCheckEligible (F : Forest) (n : NodePtr) (d : Option Dest) (c : Core) :
  (c.resourceCheckEligible F n d).1.queues.pending = c.queues.pending ∨
    (c.resourceCheckEligible F n d).1.queues.pending = c.queues.pending.erase n ∧
      (c.resourceCheckEligible F n d).2 = false
  := by
  obtain ⟨error, hrecheck⟩ := recheckPending_eq F n d c
  unfold resourceCheckEligible
  split
  · rcases hrecheck with ⟨-, heq⟩ | ⟨-, heq⟩
    · rw [heq]
      exact .inl rfl
    · rw [heq]
      exact .inr ⟨pending_leavePending .., rfl⟩
  · rcases hrecheck with ⟨-, heq⟩ | ⟨-, heq⟩
    · rw [heq]
      exact .inl rfl
    · rw [heq]
      exact .inr ⟨pending_leavePending .., rfl⟩
  · exact .inl rfl
  · exact .inl rfl
  · exact .inl rfl

theorem pending_acquire (F : Forest) (n : NodePtr) (c : Core) :
  (c.acquire F n).queues.pending = c.queues.pending ∨
    (c.acquire F n).queues.pending = c.queues.pending.erase n
  := by
  rcases acquire_eq F n c with ⟨c₁, h, heq⟩ | ⟨c₁, h, heq⟩
  · rw [heq]
    have hpending := pending_leavePending c₁.queues n False
    rw [h.queues] at hpending
    exact .inr ((congrArg Queues.pending
      (congrArg (Queues.addStateChangeNode n) (congrArg (Queues.removePending n) h.queues))).trans hpending)
  · rw [heq]
    obtain ⟨told, htold⟩ := h.queues
    apply Or.inl
    change c₁.queues.pending = _
    rw [htold, Queues.notifyAllResourceAvailable_eq]

end Core

namespace Exec

variable {s s' : Exec}

theorem Walk.of_nil (h : s.phase.walk = []) : s.Walk
  := by
  constructor
  · rw [h]
    exact List.nodup_nil
  · rw [h]
    simp

/-- The walk stays as it is when the queue does. -/
theorem Walk.congr (h : s.Walk) (hwalk : s'.phase.walk = s.phase.walk)
    (hpending : s'.queues.pending = s.queues.pending) :
  s'.Walk
  := by
  constructor
  · rw [hwalk]
    exact h.nodup
  · rw [hwalk, hpending]
    exact h.pending

/-- A shorter walk over a queue which the node `n` may have left. -/
theorem Walk.shorten {n : NodePtr} (h : s.Walk) (hwalk : s'.phase.walk.Sublist s.phase.walk)
    (hpending : s'.queues.pending = s.queues.pending ∨
      s'.queues.pending = s.queues.pending.erase n ∧ n ∉ s'.phase.walk) :
  s'.Walk
  := by
  constructor
  · exact h.nodup.sublist hwalk
  · intro m hm
    have hm' := h.pending m (hwalk.subset hm)
    rcases hpending with heq | ⟨heq, hn⟩
    · rw [heq]
      exact hm'
    · rw [heq, List.mem_erase_of_ne (ne_of_mem_of_not_mem hm hn)]
      exact hm'

end Exec

theorem Move.walk {F : Forest} {s s' : Exec} {e : Event} (h : Move F s e s') (hs : s.Walk)
    (hq : s.queues.WellFormed) :
  s'.Walk
  := by
  have idle (hphase : s.phase = .idle) : s.phase.walk = [] := congrArg Phase.walk hphase
  cases h
  case addPlan root hphase hroot hadded => exact .of_nil (idle hphase)
  case notify n hexists => exact hs.congr rfl Queues.pending_notify
  case notifyResourceAvailable n hexists =>
    exact hs.congr rfl Queues.pending_notifyResourceAvailable
  case change w ns hphase hns => exact .of_nil (idle hphase)
  case commandHandle n handle w ns hphase htype hhandle hns => exact .of_nil (idle hphase)
  case commandAbortAck n ack w ns hphase htype hns => exact .of_nil (idle hphase)
  case updateAck n ack w ns hphase htype hns => exact .of_nil (idle hphase)
  case deleteFinishedPlans hphase => exact .of_nil (idle hphase)
  case evaluate w ns rest n hphase hcandidate => exact .of_nil (congrArg Phase.walk hphase)
  case resolve w ns hphase hcandidate =>
    constructor
    · rw [Exec.walk_beginGathering]
      exact hq.nodup .pending
    · rw [Exec.walk_beginGathering, Exec.toCore_beginGathering]
      exact fun _ hn => hn
  case gather w ns acc rest thisPriority temp hphase hpriority =>
    have hwalk : s.phase.walk = acc ++ temp :: rest := congrArg Phase.walk hphase
    have hnodup := hs.nodup
    rw [hwalk] at hnodup
    rcases Core.pending_resourceCheckEligible F temp (s.dest F temp) s.toCore with
      hpending | ⟨hpending, heligible⟩
    · apply hs.shorten (n := temp) _ (.inl hpending)
      rw [hwalk]
      unfold Exec.gather
      dsimp only [Phase.walk]
      have htemp : temp ∈
          (s.resourceCheckEligible F temp (s.dest F temp)).1.queues.pending := by
        rw [hpending]
        exact hs.pending temp (by simp [hwalk])
      rw [if_pos htemp]
      split
      · rw [List.append_assoc]
        exact .refl _
      · exact (List.sublist_cons_self temp rest).append_left acc
    · have hgone : temp ∉ s.queues.pending.erase temp :=
        (hq.nodup .pending).not_mem_erase
      have hwalk' : (s.gather F thisPriority acc temp rest).phase.walk = acc := by
        unfold Exec.gather
        dsimp only [Phase.walk]
        rw [heligible, hpending, if_neg hgone]
        simp
      apply hs.shorten (n := temp)
      · rw [hwalk', hwalk]
        exact List.sublist_append_left ..
      · rw [hwalk']
        exact .inr ⟨hpending, (List.nodup_append'.mp hnodup).2.2.mt (by simp)⟩
  case gathered w ns acc chain thisPriority hphase hpriority =>
    have hwalk : s.phase.walk = acc ++ chain := congrArg Phase.walk hphase
    apply hs.congr
    · exact hwalk.symm
    · rfl
  case acquire w ns rest chain n hphase =>
    have hwalk : s.phase.walk = n :: rest ++ chain := congrArg Phase.walk hphase
    have hnodup := hs.nodup
    rw [hwalk] at hnodup
    apply hs.shorten (n := n)
    · rw [hwalk]
      exact List.sublist_cons_self ..
    · exact (Core.pending_acquire F n s.toCore).imp_right
        fun h => ⟨h, (List.nodup_cons.mp hnodup).1⟩
  case acquired w ns chain hphase =>
    have hwalk : s.phase.walk = chain := congrArg Phase.walk hphase
    apply hs.congr
    · rw [Exec.walk_beginGathering, hwalk]
    · rw [Exec.toCore_beginGathering]
  case transition w ns rest n hphase hstateChange hns =>
    apply Exec.Walk.of_nil
    change (s.transitionNode F n rest).phase.walk = []
    rw [Exec.phase_transitionNode, hphase]
    rfl
  case arbitrate w ns hphase harbitrate =>
    exact .of_nil (Exec.walk_arbitrate harbitrate)
  case invokeAbort w ns rest n hphase houtput hns => exact .of_nil (congrArg Phase.walk hphase)
  case executeUpdate w ns rest n hphase houtput hns => exact .of_nil (congrArg Phase.walk hphase)
  all_goals exact .of_nil rfl

/-! ### Invariants of all runs -/

namespace Exec

/-- The executive before a run. -/
def Initial (s : Exec) : Prop := ∃ hierarchy w, s = initial hierarchy w

/-- The states of the executive in runs whose events are all allowed. -/
abbrev Reachable (F : Forest) (Allowed : Exec → Event → Prop) : Exec → Prop :=
  StateMachine.Reachable (apply F) Initial Allowed

variable {F : Forest} {Allowed : Exec → Event → Prop} {s : Exec}

theorem wellFormed_initial (hierarchy : ResourceHierarchyMap) (w : World) :
  (initial hierarchy w).queues.WellFormed
  := by
  constructor
  case nodup =>
    intro k
    cases k <;> exact List.nodup_nil
  case mem_of_queue =>
    intro n k hk
    cases hk
  case queue_of_mem =>
    intro n k hn
    cases k <;> cases hn
  case disjoint =>
    intro n hn
    cases hn

theorem Reachable.wellFormed_and_walk (h : Reachable F Allowed s) :
  s.queues.WellFormed ∧ s.Walk
  := by
  apply h.invariant (P := fun s => s.queues.WellFormed ∧ s.Walk)
  · rintro s ⟨hierarchy, w, rfl⟩
    exact ⟨wellFormed_initial hierarchy w, .of_nil rfl⟩
  · rintro s e s' ⟨hq, hw⟩ - hstep
    have hmove := Move.of_apply hstep
    obtain ⟨c₁, ns, hcore, -, heq⟩ := hmove.core hw
    constructor
    · rw [heq]
      exact (hcore.wellFormed hq).notifyAll ns
    · exact hmove.walk hw hq

theorem Reachable.wellFormed (h : Reachable F Allowed s) : s.queues.WellFormed
  := h.wellFormed_and_walk.1

theorem Reachable.walk (h : Reachable F Allowed s) : s.Walk
  := h.wellFormed_and_walk.2

/-- A property which notifications keep holds after the notification of any nodes. -/
theorem notifyAll_induction {P : Core → Prop}
    (notify : ∀ c n, c.queues.WellFormed → P c → c.exists F n →
      P (c.withQueues (Queues.notify n)))
    {c : Core} {ns : List NodePtr} (hq : c.queues.WellFormed) (hc : P c)
    (hns : ∀ n ∈ ns, c.exists F n) :
  P (c.withQueues (Queues.notifyAll ns))
  := by
  induction ns generalizing c with
  | nil => exact hc
  | cons n ns ih =>
    have hfirst := notify c n hq hc (hns n (.head ns))
    exact ih (c := c.withQueues (Queues.notify n)) (hq.notify n) hfirst
      fun m hm => hns m (.tail n hm)

/-- The invariant rule for the core: what every allowed step of the core preserves holds in
all runs. -/
theorem Reachable.core_invariant {P : Core → Prop} (Ok : Core → CoreEvent → Prop)
    (allowed : ∀ s e s', Reachable F Allowed s → Allowed s e → apply F s e = some s' →
      Ok s.toCore (s.coreEvent F e))
    (notify : ∀ c n, Ok c (.notify n))
    (init : ∀ hierarchy w, P (initial hierarchy w).toCore)
    (preserved : ∀ c e c', c.queues.WellFormed → P c → Ok c e → Core.Step F c e c' → P c')
    (h : Reachable F Allowed s) :
  P s.toCore
  := by
  apply h.invariant_of (Q := Reachable F Allowed) (P := fun s => P s.toCore)
  · exact fun s hs => hs
  · rintro s ⟨hierarchy, w, rfl⟩
    exact init hierarchy w
  · rintro s e s' hs hP hallowed hstep
    have hq := hs.wellFormed
    have hw := hs.walk
    obtain ⟨c₁, ns, hcore, hns, heq⟩ := (Move.of_apply hstep).core hw
    rw [heq]
    apply notifyAll_induction _ (hcore.wellFormed hq) _ hns
    · intro c n hq hc hn
      exact preserved c _ _ hq hc (notify c n) (.notify hn)
    · exact preserved _ _ _ hq hP (allowed s e s' hs hallowed hstep) hcore

end Exec
end Plexil

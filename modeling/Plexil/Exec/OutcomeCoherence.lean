import Plexil.Exec.MutualExclusion

/-!
# Outcomes and failure types

The outcome of a node fits its state, and its failure type fits the outcome.  `getDestState`
keeps what it has found in the node until the transition.  `Traced` records the destination
which the last call of `getDestState` has found for each node: a transition sets the outcome
and the failure type of this destination, and nothing else is left over.
-/

namespace Plexil

/-! ### Outcomes which fit -/

/-- The outcomes which a node can have in a state. -/
def NodeState.admits : NodeState → NodeOutcome → Bool
  | inactive, o | waiting, o | executing, o | finishing, o => o = .noOutcome
  | failing, o => o = .failure ∨ o = .interrupted
  | iterationEnded, o | finished, o => o ≠ .noOutcome
  | noNodeState, _ => false

/-- The failure types which come with an outcome. -/
def NodeOutcome.admits : NodeOutcome → FailureType → Bool
  | noOutcome, f | success, f | skipped, f => f = .noFailure
  | interrupted, f => f = .parentExited ∨ f = .exited
  | failure, f =>
    f = .preConditionFailed ∨ f = .postConditionFailed ∨ f = .invariantConditionFailed ∨
      f = .parentFailed

/-- The state, the outcome and the failure type of a node fit together. -/
structure Published.Coherent (x : Published) : Prop where
  ended : x.state = .iterationEnded ∨ x.state = .finished → x.outcome ≠ .noOutcome
  idle : x.state = .inactive ∨ x.state = .waiting → x.outcome = .noOutcome
  noFailure : x.outcome = .success ∨ x.outcome = .skipped ∨ x.outcome = .noOutcome →
    x.failureType = .noFailure
  interrupted : x.outcome = .interrupted ↔
    x.failureType = .parentExited ∨ x.failureType = .exited
  failure : x.outcome = .failure ↔
    x.failureType = .preConditionFailed ∨ x.failureType = .postConditionFailed ∨
      x.failureType = .invariantConditionFailed ∨ x.failureType = .parentFailed
  failing : x.state = .failing → x.failureType ≠ .noFailure

theorem Published.coherent_of_admits {x : Published} (hstate : x.state.admits x.outcome = true)
    (houtcome : x.outcome.admits x.failureType = true) :
  x.Coherent
  := by
  have hfailing : x.state = .failing → x.outcome = .failure ∨ x.outcome = .interrupted := by
    intro h
    rw [h] at hstate
    exact of_decide_eq_true hstate
  constructor
  case ended =>
    rintro (h | h) <;> rw [h] at hstate <;> exact of_decide_eq_true hstate
  case idle =>
    rintro (h | h) <;> rw [h] at hstate <;> exact of_decide_eq_true hstate
  case noFailure =>
    rintro (h | h | h) <;> rw [h] at houtcome <;> exact of_decide_eq_true houtcome
  case interrupted =>
    revert houtcome
    cases x.outcome <;> cases x.failureType <;> decide
  case failure =>
    revert houtcome
    cases x.outcome <;> cases x.failureType <;> decide
  case failing =>
    intro h hnone
    rw [hnone] at houtcome
    rcases hfailing h with h | h <;> rw [h] at houtcome <;> contradiction

/-- What `getDestState` finds in a state: either no outcome, or one with its failure type. -/
inductive Dest.Found : NodeState → Dest → Prop where
  | unset {state next : NodeState} :
      (state, next) ∈ [(.inactive, .waiting), (.waiting, .executing), (.executing, .finishing),
        (.finished, .inactive), (.iterationEnded, .waiting), (.iterationEnded, .finished),
        (.failing, .finished), (.failing, .iterationEnded)] →
      Found state ⟨next, none, none⟩
  | skipped {state : NodeState} :
      state = .inactive ∨ state = .waiting → Found state ⟨.finished, some .skipped, none⟩
  | succeeded {state : NodeState} :
      state = .executing ∨ state = .finishing → Found state ⟨.iterationEnded, some .success, none⟩
  | interrupted {state next : NodeState} {f : FailureType} :
      next.admits .interrupted = true → NodeOutcome.interrupted.admits f = true →
      Found state ⟨next, some .interrupted, some f⟩
  | failed {state next : NodeState} {f : FailureType} :
      next.admits .failure = true → NodeOutcome.failure.admits f = true →
      Found state ⟨next, some .failure, some f⟩

namespace Dest.Found

theorem of_interruption {outer inner : NodeState} {v : NodeView} {d : Dest} (state : NodeState)
    (houter : outer = .failing ∨ outer = .finished)
    (hinner : inner = .failing ∨ inner = .iterationEnded)
    (h : interruption outer inner v = some d) :
  Found state d
  := by
  have admits : ∀ next, next = outer ∨ next = inner →
      next.admits .interrupted = true ∧ next.admits .failure = true := by
    rintro next (rfl | rfl)
    · rcases houter with rfl | rfl <;> decide
    · rcases hinner with rfl | rfl <;> decide
  unfold interruption at h
  split at h
  · cases h
    exact .interrupted (admits _ (.inl rfl)).1 (by decide)
  · split at h
    · cases h
      exact .interrupted (admits _ (.inr rfl)).1 (by decide)
    · split at h
      · cases h
        exact .failed (admits _ (.inl rfl)).2 (by decide)
      · split at h
        · cases h
          exact .failed (admits _ (.inr rfl)).2 (by decide)
        · cases h

theorem of_iterationEnded {state : NodeState} (hstate : state = .executing ∨ state = .finishing)
    (v : NodeView) :
  Found state (iterationEnded v)
  := by
  unfold iterationEnded
  split
  · exact .failed (by decide) (by decide)
  · exact .succeeded hstate

theorem of_failed (v : NodeView) :
  Found .failing (Plexil.failed v)
  := by
  unfold Plexil.failed
  split
  · exact .unset (by decide)
  · split <;> exact .unset (by decide)

/-- What `getDestState` finds in EXECUTING and FINISHING: an interruption, or what comes after it. -/
theorem of_or {outer inner : NodeState} {v : NodeView} {otherwise : Option Dest} {d : Dest}
    {state : NodeState} (houter : outer = .failing ∨ outer = .finished)
    (hinner : inner = .failing ∨ inner = .iterationEnded)
    (hotherwise : ∀ d, otherwise = some d → Found state d)
    (h : (interruption outer inner v).or otherwise = some d) :
  Found state d
  := by
  rcases Option.or_eq_some_iff.mp h with h | ⟨-, h⟩
  · apply of_interruption state houter hinner h
  · apply hotherwise d h

/-- A single possible destination. -/
theorem of_ite {p : Prop} [Decidable p] {state : NodeState} {d₀ d : Dest} (hfound : Found state d₀)
    (h : (if p then none else some d₀) = some d ∨ (if p then some d₀ else none) = some d) :
  Found state d
  := by
  have heq : d₀ = d := by
    by_cases hp : p <;> simpa [hp] using h
  rw [← heq]
  exact hfound

theorem of_destState {v : NodeView} {d : Dest} (h : destState v = some d) :
  Found v.state d
  := by
  unfold destState at h
  cases hstate : v.state <;> simp only [hstate] at h
  case inactive =>
    unfold getDestStateFromInactive at h
    split at h
    · cases h
      exact .skipped (.inl rfl)
    · repeat' split at h
      all_goals
        cases h
        first | exact .skipped (.inl rfl) | exact .unset (by decide)
    · cases h
    · cases h
      exact .unset (by decide)
  case waiting =>
    unfold getDestStateFromWaiting at h
    repeat' split at h
    all_goals
      cases h <;>
        first
        | exact .skipped (.inr rfl)
        | exact .unset (by decide)
        | exact .failed (by decide) (by decide)
  case iterationEnded =>
    unfold getDestStateFromIterationEnded at h
    repeat' split at h
    all_goals
      cases h <;>
        first
        | exact .unset (by decide)
        | exact .failed (by decide) (by decide)
        | exact .interrupted (by decide) (by decide)
  case finished =>
    unfold getDestStateFromFinished at h
    apply of_ite (.unset (by decide)) (.inr h)
  case noNodeState => cases h
  case executing =>
    unfold getDestStateFromExecuting at h
    cases htype : v.nodeType <;> simp only [htype] at h
    case empty =>
      apply of_or (.inr rfl) (.inr rfl) _ h
      intro d hd
      apply of_ite (of_iterationEnded (.inl rfl) v) (.inl hd)
    case assignment =>
      unfold AssignmentNode.getDestStateFromExecuting at h
      split at h
      · cases h
      · apply of_or (.inl rfl) (.inl rfl) _ h
        intro d hd
        apply of_ite (of_iterationEnded (.inl rfl) v) (.inl hd)
    case update =>
      apply of_or (.inl rfl) (.inl rfl) _ h
      intro d hd
      apply of_ite (of_iterationEnded (.inl rfl) v) (.inl hd)
    all_goals
      apply of_or (.inl rfl) (.inl rfl) _ h
      intro d hd
      apply of_ite (.unset (by decide)) (.inl hd)
  case finishing =>
    unfold getDestStateFromFinishing at h
    cases htype : v.nodeType <;> simp only [htype] at h
    case command | nodeList | libraryNodeCall =>
      apply of_or (.inl rfl) (.inl rfl) _ h
      intro d hd
      apply of_ite (of_iterationEnded (.inr rfl) v) (.inr hd)
    all_goals cases h
  case failing =>
    unfold getDestStateFromFailing at h
    cases htype : v.nodeType <;> simp only [htype] at h
    case empty => cases h
    all_goals apply of_ite (of_failed v) (.inr h)

end Dest.Found

/-! ### What a transition commits -/

/-- The node has the destination `d` for its next transition, and nothing of an earlier one. -/
structure NodeImpl.Chosen (d : Dest) (x : NodeImpl) : Prop where
  nextState : x.nextState = d.state
  nextOutcome : x.nextOutcome = d.outcome.getD .noOutcome
  nextFailureType : x.nextFailureType = d.failureType.getD .noFailure

/-- Nothing is left of an earlier destination. -/
structure NodeImpl.Clean (x : NodeImpl) : Prop where
  nextOutcome : x.nextOutcome = .noOutcome
  nextFailureType : x.nextFailureType = .noFailure

namespace NodeImpl

variable {x : NodeImpl} {d : Dest}

theorem Clean.chosen (h : x.Clean) :
  (x.setDest (some d)).Chosen d
  := by
  constructor
  · rfl
  · dsimp only [setDest]
    rw [h.nextOutcome]
  · dsimp only [setDest]
    rw [h.nextFailureType]

theorem Clean.setDest_none (h : x.Clean) :
  (x.setDest none).Clean
  := ⟨h.nextOutcome, h.nextFailureType⟩

/-- A destination found in the state sets the outcome and the failure type exactly as it has
them. -/
theorem Chosen.committed (h : x.Chosen d) (hfound : Dest.Found x.state d) :
  x.leave.setOutcome.outcome = d.outcome.getD x.leave.outcome ∧
    x.leave.setOutcome.failureType = d.failureType.getD x.leave.failureType
  := by
  have hnext : x.leave.nextOutcome = x.nextOutcome ∧
      x.leave.nextFailureType = x.nextFailureType := by
    unfold leave
    split <;> exact ⟨rfl, rfl⟩
  unfold setOutcome
  rw [hnext.1, hnext.2, h.nextOutcome, h.nextFailureType]
  have hset : ∀ o f, o ≠ NodeOutcome.noOutcome → NodeOutcome.admits o f = true →
      o = .interrupted ∨ o = .failure → f ≠ FailureType.noFailure := by
    rintro o f - hf (rfl | rfl) rfl <;> contradiction
  cases hfound with
  | unset => exact ⟨rfl, rfl⟩
  | skipped => exact ⟨rfl, rfl⟩
  | succeeded => exact ⟨rfl, rfl⟩
  | interrupted _ hf => exact ⟨rfl, if_pos (hset _ _ (by decide) hf (.inl rfl))⟩
  | failed _ hf => exact ⟨rfl, if_pos (hset _ _ (by decide) hf (.inr rfl))⟩

/-- The outcome and the failure type after a transition fit the new state. -/
theorem Chosen.admits (h : x.Chosen d) (hfound : Dest.Found x.state d)
    (hstate : x.state.admits x.outcome = true)
    (houtcome : x.outcome.admits x.failureType = true) :
  d.state.admits x.leave.setOutcome.outcome = true ∧
    x.leave.setOutcome.outcome.admits x.leave.setOutcome.failureType = true
  := by
  obtain ⟨ho, hf⟩ := h.committed hfound
  rw [ho, hf]
  have hnext := h.nextState
  generalize hx : x.state = state at hfound
  cases hfound with
  | unset hmem =>
    rename_i next
    dsimp only [Option.getD] at hnext ⊢
    unfold leave
    rw [hx, hnext]
    rw [hx] at hstate
    simp only [List.mem_cons, Prod.mk.injEq, List.not_mem_nil, or_false] at hmem
    split
    · rename_i hagain
      refine ⟨?_, rfl⟩
      change next.admits .noOutcome = true
      rcases hmem with ⟨rfl, rfl⟩ | ⟨rfl, rfl⟩ | ⟨rfl, rfl⟩ | ⟨rfl, rfl⟩ | ⟨rfl, rfl⟩ | ⟨rfl, rfl⟩ |
        ⟨rfl, rfl⟩ | ⟨rfl, rfl⟩
      all_goals first | rfl | simp at hagain
    · rename_i hagain
      refine ⟨?_, houtcome⟩
      rcases hmem with ⟨rfl, rfl⟩ | ⟨rfl, rfl⟩ | ⟨rfl, rfl⟩ | ⟨rfl, rfl⟩ | ⟨rfl, rfl⟩ | ⟨rfl, rfl⟩ |
        ⟨rfl, rfl⟩ | ⟨rfl, rfl⟩
      -- FINISHED and ITERATION_ENDED are left for another iteration only with a reset.
      case inr.inr.inr.inl => exact absurd (.inl rfl) hagain
      case inr.inr.inr.inr.inl => exact absurd (.inr ⟨rfl, rfl⟩) hagain
      case inr.inr.inr.inr.inr.inr.inl | inr.inr.inr.inr.inr.inr.inr =>
        rcases of_decide_eq_true hstate with h | h <;> rw [h] <;> rfl
      all_goals exact hstate
  | skipped hidle =>
    have hleave : x.leave = x := by
      unfold leave
      rw [hx, if_neg]
      rcases hidle with rfl | rfl <;> simp
    have hnone : x.outcome = .noOutcome := by
      rw [hx] at hstate
      rcases hidle with rfl | rfl <;> exact of_decide_eq_true hstate
    rw [hnone] at houtcome
    rw [hleave]
    exact ⟨rfl, houtcome⟩
  | succeeded hbusy =>
    have hleave : x.leave = x := by
      unfold leave
      rw [hx, if_neg]
      rcases hbusy with rfl | rfl <;> simp
    have hnone : x.outcome = .noOutcome := by
      rw [hx] at hstate
      rcases hbusy with rfl | rfl <;> exact of_decide_eq_true hstate
    rw [hnone] at houtcome
    rw [hleave]
    exact ⟨rfl, houtcome⟩
  | interrupted hnext' hfailure => exact ⟨hnext', hfailure⟩
  | failed hnext' hfailure => exact ⟨hnext', hfailure⟩

end NodeImpl

/-! ### Calls of getDestState -/

/-- The destinations which the last calls of `getDestState` have found. -/
abbrev LastFound := NodePtr → Option Dest

/-- `getDestState` is called for a candidate, and for a node of the pending queue which is to be
checked again. -/
def CoreEvent.record (c : Core) (found : LastFound) : CoreEvent → LastFound
  | .evaluate n d => Function.update found n d
  | .examine n d =>
    if c.queues.status n = .pendingCheck ∨ c.queues.status n = .pendingTryCheck then
      Function.update found n d
    else found
  | _ => found

namespace Core

variable {F : Forest} {n m : NodePtr} {d : Option Dest} {c c' : Core} {found : LastFound}

/-- The invariant of the outcomes: what a node has fits its state, and the nodes which are to
make a transition have the destination which was found last. -/
structure Outcomes (F : Forest) (found : LastFound) (c : Core) : Prop where
  exclusive : c.Exclusive F
  node : ∀ n, (c.node n).state.admits (c.node n).outcome = true ∧
    (c.node n).outcome.admits (c.node n).failureType = true
  clean : ∀ n, n ∉ c.queues.stateChange → (c.node n).Clean
  found : ∀ n, n ∈ c.queues.pending ∨ n ∈ c.queues.stateChange →
    ∃ d, found n = some d ∧ (c.node n).Chosen d ∧ Dest.Found (c.node n).state d

namespace Outcomes

/-- Only the nodes and the queues of nodes to transition matter. -/
theorem congr (h : c.Outcomes F found) (hexclusive : c'.Exclusive F)
    (hnode : ∀ n, (c.node n).SameControl (c'.node n))
    (hpending : c'.queues.pending = c.queues.pending)
    (hstateChange : c'.queues.stateChange = c.queues.stateChange) :
  c'.Outcomes F found
  where
  exclusive := hexclusive
  node n := by
    rw [(hnode n).state, (hnode n).outcome, (hnode n).failureType]
    exact h.node n
  clean n hn := by
    rw [hstateChange] at hn
    obtain ⟨houtcome, hfailure⟩ := h.clean n hn
    exact ⟨(hnode n).nextOutcome.trans houtcome, (hnode n).nextFailureType.trans hfailure⟩
  found n hn := by
    rw [hpending, hstateChange] at hn
    obtain ⟨d, hd, hchosen, hfound⟩ := h.found n hn
    rw [(hnode n).state]
    exact ⟨d, hd, ⟨(hnode n).nextState.trans hchosen.nextState,
      (hnode n).nextOutcome.trans hchosen.nextOutcome,
      (hnode n).nextFailureType.trans hchosen.nextFailureType⟩, hfound⟩

theorem not_stateChange_of_queue (hq : c.queues.WellFormed) {k : QueueName}
    (hn : n ∈ c.queues.members k) (hk : k ≠ .stateChange) :
  n ∉ c.queues.stateChange
  := by
  intro hmem
  exact hk (hq.unique hn (show n ∈ c.queues.members .stateChange from hmem))

/-- The other nodes when one node is considered. -/
theorem considered {k : Option QueueName} {found' : LastFound} (h : c.Outcomes F found)
    (hc : Considered F n k c c') (hfound : ∀ m, m ≠ n → found' m = found m)
    (houtcome : (c'.node n).outcome = (c.node n).outcome)
    (hfailure : (c'.node n).failureType = (c.node n).failureType)
    (hclean : k ≠ some .stateChange → (c'.node n).Clean)
    (hchosen : k ≠ none → ∃ d, found' n = some d ∧ (c'.node n).Chosen d ∧
      Dest.Found (c'.node n).state d) :
  c'.Outcomes F found'
  where
  exclusive := h.exclusive.considered hc
  node m := by
    by_cases hm : m = n
    · rw [hm, hc.state, houtcome, hfailure]
      exact h.node n
    · rw [hc.others m hm]
      exact h.node m
  clean m hm := by
    by_cases hmn : m = n
    · rw [hmn]
      apply hclean
      intro hk
      exact hm ((hc.placed m .stateChange).mpr (.inl ⟨hmn, hk⟩))
    · rw [hc.others m hmn]
      apply h.clean
      intro hmem
      exact hm ((hc.placed m .stateChange).mpr (.inr ⟨hmn, hmem⟩))
  found m hm := by
    by_cases hmn : m = n
    · rw [hmn]
      apply hchosen
      rintro rfl
      rcases hm with hm | hm
      · simpa [hmn] using (hc.placed m .pending).mp hm
      · simpa [hmn] using (hc.placed m .stateChange).mp hm
    · rw [hc.others m hmn, hfound m hmn]
      apply h.found
      exact hm.imp (hc.placed.others hmn .pending).mp (hc.placed.others hmn .stateChange).mp

/-- A destination is found for a node which has nothing left of an earlier one. -/
theorem considered_found {k : Option QueueName} (h : c.Outcomes F found)
    (hc : Considered F n k c c') (hk : d ≠ none → k ≠ none)
    (hnode : c'.node n = (c.node n).setDest d) (hfinds : c.Finds F n d)
    (hclean : (c.node n).Clean) :
  c'.Outcomes F (Function.update found n d)
  := by
  cases d with
  | none =>
    have hnext : (c'.node n).nextState = .noNodeState := by
      rw [hnode]
      rfl
    apply h.considered hc (fun m hm => Function.update_of_ne hm _ _) (by rw [hnode]; rfl)
      (by rw [hnode]; rfl)
    · intro _
      rw [hnode]
      exact hclean.setDest_none
    · intro hsome
      have hlegal := hc.legal hsome
      unfold NextLegal at hlegal
      rw [hnext] at hlegal
      revert hlegal
      cases (F.decl n).nodeType <;> cases (c'.node n).state <;> simp [legalSuccessor]
  | some d =>
    have hchosen : (c'.node n).Chosen d := by
      rw [hnode]
      exact hclean.chosen
    have hfound : Dest.Found (c.node n).state d := by
      obtain ⟨v, -, hstate, -, -, hdest⟩ := hfinds
      rw [← hstate]
      apply Dest.Found.of_destState hdest
    apply h.considered hc (fun m hm => Function.update_of_ne hm _ _) (by rw [hnode]; rfl)
      (by rw [hnode]; rfl)
    · intro hnot
      have hplace : k = some .pending := by
        rcases hc.place with rfl | rfl | rfl
        · exact absurd rfl (hk (by simp))
        · rfl
        · contradiction
      -- A node which stays in the pending queue is to execute, and has no outcome yet.
      have hexecuting : d.state = .executing := by
        rw [← hchosen.nextState]
        apply hc.next hplace
      cases hfound with
      | unset => exact ⟨hchosen.nextOutcome, hchosen.nextFailureType⟩
      | interrupted hnext _ =>
        dsimp only at hexecuting
        rw [hexecuting] at hnext
        contradiction
      | failed hnext _ =>
        dsimp only at hexecuting
        rw [hexecuting] at hnext
        contradiction
      | skipped => contradiction
      | succeeded => contradiction
    · intro _
      refine ⟨d, Function.update_self .., hchosen, ?_⟩
      rw [hc.state]
      exact hfound

/-- A node of the pending queue which keeps its destination. -/
theorem considered_same {k : Option QueueName} (h : c.Outcomes F found)
    (hc : Considered F n k c c') (hnode : c'.node n = c.node n) (hq : c.queues.WellFormed)
    (hn : n ∈ c.queues.pending) :
  c'.Outcomes F found
  := by
  apply h.considered hc (fun _ _ => rfl) (by rw [hnode]) (by rw [hnode])
  · intro _
    rw [hnode]
    apply h.clean
    apply not_stateChange_of_queue hq (k := .pending) hn (by decide)
  · intro _
    rw [hnode]
    apply h.found n (.inl hn)

theorem transitioned {rest : List NodePtr} (h : c.Outcomes F found) (hexclusive : c'.Exclusive F)
    (hq : c.queues.WellFormed) (hstateChange : c.queues.stateChange = n :: rest)
    (ht : Transitioned F n (c.withQueues (Queues.getStateChangeNode n rest)) c') :
  c'.Outcomes F found
  := by
  have hmem : n ∈ c.queues.stateChange := by
    rw [hstateChange]
    apply List.mem_cons_self
  obtain ⟨d, -, hchosen, hfound⟩ := h.found n (.inr hmem)
  have hpending : c'.queues.pending = c.queues.pending :=
    ht.pending_eq.trans Queues.pending_getStateChangeNode
  have hrest : c'.queues.stateChange = rest :=
    ht.stateChange_eq.trans Queues.stateChange_getStateChangeNode
  constructor
  · exact hexclusive
  · intro m
    by_cases hm : m = n
    · have hadmits := hchosen.admits hfound (h.node n).1 (h.node n).2
      rw [hm, ht.state, ht.outcome, ht.failureType]
      change (c.node n).nextState.admits _ = true ∧ _
      rw [hchosen.nextState]
      exact hadmits
    · rw [ht.others m hm]
      exact h.node m
  · intro m hm
    by_cases hmn : m = n
    · rw [hmn]
      exact ⟨ht.nextOutcome, ht.nextFailureType⟩
    · rw [ht.others m hmn]
      apply h.clean
      rw [hrest] at hm
      rw [hstateChange, List.mem_cons, not_or]
      exact ⟨hmn, hm⟩
  · intro m hm
    have hmn : m ≠ n := by
      rintro rfl
      rw [hpending, hrest] at hm
      rcases hm with hm | hm
      · exact hq.disjoint m hm hmem
      · have hnodup : c.queues.stateChange.Nodup := hq.nodup .stateChange
        rw [hstateChange] at hnodup
        exact (List.nodup_cons.mp hnodup).1 hm
    rw [ht.others m hmn]
    apply h.found
    rw [hpending, hrest] at hm
    rw [hstateChange]
    exact hm.imp_right (.tail n)

end Outcomes

theorem node_resourceCheckEligible_self (F : Forest) (n : NodePtr) (d : Option Dest) (c : Core) :
  (c.resourceCheckEligible F n d).1.node n =
    if c.queues.status n = .pendingCheck ∨ c.queues.status n = .pendingTryCheck then
      (c.node n).setDest d
    else c.node n
  := by
  obtain ⟨error, hrecheck⟩ := recheckPending_eq F n d c
  have hnode : (c.recheckPending F n d).1.node n = (c.node n).setDest d := by
    rcases hrecheck with ⟨-, heq⟩ | ⟨-, heq⟩
    · rw [heq]
      exact Function.update_self ..
    · rw [heq]
      exact Function.update_self ..
  unfold resourceCheckEligible
  split
  · rename_i hstatus
    rw [if_pos (.inl hstatus)]
    exact hnode
  · rename_i hstatus
    rw [if_pos (.inr hstatus)]
    exact hnode
  · rename_i hstatus
    rw [hstatus, if_neg (by simp)]
  · rename_i hstatus
    rw [hstatus, if_neg (by simp)]
  · rename_i hcheck htryCheck _ _
    rw [if_neg]
    · rfl
    · rintro (hstatus | hstatus)
      · exact hcheck hstatus
      · exact htryCheck hstatus

theorem Step.outcomes {e : CoreEvent} (hq : c.queues.WellFormed) (h : c.Outcomes F found)
    (hstep : Step F c e c') :
  c'.Outcomes F (e.record c found)
  := by
  have hexclusive := hstep.exclusive hq h.exclusive
  cases hstep
  case quiet hquiet =>
    apply h.congr hexclusive hquiet.node
    · rw [hquiet.queues]
    · rw [hquiet.queues]
  case notify n hexists =>
    apply h.congr hexclusive (fun _ => .refl _) Queues.pending_notify Queues.stateChange_notify
  case notifyResourceAvailable n hexists =>
    apply h.congr hexclusive (fun _ => .refl _) Queues.pending_notifyResourceAvailable
      Queues.stateChange_notifyResourceAvailable
  case addPlan root hroot hadded =>
    apply h.congr hexclusive (fun _ => .refl _) Queues.pending_notify Queues.stateChange_notify
  case deleteFinishedPlans =>
    apply h.congr hexclusive (fun _ => .refl _) rfl rfl
  case evaluate n rest d hcandidate hfinds =>
    obtain ⟨k, hc, hk⟩ := considered_evaluate hq h.exclusive.waiters hcandidate hfinds
    apply h.considered_found hc hk.mpr (node_evaluateCandidate ..) hfinds
    apply h.clean
    have hmem : n ∈ c.queues.members .candidate := by
      simp [Queues.members, hcandidate]
    apply Outcomes.not_stateChange_of_queue hq hmem (by decide)
  case examine n d hpending hfinds =>
    obtain ⟨k, hc, hk⟩ := considered_examine hq h.exclusive.waiters hpending hfinds
      (h.exclusive.next n hpending) (h.exclusive.legal n (.inl hpending))
    have hnode := node_resourceCheckEligible_self F n d c
    dsimp only [CoreEvent.record]
    split
    · rename_i hstatus
      rw [if_pos hstatus] at hnode
      apply h.considered_found hc hk hnode hfinds
      apply h.clean
      apply Outcomes.not_stateChange_of_queue hq (k := .pending) hpending (by decide)
    · rename_i hstatus
      rw [if_neg hstatus] at hnode
      apply h.considered_same hc hnode hq hpending
  case acquire n hpending =>
    obtain ⟨k, hc⟩ := considered_acquire hq h.exclusive.waiters hpending
      (h.exclusive.next n hpending) (h.exclusive.legal n (.inl hpending))
    apply h.considered_same hc (congrFun (node_acquire F n c) n) hq hpending
  case stay n rest hstateChange hnext =>
    have hlegal := h.exclusive.legal n (.inr (by simp [hstateChange]))
    exact absurd hnext (legalSuccessor_ne hlegal)
  case transition n rest hstateChange hnext ht =>
    apply h.transitioned hexclusive hq hstateChange ht

/-- A notification finds no destination. -/
theorem Outcomes.notifyAll {ns : List NodePtr} (hq : c.queues.WellFormed) (h : c.Outcomes F found)
    (hns : ∀ n ∈ ns, c.exists F n) :
  (c.withQueues (Queues.notifyAll ns)).Outcomes F found
  := by
  apply Exec.notifyAll_induction (P := fun c => c.Outcomes F found) _ hq h hns
  intro c n hq h hn
  apply Step.outcomes hq h (.notify hn)

end Core

/-! ### Runs -/

/-- The executive, with the destinations found last. -/
structure Traced where
  exec : Exec
  found : LastFound

namespace Traced

/-- An event, and the call of `getDestState` which belongs to it. -/
def step (F : Forest) (t : Traced) (e : Event) : Option Traced :=
  (t.exec.apply F e).map fun s => ⟨s, (t.exec.coreEvent F e).record t.exec.toCore t.found⟩

/-- The executive before any plan is added. -/
def initial (hierarchy : ResourceHierarchyMap) (w : World) : Traced :=
  ⟨.initial hierarchy w, fun _ => none⟩

/-- The transition of the first node of the state change queue commits the destination which was
found for it last; what that destination does not set is left as it was. -/
def Commits (F : Forest) (t : Traced) : Prop :=
  ∀ n rest, t.exec.queues.stateChange = n :: rest → ∃ d, t.found n = some d ∧
    ((t.exec.transitionNode F n rest).node n).state = d.state ∧
    ((t.exec.transitionNode F n rest).node n).outcome =
      d.outcome.getD (t.exec.node n).leave.outcome ∧
    ((t.exec.transitionNode F n rest).node n).failureType =
      d.failureType.getD (t.exec.node n).leave.failureType

/-- The invariant of the traced executive. -/
structure Invariant (F : Forest) (t : Traced) : Prop where
  queues : t.exec.queues.WellFormed
  walk : t.exec.Walk
  outcomes : t.exec.Outcomes F t.found

variable {F : Forest} {t t' : Traced} {e : Event}

theorem Invariant.initial (F : Forest) (hierarchy : ResourceHierarchyMap) (w : World) :
  (initial hierarchy w).Invariant F
  := by
  constructor
  case queues => exact Exec.wellFormed_initial hierarchy w
  case walk => exact .of_nil rfl
  case outcomes =>
    constructor
    · apply Exec.exclusive_initial
    · exact fun _ => ⟨rfl, rfl⟩
    · exact fun _ _ => ⟨rfl, rfl⟩
    · rintro n (hn | hn) <;> cases hn

theorem Invariant.step (h : t.Invariant F) (hstep : t.step F e = some t') :
  t'.Invariant F
  := by
  obtain ⟨s, hs, rfl⟩ := Option.map_eq_some_iff.mp hstep
  have hmove := Move.of_apply hs
  obtain ⟨c₁, ns, hcore, hns, heq⟩ := hmove.core h.walk
  constructor
  case queues =>
    change s.toCore.queues.WellFormed
    rw [heq]
    apply (hcore.wellFormed h.queues).notifyAll
  case walk => exact hmove.walk h.walk h.queues
  case outcomes =>
    change s.toCore.Outcomes F _
    rw [heq]
    apply Core.Outcomes.notifyAll (hcore.wellFormed h.queues) (hcore.outcomes h.queues h.outcomes)
      hns

theorem Invariant.coherent (h : t.Invariant F) (n : NodePtr) :
  (t.exec.node n).toPublished.Coherent
  := Published.coherent_of_admits (h.outcomes.node n).1 (h.outcomes.node n).2

theorem Invariant.commits (h : t.Invariant F) :
  t.Commits F
  := by
  intro n rest hstateChange
  have hmem : n ∈ t.exec.queues.stateChange := by
    rw [hstateChange]
    apply List.mem_cons_self
  obtain ⟨d, hd, hchosen, hfound⟩ := h.outcomes.found n (.inr hmem)
  obtain ⟨houtcome, hfailure⟩ := hchosen.committed hfound
  use d, hd
  rcases Exec.transitionNode_cases F n rest t.exec with ⟨hnext, -⟩ | ⟨-, ht⟩
  · have hlegal := h.outcomes.exclusive.legal n (.inr hmem)
    exact absurd hnext (legalSuccessor_ne hlegal)
  · rw [ht.core.state, ht.core.outcome, ht.core.failureType]
    exact ⟨hchosen.nextState, houtcome, hfailure⟩

/-- Throughout every run the state, the outcome and the failure type of every node fit together,
and every transition commits what `getDestState` has found with its destination. -/
theorem outcomes_coherent (F : Forest) (hierarchy : ResourceHierarchyMap) (w : World)
    (es : List Event) :
  StateMachine.Always (step F)
    (fun t => (∀ n, (t.exec.node n).toPublished.Coherent) ∧ t.Commits F) es (initial hierarchy w)
  := by
  have hinitial := Invariant.initial F hierarchy w
  apply StateMachine.always_of_invariant (I := Invariant F) _ es hinitial
  · exact ⟨hinitial.coherent, hinitial.commits⟩
  · intro t e t' h hstep
    have h' := h.step hstep
    exact ⟨h', h'.coherent, h'.commits⟩

end Traced
end Plexil

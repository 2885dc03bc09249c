import Plexil.Exec.Activations
import Plexil.Exec.MutualExclusion
import Plexil.Exec.QueueErrors

/-!
# The balance of activations

The comments of the transition functions list the conditions which are active in each state.
A node has activated exactly these once, and nothing is left over from one iteration to the
next; the exit condition of a command node is the exception, since it is activated in WAITING
and again in EXECUTING.
-/

namespace Plexil

open ActivationCount (Call Covered)

/-! ### What is active in a state -/

/-- The conditions of the node which are active in a state, and for a list node those for its
children. -/
def activeConditions (type : PlexilNodeType) : NodeState → List ConditionIndex
  | .waiting => [.exit, .pre, .skip, .start]
  | .executing =>
    match type with
    | .empty | .update => [.end, .exit, .invariant, .post]
    | .assignment => [.actionComplete, .end, .exit, .invariant, .post]
    | .command => [.end, .exit, .invariant]
    | .nodeList | .libraryNodeCall => [.end, .exit, .invariant] ++ ListNode.childConditions
  | .finishing =>
    match type with
    | .nodeList | .libraryNodeCall =>
      [.actionComplete, .exit, .invariant, .post] ++ ListNode.childConditions
    | _ => [.actionComplete, .exit, .invariant, .post]
  | .failing =>
    match type with
    | .update => [.actionComplete]
    | .nodeList | .libraryNodeCall => .actionComplete :: ListNode.childConditions
    | _ => [.abortComplete]
  | .iterationEnded => [.repeat]
  | _ => []

/-- What is active in a state: the conditions, and in the active states the local variables and
the body. -/
def activeIn (type : PlexilNodeType) (state : NodeState) : Activatable → Bool
  | .condition c => c ∈ activeConditions type state
  | .localVariables | .body => state.isActive

/-- The count of what is active is one, and the count of anything else zero. -/
def activeCounts (type : PlexilNodeType) (state : NodeState) (a : Activatable) : Int :=
  if activeIn type state a then 1 else 0

/-- The counts of a node in a state. -/
def Forest.activeCounts (F : Forest) (n : NodePtr) (state : NodeState) (a : Activatable) : Int :=
  if F.hasActivatable n a then Plexil.activeCounts (F.decl n).nodeType state a else 0

/-- Everything that can be activated. -/
def Activatable.all : List Activatable :=
  [.localVariables, .body] ++
    ([.ancestorExit, .ancestorInvariant, .ancestorEnd, .skip, .start, .pre, .exit, .invariant, .end,
      .post, .repeat, .actionComplete, .abortComplete] : List ConditionIndex).map .condition

theorem Activatable.mem_all (a : Activatable) :
  a ∈ all
  := by
  cases a with
  | condition c => cases c <;> decide
  | localVariables => decide
  | body => decide

/-- The one count which a transition gets wrong. -/
def leaks (type : PlexilNodeType) (next : NodeState) (a : Activatable) : Bool :=
  type = .command ∧ next = .executing ∧ a = .condition .exit

section

variable {type : PlexilNodeType} {state next : NodeState}

/-- A transition turns the counts of its state into those of the next one. -/
theorem activeCounts_add_net (hlegal : legalSuccessor type state next = true) (a : Activatable) :
  activeCounts type state a + ActivationCount.net (calls type state next) a =
    activeCounts type next a + if leaks type next a then 1 else 0
  := by
  have h : ∀ a ∈ Activatable.all,
      activeCounts type state a + ActivationCount.net (calls type state next) a =
        activeCounts type next a + if leaks type next a then 1 else 0 := by
    cases type <;> cases state <;> cases next <;> cases hlegal <;> decide
  exact h a a.mem_all

/-- A transition deactivates only what is active. -/
theorem covered_calls (hlegal : legalSuccessor type state next = true) :
  Covered (calls type state next) (activeCounts type state)
  := by
  cases type <;> cases state <;> cases next <;> cases hlegal <;> decide

end

/-! ### Steps without a transition of the node -/

/-- What neither a destination nor the variables of the body are part of is kept by a node which
makes no transition. -/
theorem Move.kept_of_other {F : Forest} {s s' : Exec} {e : Event} {n : NodePtr} {β : Type}
    {f : NodeImpl → β} (hdest : ∀ d x, f (x.setDest d) = f x)
    (hack : ∀ x v, f { x with ack := v } = f x)
    (habort : ∀ x v, f { x with abortComplete := v } = f x)
    (hhandle : ∀ x v, f { x with commandHandle := v } = f x)
    (h : Move F s e s') (hevent : s.coreEvent F e ≠ .transition n) :
  f (s'.node n) = f (s.node n)
  := by
  -- Only the node `m` changes.
  have modified {m : NodePtr} {y : NodeImpl} {t : Exec}
      (ht : t.node = Function.update s.node m y) (hy : f y = f (s.node m)) :
      f (t.node n) = f (s.node n) := by
    rw [ht]
    by_cases hn : n = m
    · rw [hn, Function.update_self, hy]
    · rw [Function.update_of_ne hn]
  have ite (c : Bool) {y z : NodeImpl} (hy : f y = f z) : f (if c then y else z) = f z := by
    split
    · exact hy
    · rfl
  cases h
  case commandHandle m handle w ns hphase htype hhandle' hns => exact modified rfl (ite _ (hhandle ..))
  case commandAbortAck m ack w ns hphase htype hns => exact modified rfl (ite _ (habort ..))
  case updateAck m ack w ns hphase htype hns => exact modified rfl (hack ..)
  case evaluate w ns rest m hphase hcandidate =>
    obtain ⟨error, heq⟩ := Core.evaluateCandidate_eq F m rest (s.dest F m) s.toCore
    exact modified (t := s.evaluateCandidate F m rest) (congrArg Core.node heq) (hdest ..)
  case resolve w ns hphase hcandidate => rw [Exec.toCore_beginGathering]
  case gather w ns acc rest thisPriority temp hphase hpriority =>
    rcases Core.node_resourceCheckEligible F temp (s.dest F temp) s.toCore with heq | heq
    · exact congrArg (fun node => f (node n)) heq
    · exact modified (t := s.gather F thisPriority acc temp rest) heq (hdest ..)
  case acquire w ns rest chain m hphase =>
    exact congrArg (fun node => f (node n)) (Core.node_acquire F m s.toCore)
  case acquired w ns chain hphase => rw [Exec.toCore_beginGathering]
  case transition w ns rest m hphase hstateChange hns =>
    have hn : n ≠ m := by
      rintro rfl
      apply hevent
      rw [Exec.coreEvent_next, hphase, hstateChange]
    change f ((s.transitionNode F m rest).node n) = _
    rcases Exec.transitionNode_cases F m rest s with ⟨-, heq⟩ | ⟨-, ht⟩
    · rw [heq]
      rfl
    · rw [ht.core.others n hn]
      rfl
  case executeAssignment w ns rest m hphase hns => exact modified rfl (hack ..)
  case retractAssignment w ns rest m hphase hns => exact modified rfl (habort ..)
  case arbitrate w ns hphase harbitrate => rw [Exec.toCore_arbitrate harbitrate]
  case reportFailure w ns rejected m hphase hns => exact modified rfl (ite _ (hhandle ..))
  all_goals rfl

/-- The counts and the state of a node change in a transition only. -/
theorem Move.counts_of_other {F : Forest} {s s' : Exec} {e : Event} {n : NodePtr}
    (h : Move F s e s') (hevent : s.coreEvent F e ≠ .transition n) :
  (s'.node n).counts = (s.node n).counts ∧ (s'.node n).state = (s.node n).state
  := by
  constructor
  · apply h.kept_of_other (f := NodeImpl.counts) _ (fun _ _ => rfl) (fun _ _ => rfl)
      (fun _ _ => rfl) hevent
    exact fun d x => by cases d <;> rfl
  · apply h.kept_of_other (f := fun x => x.state) _ (fun _ _ => rfl) (fun _ _ => rfl)
      (fun _ _ => rfl) hevent
    exact fun d x => by cases d <;> rfl

/-! ### Balance in all runs -/

namespace Exec

variable {F : Forest} {s s' : Exec} {e : Event} {n : NodePtr} {rest : List NodePtr}

/-- The counts of all nodes are those of their states. -/
def CountsOfState (F : Forest) (s : Exec) : Prop :=
  ∀ n, (s.node n).counts = F.activeCounts n (s.node n).state

/-- The transition of the first node of the state change queue makes its calls, and deactivates
only what the node has activated. -/
structure CoveredTransition (F : Forest) (s : Exec) (n : NodePtr) (rest : List NodePtr) : Prop where
  performs : Performs F n (calls (F.decl n).nodeType (s.node n).state (s.node n).nextState) s
    (s.transitionNode F n rest)
  covered : Covered (present F n (calls (F.decl n).nodeType (s.node n).state (s.node n).nextState))
    (s.node n).counts

/-- The counts are a function of the states, and no call deactivates what is not active. -/
structure ActivationsBalanced (F : Forest) (s : Exec) : Prop where
  counts : s.CountsOfState F
  covered : ∀ n rest, s.queues.stateChange = n :: rest → s.CoveredTransition F n rest

/-- What the node has activated beyond what is active in its state. -/
def excess (F : Forest) (n : NodePtr) (s : Exec) (a : Activatable) : Int :=
  (s.node n).counts a - F.activeCounts n (s.node n).state a

/-- The calls of a transition are made when the body is active in the active states only. -/
theorem performs_transitionNode (hbody : s.excess F n .body = 0) (hlegal : s.NextLegal F n)
    (rest : List NodePtr) :
  Performs F n (calls (F.decl n).nodeType (s.node n).state (s.node n).nextState) s
    (s.transitionNode F n rest)
  := by
  have hcount : (s.node n).counts .body =
      if (F.decl n).nodeType.hasBody then if (s.node n).state.isActive then 1 else 0 else 0 :=
    Int.eq_of_sub_eq_zero hbody
  apply Performs.transition (s := s.onCore (Core.withQueues (Queues.getStateChangeNode n rest)))
  · exact legalSuccessor_ne hlegal
  · exact hlegal
  · intro hactive htype
    change (s.node n).state.isActive = true at hactive
    change (if (s.node n).bodyActive then (1 : Int) else 0) = _ at hcount
    rw [if_pos htype, if_pos hactive] at hcount
    change (s.node n).bodyActive = true
    by_contra hnot
    rw [if_neg hnot] at hcount
    cases hcount
  · intro hwaiting
    apply NodeImpl.bodyActive_eq_false
    change (s.node n).counts .body = 0
    change (s.node n).state = .waiting at hwaiting
    rw [hcount, hwaiting]
    exact ite_self _

theorem state_transitionNode (hlegal : s.NextLegal F n) (rest : List NodePtr) :
  ((s.transitionNode F n rest).node n).state = (s.node n).nextState
  := by
  rcases transitionNode_cases F n rest s with ⟨hnext, -⟩ | ⟨-, ht⟩
  · exact absurd hnext (legalSuccessor_ne hlegal)
  · exact ht.core.state

/-- Only a leak adds to the excess. -/
theorem excess_transitionNode (hbody : s.excess F n .body = 0) (hlegal : s.NextLegal F n)
    (rest : List NodePtr) (a : Activatable) :
  (s.transitionNode F n rest).excess F n a = s.excess F n a +
    if F.hasActivatable n a ∧ leaks (F.decl n).nodeType (s.node n).nextState a then 1 else 0
  := by
  unfold excess
  rw [performs_transitionNode hbody hlegal rest, state_transitionNode hlegal rest,
    ActivationCount.run_eq]
  unfold present
  rw [ActivationCount.net_filter]
  unfold Forest.activeCounts
  by_cases ha : F.hasActivatable n a = true
  · have hnet := activeCounts_add_net hlegal a
    rw [if_pos ha, if_pos ha, if_pos ha]
    simp only [ha, true_and]
    omega
  · rw [if_neg ha, if_neg ha, if_neg ha, if_neg (fun hand => ha hand.1)]
    omega

theorem CountsOfState.excess_eq (h : s.CountsOfState F) (n : NodePtr) (a : Activatable) :
  s.excess F n a = 0
  := by
  unfold excess
  rw [h n]
  exact Int.sub_self _

theorem CountsOfState.coveredTransition (h : s.CountsOfState F) (hlegal : s.NextLegal F n)
    (rest : List NodePtr) :
  s.CoveredTransition F n rest
  := by
  constructor
  case performs => exact performs_transitionNode (h.excess_eq n .body) hlegal rest
  case covered =>
    apply (covered_calls hlegal).filter
    intro a ha
    rw [h n]
    exact if_pos ha

/-- The state after a transition. -/
theorem node_of_transition (hs : s.apply F e = some s') (hevent : s.coreEvent F e = .transition n) :
  ∃ rest, s.queues.stateChange = n :: rest ∧ s'.node = (s.transitionNode F n rest).node
  := by
  obtain ⟨⟨w, ns, rfl⟩, hphase, rest, hstateChange⟩ := coreEvent_eq_transition hevent
  use rest, hstateChange
  have hmove := Move.of_apply hs
  cases hmove
  case transition rest' m _ hstateChange' _ =>
    cases hstateChange.symm.trans hstateChange'
    rfl
  case continueLoop hstateChange' _ => cases hstateChange.symm.trans hstateChange'
  case leaveLoop hstateChange' _ => cases hstateChange.symm.trans hstateChange'
  all_goals simp_all

/-- A command node with an exit condition starts to execute. -/
def Leaks (F : Forest) (n : NodePtr) (s : Exec) : Prop :=
  (F.decl n).nodeType = .command ∧ (F.decl n).hasCondition .exit = true ∧
    (s.node n).nextState = .executing

/-- The counts of a node after its transition are those of its new state, unless it leaks. -/
theorem CountsOfState.transitioned (h : s.CountsOfState F) (hlegal : s.NextLegal F n)
    (rest : List NodePtr) :
  ((s.transitionNode F n rest).node n).counts =
      F.activeCounts n ((s.transitionNode F n rest).node n).state ↔ ¬ s.Leaks F n
  := by
  have hexcess := excess_transitionNode (h.excess_eq n .body) hlegal rest
  simp only [h.excess_eq, Int.zero_add] at hexcess
  constructor
  · rintro heq ⟨htype, hexit, hexec⟩
    have hleak := hexcess (.condition .exit)
    unfold excess at hleak
    rw [heq, Int.sub_self, if_pos ⟨hexit, by simp [leaks, htype, hexec]⟩] at hleak
    cases hleak
  · intro hnot
    funext a
    apply Int.eq_of_sub_eq_zero
    apply (hexcess a).trans
    rw [if_neg]
    rintro ⟨ha, hleaks⟩
    obtain ⟨htype, hexec, rfl⟩ := of_decide_eq_true hleaks
    exact hnot ⟨htype, ha, hexec⟩

/-- A step keeps the balance exactly when it does not leak. -/
theorem CountsOfState.step (h : s.CountsOfState F) (hx : s.Exclusive F)
    (hs : s.apply F e = some s') :
  s'.CountsOfState F ↔ ∀ n, s.coreEvent F e = .transition n → ¬ s.Leaks F n
  := by
  have hmove := Move.of_apply hs
  have legal (n : NodePtr) (hevent : s.coreEvent F e = .transition n) : s.NextLegal F n := by
    obtain ⟨-, -, rest, hstateChange⟩ := coreEvent_eq_transition hevent
    apply hx.legal n
    rw [hstateChange]
    exact .inr List.mem_cons_self
  constructor
  · intro h' n hevent
    obtain ⟨rest, -, hnode⟩ := node_of_transition hs hevent
    apply (h.transitioned (legal n hevent) rest).mp
    rw [← hnode]
    exact h' n
  · intro hnot n
    by_cases hevent : s.coreEvent F e = .transition n
    · obtain ⟨rest, -, hnode⟩ := node_of_transition hs hevent
      rw [hnode]
      exact (h.transitioned (legal n hevent) rest).mpr (hnot n hevent)
    · obtain ⟨hcounts, hstate⟩ := hmove.counts_of_other hevent
      rw [hcounts, hstate]
      exact h n

/-- A node has activated at least what is active in its state. -/
structure ActivatesEnough (F : Forest) (s : Exec) : Prop where
  body : ∀ n, s.excess F n .body = 0
  enough : ∀ n a, 0 ≤ s.excess F n a

theorem ActivatesEnough.step (h : s.ActivatesEnough F) (hx : s.Exclusive F)
    (hs : s.apply F e = some s') :
  s'.ActivatesEnough F
  := by
  have hexcess (n : NodePtr) : s'.excess F n .body = 0 ∧ ∀ a, 0 ≤ s'.excess F n a := by
    by_cases hevent : s.coreEvent F e = .transition n
    · obtain ⟨rest, hstateChange, hnode⟩ := node_of_transition hs hevent
      have hlegal : s.NextLegal F n := by
        apply hx.legal n
        rw [hstateChange]
        exact .inr List.mem_cons_self
      have hstep (a : Activatable) := excess_transitionNode (h.body n) hlegal rest a
      unfold excess at hstep ⊢
      rw [hnode]
      constructor
      · rw [hstep, if_neg]
        · exact (Int.add_zero _).trans (h.body n)
        · rintro ⟨-, hleaks⟩
          cases (of_decide_eq_true hleaks).2.2
      · intro a
        rw [hstep]
        apply Int.add_nonneg (h.enough n a)
        split <;> decide
    · obtain ⟨hcounts, hstate⟩ := (Move.of_apply hs).counts_of_other hevent
      unfold excess
      rw [hcounts, hstate]
      exact ⟨h.body n, h.enough n⟩
  exact ⟨fun n => (hexcess n).1, fun n => (hexcess n).2⟩

theorem CountsOfState.balanced (h : s.CountsOfState F) (hx : s.Exclusive F) :
  s.ActivationsBalanced F
  := by
  constructor
  · exact h
  · intro n rest hstateChange
    apply h.coveredTransition
    apply hx.legal n
    rw [hstateChange]
    exact .inr List.mem_cons_self

theorem countsOfState_initial (hierarchy : ResourceHierarchyMap) (w : World) :
  (initial hierarchy w).CountsOfState F
  := by
  intro n
  funext a
  unfold Forest.activeCounts
  cases a <;> exact (ite_self _).symm

theorem Reachable.activatesEnough {Allowed : Exec → Event → Prop} (h : Reachable F Allowed s) :
  s.ActivatesEnough F
  := by
  apply h.invariant_of (Q := Reachable F Allowed)
  · exact fun s hs => hs
  · rintro s ⟨hierarchy, w, rfl⟩
    have hinitial := countsOfState_initial (F := F) hierarchy w
    exact ⟨fun n => hinitial.excess_eq n .body, fun n a => le_of_eq (hinitial.excess_eq n a).symm⟩
  · exact fun s e s' hs h' _ hstep => h'.step hs.exclusive hstep

/-- The activations stay balanced throughout a run exactly when no command node with an exit
condition starts to execute. -/
theorem activationsBalanced_iff (F : Forest) (hierarchy : ResourceHierarchyMap) (w : World)
    (es : List Event) :
  StateMachine.Always (apply F) (ActivationsBalanced F) es (initial hierarchy w) ↔
    StateMachine.Meets (apply F)
      (fun s e => ∀ n, (s.apply F e).isSome → s.coreEvent F e = .transition n → ¬ s.Leaks F n) es
      (initial hierarchy w)
  := by
  apply StateMachine.always_iff_meets (I := Reachable F fun _ _ => True)
  · exact fun s e s' hs hstep => .step hs trivial hstep
  · intro s e hs hbalanced
    have hx := hs.exclusive
    constructor
    · intro hallowed s' hs'
      have h' := (hbalanced.counts.step hx hs').mpr fun n => hallowed n (by rw [hs']; rfl)
      have hreachable : Reachable F (fun _ _ => True) s' := .step hs trivial hs'
      exact h'.balanced hreachable.exclusive
    · intro h n hsome hevent
      obtain ⟨s', hs'⟩ := Option.isSome_iff_exists.mp hsome
      exact (hbalanced.counts.step hx hs').mp (h s' hs').counts n hevent
  · exact .init ⟨hierarchy, w, rfl⟩
  · exact (countsOfState_initial hierarchy w).balanced (exclusive_initial hierarchy w)

/-- A command node with an exit condition has activated the condition in WAITING and in EXECUTING,
and deactivated it once when it is finished. -/
theorem activationsBalanced_fails :
  ¬ ∀ F hierarchy w es,
    StateMachine.Always (apply F) (ActivationsBalanced F) es (initial hierarchy w)
  := by
  intro h
  have hrun : (StateMachine.run (apply commandRoot)
      ([.addPlan 0, .step 0] ++ Event.nexts 14 (doneWorld false) ++
        [.commandHandle 0 .success (doneWorld false) [0], .step 0] ++
        Event.nexts 14 (doneWorld false))
      (initial ∅ (doneWorld false))).map
      (fun s => ((s.node 0).state, (s.node 0).counts (.condition .exit))) = some (.finished, 1) := by
    decide +kernel
  obtain ⟨s, hs, hstate⟩ := Option.map_eq_some_iff.mp hrun
  obtain ⟨hfinished, hexit⟩ := Prod.mk.inj hstate
  have hcounts := ((h commandRoot _ _ _).of_run hs).counts 0
  rw [hfinished] at hcounts
  rw [hcounts] at hexit
  cases hexit

end Exec
end Plexil

import Plexil.Exec.ConditionActivity

/-!
# Parents and children

The conditions for the children are active while the parent is in EXECUTING, FINISHING or
FAILING.  A child which looks at them has been started by a parent in EXECUTING, so that they are
active as long as the parent stays in these states.  A parent leaves them when its children are
finished or waiting, and a child which is waiting then looks at conditions that are no longer
active.
-/

namespace Plexil

/-- The states between WAITING and the end. -/
def NodeState.isStarted : NodeState → Bool
  | inactive | finished | noNodeState => false
  | _ => true

/-- Only a child of a parent in EXECUTING is to be started. -/
theorem Core.Finds.parent_executing {F : Forest} {c : Core} {m p : NodePtr} {d : Dest}
    (h : c.Finds F m (some d)) (hparent : (F.decl m).parent = some p)
    (hstate : (c.node m).state = .inactive) (hd : d.state = .waiting) :
  (c.node p).state = .executing
  := by
  obtain ⟨v, -, hv, -, hvparent, hdest⟩ := h
  rw [hparent, Option.map_some] at hvparent
  unfold destState at hdest
  rw [hv, hstate] at hdest
  dsimp only at hdest
  unfold getDestStateFromInactive at hdest
  rw [hvparent] at hdest
  cases hp : (c.node p).state <;> rw [hp] at hdest
  case finished =>
    cases hdest
    cases hd
  all_goals cases hdest

/-- The nodes which are to make a transition after a step without one. -/
theorem Core.Step.joined {F : Forest} {c c' : Core} {e : CoreEvent} {m : NodePtr}
    (hq : c.queues.WellFormed) (hx : c.Exclusive F) (hstep : Step F c e c')
    (hevent : ∀ n, e ≠ .transition n) (hm : m ∈ c'.queues.stateChange) :
  (m ∈ c.queues.stateChange ∧ (c'.node m).nextState = (c.node m).nextState) ∨
    (∃ d, e = .evaluate m (some d) ∧ c.Finds F m (some d) ∧ (c'.node m).nextState = d.state) ∨
    (c.node m).state = .waiting
  := by
  -- A node of the pending queue is waiting.
  have pending {n : NodePtr} {k : Option QueueName} (hn : n ∈ c.queues.pending)
      (hc : Considered F n k c c') : (m ∈ c.queues.stateChange ∧
        (c'.node m).nextState = (c.node m).nextState) ∨ (c.node m).state = .waiting := by
    by_cases hmn : m = n
    · right
      have hlegal := hx.legal n (.inl hn)
      unfold NextLegal at hlegal
      rw [hx.next n hn] at hlegal
      rw [hmn]
      exact legalSuccessor_executing hlegal
    · left
      constructor
      · exact (hc.placed.others hmn .stateChange).mp hm
      · rw [hc.others m hmn]
  cases hstep
  case quiet hquiet =>
    rw [hquiet.queues] at hm
    exact .inl ⟨hm, (hquiet.node m).nextState⟩
  case notify n hexists => exact .inl ⟨Queues.stateChange_notify (n := n) ▸ hm, rfl⟩
  case notifyResourceAvailable n hexists =>
    exact .inl ⟨Queues.stateChange_notifyResourceAvailable (n := n) ▸ hm, rfl⟩
  case addPlan root hroot hadded => exact .inl ⟨Queues.stateChange_notify (n := root) ▸ hm, rfl⟩
  case deleteFinishedPlans => exact .inl ⟨hm, rfl⟩
  case evaluate n rest d hcandidate hfinds =>
    obtain ⟨k, hc, hk⟩ := considered_evaluate hq hx.waiters hcandidate hfinds
    by_cases hmn : m = n
    · subst hmn
      have hplace : k = some .stateChange := by
        rcases (hc.placed m .stateChange).mp hm with ⟨-, hk⟩ | ⟨hne, -⟩
        · exact hk
        · exact absurd rfl hne
      cases d with
      | none => exact absurd rfl (hk.mp (by rw [hplace]; simp))
      | some d =>
        right
        left
        refine ⟨d, rfl, hfinds, ?_⟩
        rw [node_evaluateCandidate]
        rfl
    · left
      constructor
      · exact (hc.placed.others hmn .stateChange).mp hm
      · rw [hc.others m hmn]
  case examine n d hpending hfinds =>
    obtain ⟨k, hc, -⟩ := considered_examine hq hx.waiters hpending hfinds (hx.next n hpending)
      (hx.legal n (.inl hpending))
    exact (pending hpending hc).imp_right .inr
  case acquire n hpending =>
    obtain ⟨k, hc⟩ := considered_acquire hq hx.waiters hpending (hx.next n hpending)
      (hx.legal n (.inl hpending))
    exact (pending hpending hc).imp_right .inr
  case stay n rest hstateChange hnext => exact absurd rfl (hevent n)
  case transition n rest hstateChange hnext ht => exact absurd rfl (hevent n)

namespace Exec

variable {F : Forest} {s s' : Exec} {e : Event} {m n p : NodePtr}

/-- The invariant of parents and children: a child which has been started has a parent which is
active, and a child is started by a parent in EXECUTING, which makes one transition at most
before the child does. -/
structure Family (F : Forest) (s : Exec) : Prop where
  active : ∀ m p, (F.decl m).parent = some p → (s.node m).state.isStarted = true →
    (s.node p).state.isActive = true
  starting : ∀ m p, (F.decl m).parent = some p → m ∈ s.queues.stateChange →
    (s.node m).state = .inactive → (s.node m).nextState = .waiting →
    (s.node p).state = .executing ∨
      (s.node p).state.isActive = true ∧ p ∉ s.queues.stateChange ∧ s.phase = .transitioning

/-- A list node leaves FINISHING or FAILING while a child is not finished. -/
def LeavesChild (F : Forest) (n : NodePtr) (s : Exec) : Prop :=
  ((s.node n).state = .finishing ∨ (s.node n).state = .failing) ∧
    ((s.node n).nextState = .iterationEnded ∨ (s.node n).nextState = .finished) ∧
    ∃ m ∈ (F.decl n).children, (s.node m).state ≠ .finished

/-- A list node which is active stays so, unless it leaves FINISHING or FAILING. -/
theorem isActive_of_legalSuccessor {type : PlexilNodeType} {state next : NodeState}
    (htype : type.isList = true) (hlegal : legalSuccessor type state next = true)
    (hactive : state.isActive = true) :
  next.isActive = true ∨ (state = .finishing ∨ state = .failing) ∧
    (next = .iterationEnded ∨ next = .finished)
  := by
  revert htype hlegal hactive
  cases type <;> cases state <;> cases next <;> decide

/-- A node which is started now has been started before, or comes from INACTIVE. -/
theorem isStarted_of_legalSuccessor {type : PlexilNodeType} {state next : NodeState}
    (hlegal : legalSuccessor type state next = true) (hstarted : next.isStarted = true) :
  state.isStarted = true ∨ state = .inactive ∧ next = .waiting
  := by
  revert hlegal hstarted
  cases type <;> cases state <;> cases next <;> decide

theorem isList_of_parent (hparent : (F.decl m).parent = some p) :
  (F.decl p).nodeType.isList = true
  := by
  apply F.isList_of_children p
  apply List.ne_nil_of_mem
  exact (F.mem_children p m).mpr hparent

/-- The step in which the node `n` makes its transition. -/
structure Transitions (F : Forest) (s s' : Exec) (n : NodePtr) (rest : List NodePtr) : Prop where
  legal : s.NextLegal F n
  phase : s'.phase = .transitioning
  stateChange : s.queues.stateChange = n :: rest
  rest : s'.queues.stateChange = rest
  state : (s'.node n).state = (s.node n).nextState
  others : ∀ m, m ≠ n → s'.node m = s.node m

theorem Transitions.of_apply (hs : Reachable F (fun _ _ => True) s)
    (hstep : s.apply F e = some s') (hevent : s.coreEvent F e = .transition n) :
  s.phase = .transitioning ∧ ∃ rest, Transitions F s s' n rest
  := by
  have hmove := Move.of_apply hstep
  obtain ⟨⟨w, ns, rfl⟩, hphase, rest, hstateChange⟩ := coreEvent_eq_transition hevent
  have hlegal : s.NextLegal F n := by
    apply hs.exclusive.legal n
    rw [hstateChange]
    exact .inr List.mem_cons_self
  refine ⟨hphase, rest, ?_⟩
  cases hmove
  case transition rest' m _ hstateChange' _ =>
    cases hstateChange.symm.trans hstateChange'
    rcases transitionNode_cases F n rest s with ⟨hnext, -⟩ | ⟨-, ht⟩
    · exact absurd hnext (legalSuccessor_ne hlegal)
    · constructor
      case legal => exact hlegal
      case phase =>
        change (s.transitionNode F n rest).phase = _
        rw [phase_transitionNode, hphase]
      case stateChange => exact hstateChange
      case rest =>
        exact (Queues.stateChange_notifyAll ns).trans
          (ht.core.stateChange_eq.trans Queues.stateChange_getStateChangeNode)
      case state => exact ht.core.state
      case others => exact ht.core.others
  case continueLoop hstateChange' _ => cases hstateChange.symm.trans hstateChange'
  case leaveLoop hstateChange' _ => cases hstateChange.symm.trans hstateChange'
  all_goals simp_all

theorem Transitions.notMem_rest {rest : List NodePtr} (ht : Transitions F s s' n rest)
    (hq : s.queues.WellFormed) :
  n ∉ rest
  := by
  have hnodup : s.queues.stateChange.Nodup := hq.nodup .stateChange
  rw [ht.stateChange] at hnodup
  exact (List.nodup_cons.mp hnodup).1

/-- A child which is to be started has a parent in EXECUTING, which makes one transition at most
before the child does. -/
def StartsUnderParent (F : Forest) (s : Exec) : Prop :=
  ∀ m p, (F.decl m).parent = some p → m ∈ s.queues.stateChange →
    (s.node m).state = .inactive → (s.node m).nextState = .waiting →
    (s.node p).state = .executing ∨
      (s.node p).state.isActive = true ∧ p ∉ s.queues.stateChange ∧ s.phase = .transitioning

/-- The transition of a node which stays active while a child is to be started. -/
theorem StartsUnderParent.transitioned {rest : List NodePtr} (h : s.StartsUnderParent F)
    (hq : s.queues.WellFormed) (ht : Transitions F s s' n rest)
    (stays : ∀ m, (F.decl m).parent = some n → (s.node n).state.isActive = true →
      (s.node m).state = .inactive → (s.node m).nextState = .waiting →
      (s'.node n).state.isActive = true) :
  s'.StartsUnderParent F
  := by
  have hnotMem := ht.notMem_rest hq
  intro m p hparent hm hinactive hwaiting
  rw [ht.rest] at hm
  have hmn : m ≠ n := by
    rintro rfl
    exact hnotMem hm
  rw [ht.others m hmn] at hinactive hwaiting
  have hm' : m ∈ s.queues.stateChange := by
    rw [ht.stateChange]
    exact .tail n hm
  have hbefore := h m p hparent hm' hinactive hwaiting
  by_cases hp : p = n
  · subst hp
    right
    rw [ht.rest]
    refine ⟨?_, hnotMem, ht.phase⟩
    apply stays m hparent _ hinactive hwaiting
    rcases hbefore with hexec | ⟨hactive, -⟩
    · rw [hexec]
      rfl
    · exact hactive
  · rw [ht.others p hp, ht.rest]
    rcases hbefore with hexec | ⟨hactive, hnot, -⟩
    · exact .inl hexec
    · rw [ht.stateChange, List.mem_cons, not_or] at hnot
      exact .inr ⟨hactive, hnot.2, ht.phase⟩

/-- A child which is started now has an active parent. -/
theorem StartsUnderParent.parent_isActive {rest : List NodePtr} (h : s.StartsUnderParent F)
    (ht : Transitions F s s' n rest) (hparent : (F.decl n).parent = some p)
    (hinactive : (s.node n).state = .inactive) (hwaiting : (s.node n).nextState = .waiting) :
  (s.node p).state.isActive = true
  := by
  have hmem : n ∈ s.queues.stateChange := by
    rw [ht.stateChange]
    apply List.mem_cons_self
  rcases h n p hparent hmem hinactive hwaiting with hexec | ⟨hactive, -⟩
  · rw [hexec]
    rfl
  · exact hactive

/-- The transition of a node which leaves no child. -/
theorem Family.transitioned {rest : List NodePtr} (h : s.Family F) (hq : s.queues.WellFormed)
    (ht : Transitions F s s' n rest) (hleaves : ¬ s.LeavesChild F n) :
  s'.Family F
  := by
  -- An active parent of a child which is not finished stays active.
  have stays {m : NodePtr} (hparent : (F.decl m).parent = some n)
      (hactive : (s.node n).state.isActive = true) (hm : (s.node m).state ≠ .finished) :
      (s'.node n).state.isActive = true := by
    rw [ht.state]
    rcases isActive_of_legalSuccessor (isList_of_parent hparent) ht.legal hactive with h | ⟨h, h'⟩
    · exact h
    · exact absurd ⟨h, h', m, (F.mem_children n m).mpr hparent, hm⟩ hleaves
  constructor
  case active =>
    intro m p hparent hstarted
    have hpm := F.parent_ne hparent
    by_cases hm : m = n
    · subst hm
      rw [ht.others p hpm]
      rw [ht.state] at hstarted
      rcases isStarted_of_legalSuccessor ht.legal hstarted with hbefore | ⟨hinactive, hwaiting⟩
      · exact h.active m p hparent hbefore
      · apply StartsUnderParent.parent_isActive h.starting ht hparent hinactive hwaiting
    · rw [ht.others m hm] at hstarted
      have hactive := h.active m p hparent hstarted
      by_cases hp : p = n
      · subst hp
        apply stays hparent hactive
        intro hfinished
        rw [hfinished] at hstarted
        cases hstarted
      · rw [ht.others p hp]
        exact hactive
  case starting =>
    apply StartsUnderParent.transitioned h.starting hq ht
    intro m hparent hactive hinactive _
    apply stays hparent hactive
    rw [hinactive]
    simp

/-- While transitions are outstanding, nodes are only notified in between. -/
theorem notified_of_other (h : Move F s e s') (hphase : s.phase = .transitioning)
    (hne : s.queues.stateChange ≠ []) (hevent : ∀ n, s.coreEvent F e ≠ .transition n) :
  s'.phase = .transitioning ∧ s'.queues.stateChange = s.queues.stateChange ∧ s'.node = s.node
  := by
  cases h
  case notify => exact ⟨hphase, Queues.stateChange_notify, rfl⟩
  case notifyResourceAvailable => exact ⟨hphase, Queues.stateChange_notifyResourceAvailable, rfl⟩
  case transition rest n _ hstateChange _ =>
    exfalso
    apply hevent n
    rw [coreEvent_next, hphase, hstateChange]
  case continueLoop hstateChange _ => exact absurd hstateChange hne
  case leaveLoop hstateChange _ => exact absurd hstateChange hne
  all_goals simp_all

/-- A step without a transition. -/
theorem StartsUnderParent.other (h : s.StartsUnderParent F) (hq : s.queues.WellFormed)
    (hwalk : s.Walk) (hx : s.Exclusive F) (hmove : Move F s e s')
    (hevent : ∀ n, s.coreEvent F e ≠ .transition n) :
  s'.StartsUnderParent F
  := by
  have hstate (m : NodePtr) := (hmove.counts_of_other (hevent m)).2
  obtain ⟨c₁, ns, hcore, -, heq⟩ := hmove.core hwalk
  have hstateChange : s'.queues.stateChange = c₁.queues.stateChange := by
    rw [heq]
    exact Queues.stateChange_notifyAll ns
  have hnode : s'.node = c₁.node := by
    rw [heq]
    rfl
  intro m p hparent hm hinactive hwaiting
  rw [hstate] at hinactive ⊢
  rw [hstateChange] at hm
  rw [hnode] at hwaiting
  rcases hcore.joined hq hx hevent hm with ⟨hm', hnext⟩ | ⟨d, hevaluate, hfinds, hnext⟩ | hstarted
  · rw [hnext] at hwaiting
    rcases h m p hparent hm' hinactive hwaiting with hexec | ⟨hactive, hnot, hphase⟩
    · exact .inl hexec
    · right
      refine ⟨hactive, ?_, (notified_of_other hmove hphase (List.ne_nil_of_mem hm') hevent).1⟩
      -- Nothing is evaluated while the transitions are made.
      rw [hstateChange]
      intro hp
      rcases hcore.joined hq hx hevent hp with ⟨hp', -⟩ | ⟨d, hevaluate, -⟩ | hidle
      · exact hnot hp'
      · rw [(coreEvent_eq_evaluate hevaluate).1] at hphase
        cases hphase
      · rw [hidle] at hactive
        cases hactive
  · rw [hnext] at hwaiting
    exact .inl (hfinds.parent_executing hparent hinactive hwaiting)
  · rw [hinactive] at hstarted
    cases hstarted

theorem Family.other (h : s.Family F) (hq : s.queues.WellFormed) (hwalk : s.Walk)
    (hx : s.Exclusive F) (hmove : Move F s e s')
    (hevent : ∀ n, s.coreEvent F e ≠ .transition n) :
  s'.Family F
  := by
  have hstate (m : NodePtr) := (hmove.counts_of_other (hevent m)).2
  constructor
  case active =>
    intro m p hparent
    rw [hstate, hstate]
    exact h.active m p hparent
  case starting => exact StartsUnderParent.other h.starting hq hwalk hx hmove hevent

theorem Family.step (h : s.Family F) (hs : Reachable F (fun _ _ => True) s)
    (hstep : s.apply F e = some s')
    (hleaves : ∀ n, s.coreEvent F e = .transition n → ¬ s.LeavesChild F n) :
  s'.Family F
  := by
  by_cases hevent : ∃ n, s.coreEvent F e = .transition n
  · obtain ⟨n, hevent⟩ := hevent
    obtain ⟨-, rest, ht⟩ := Transitions.of_apply hs hstep hevent
    apply h.transitioned hs.wellFormed ht (hleaves n hevent)
  · exact h.other hs.wellFormed hs.walk hs.exclusive (Move.of_apply hstep)
      (not_exists.mp hevent)

/-- In a family whose nodes have activated what their states say, the conditions which a node looks
at are active. -/
theorem Family.consultsActive (h : s.Family F) (henough : s.ActivatesEnough F) :
  s.ConsultsActive F
  := by
  intro n _ c hc x hx
  rcases NodeView.mem_evaluates hc with ⟨hown, hactive⟩ | ⟨hancestor, hstate⟩
  · unfold Forest.consulted at hx
    rw [hown, if_neg Bool.false_ne_true] at hx
    exact henough.isActive hx hactive
  · unfold Forest.consulted at hx
    rw [if_pos hancestor] at hx
    obtain ⟨p, hparent, hx⟩ := Option.bind_eq_some_iff.mp hx
    have hp : (s.node p).state.isActive = true := by
      rcases hstate with hunder | ⟨-, hexec⟩
      · apply h.active n p hparent
        change (s.node n).state.underParent = true at hunder
        revert hunder
        cases (s.node n).state <;> decide
      · change (F.decl n).parent.map (fun p => (s.node p).state) = some .executing at hexec
        rw [hparent, Option.map_some, Option.some.injEq] at hexec
        rw [hexec]
        rfl
    apply henough.isActive hx
    -- A list node has the conditions for the children in the active states.
    have hlist := isList_of_parent hparent
    revert hp hlist hancestor
    cases (F.decl p).nodeType <;> cases (s.node p).state <;> cases c <;> decide

/-- In every run in which no list node leaves a child behind, `getDestState` looks at active
conditions only. -/
theorem consultsActive_of_leaves (F : Forest) (hierarchy : ResourceHierarchyMap) (w : World)
    (es : {es : List Event // StateMachine.Meets (apply F)
      (fun s e => ∀ n, s.coreEvent F e = .transition n → ¬ s.LeavesChild F n) es
      (initial hierarchy w)}) :
  StateMachine.Always (apply F) (ConsultsActive F) es.val (initial hierarchy w)
  := by
  have consults {s : Exec} (hs : Reachable F (fun _ _ => True) s) (hfamily : s.Family F) :
      s.ConsultsActive F := hfamily.consultsActive hs.activatesEnough
  have hfamily : (initial hierarchy w).Family F := by
    constructor
    · intro m p _ hstarted
      cases hstarted
    · intro m p _ hm
      cases hm
  have hinitial : Reachable F (fun _ _ => True) (initial hierarchy w) := .init ⟨hierarchy, w, rfl⟩
  apply StateMachine.Meets.always (I := fun s => Reachable F (fun _ _ => True) s ∧ s.Family F) _
    es.property ⟨hinitial, hfamily⟩ (consults hinitial hfamily)
  rintro s e s' ⟨hs, hfamily⟩ - hallowed hstep
  have hs' : Reachable F (fun _ _ => True) s' := .step hs trivial hstep
  have hfamily' := hfamily.step hs hstep hallowed
  exact ⟨⟨hs', hfamily'⟩, consults hs' hfamily'⟩

/-- A list node with an exit condition and an end condition, and an empty child which repeats. -/
def lateChild : Forest :=
  .ofFamily
    (fun n =>
      if n = 0 then ⟨.nodeList, none, [1], 0, [], 0, fun c => c = .exit ∨ c = .end, false⟩
      else if n = 1 then
        ⟨.empty, some 0, [], 0, [], 0, fun c => c = .start ∨ c = .end ∨ c = .repeat, false⟩
      else ⟨.empty, none, [], 0, [], 0, fun _ => false, false⟩)
    [1] Forest.root_notMem_singleton
    (fun n => by
      by_cases h0 : n = 0
      · subst h0
        rfl
      · by_cases h1 : n = 1
        · subst h1
          rfl
        · simp [h0, h1])
    (fun n => by by_cases h0 : n = 0 <;> by_cases h1 : n = 1 <;> simp [h0, h1])
    rfl
    (fun n => by by_cases h0 : n = 0 <;> by_cases h1 : n = 1 <;> simp [h0, h1])

/-- The end condition of the parent, and the start and end conditions of the child. -/
def lateWorld (parentEnds childStarts childEnds : Bool) : World :=
  { World.unknown with
    condition := fun n c =>
      match n, c with
      | 0, .end => some parentEnds
      | 1, .start => some childStarts
      | 1, .end => some childEnds
      | 1, .repeat => some true
      | _, _ => some false }

/-- No node makes a combined condition. -/
theorem own_of_isActive_lateChild {s : Exec} {x : ConditionExpr} (h : IsActive lateChild s x) :
  ∃ n c, lateChild.expression n c = some x ∧ x = .own n c.source ∧ 0 < (s.node n).activations c
  := by
  have own {n : NodePtr} {c : ConditionIndex} {x : ConditionExpr}
      (hx : lateChild.expression n c = some x) : x = .own n c.source := by
    unfold Forest.expression at hx
    split at hx
    · split at hx
      · rename_i hlist
        have hn : n = 0 := by
          by_contra hn
          by_cases h1 : n = 1
          · subst h1
            cases hlist
          · have htype : (lateChild.decl n).nodeType = .empty := by
              simp [lateChild, Forest.ofFamily, hn, h1]
            rw [htype] at hlist
            cases hlist
        subst hn
        revert hx
        cases c <;> simp +decide [Forest.childExpression, lateChild, Forest.ofFamily] <;>
          exact fun h => h.symm
      · cases hx
    · rename_i hancestor
      split at hx
      · cases hx
        cases c <;> first | rfl | exact absurd rfl hancestor
      · cases hx
  induction h with
  | contributed hx hactive => exact ⟨_, _, hx, own hx, hactive⟩
  | argument hcombined _ ih =>
    obtain ⟨n, c, -, hx, -⟩ := ih
    cases hx

/-- The end condition of the parent is true for a moment while the child executes.  The child ends
and waits for another iteration, and the parent ends.  Then the start condition of the child
changes, and the child looks at the exit condition of its parent. -/
theorem consultsActive_fails :
  ¬ ∀ F hierarchy w es,
    StateMachine.Always (apply F) (ConsultsActive F) es (initial hierarchy w)
  := by
  intro h
  have hrun : (StateMachine.run (apply lateChild)
      ([.addPlan 0, .step 0] ++ Event.nexts 24 (lateWorld false true false) ++
        [.change (lateWorld true true false) [0], .step 0] ++
        Event.nexts 11 (lateWorld true true false) ++
        [.change (lateWorld false false true) [1], .step 0] ++
        Event.nexts 6 (lateWorld false false true) ++ [.next (lateWorld false false true) [0]] ++
        Event.nexts 15 (lateWorld false false true) ++
        [.change (lateWorld false true true) [1], .step 0])
      (initial ∅ (lateWorld false true false))).map
      (fun s => (decide (s.phase = .evaluating ∧ s.queues.candidate.head? = some 1 ∧
        .ancestorExit ∈ (s.view lateChild 1).evaluates), (s.node 0).activations .exit,
        (s.node 0).activations .ancestorExit)) = some (true, 0, 0) := by
    decide +kernel
  obtain ⟨s, hs, hstate⟩ := Option.map_eq_some_iff.mp hrun
  obtain ⟨hconsults, hrest⟩ := Prod.mk.inj hstate
  obtain ⟨hexit, hancestorExit⟩ := Prod.mk.inj hrest
  obtain ⟨hphase, hhead, hevaluates⟩ := of_decide_eq_true hconsults
  have hactive := (h lateChild _ _ _).of_run hs 1 (.inl ⟨hphase, hhead⟩) .ancestorExit hevaluates
    (.own 0 .exit) rfl
  obtain ⟨n, c, hx, hown, hcount⟩ := own_of_isActive_lateChild hactive
  obtain ⟨rfl, hsource⟩ := ConditionExpr.own.inj hown
  cases c <;> cases hsource
  · rw [hancestorExit] at hcount
    cases hcount
  · rw [hexit] at hcount
    cases hcount

end Exec
end Plexil

import Plexil.Epx.Family

/-!
# What a batch does to a family

The members are followed through their states.  The conditions of the ancestors are the same
for all children: when one of them takes a waiting child out, it takes out all of them, and
the list node leaves EXECUTING only together with this, or when all children are finished.
So the children of a list node which is not executing its body are at rest.

This needs that no child repeats while the list node is about to finish.
-/

namespace Plexil

/-! ### Conditions which are present -/

theorem Condition.isTrue_some (value : Option Bool) :
  Condition.isTrue (some value) = true ↔ value = some true
  := by
  simp [isTrue]

theorem Condition.isNotTrue_some (value : Option Bool) :
  Condition.isNotTrue (some value) = false ↔ value = some true
  := by
  simp [isNotTrue, isTrue]

/-! ### Destination states -/

/-- An ancestor takes the node out: its exit or end condition is true, or its invariant
condition is false. -/
def NodeView.AncestorOut (v : NodeView) : Prop :=
  v.ancestorExit.isTrue = true ∨ v.ancestorInvariant.isFalse = true ∨ v.ancestorEnd.isTrue = true

namespace NodeView

variable {v : NodeView} {d : Dest}

theorem destState_inactive (hstate : v.state = .inactive)
    (hparent : v.parentState = some .executing) :
  (v.AncestorOut ∧ destState v = some .skipped) ∨
    (¬ v.AncestorOut ∧ destState v = some { state := .waiting })
  := by
  unfold destState AncestorOut
  rw [hstate]
  unfold getDestStateFromInactive
  rw [hparent]
  grind

theorem destState_inactive_finished (hstate : v.state = .inactive)
    (hparent : v.parentState = some .finished) :
  destState v = some .skipped
  := by
  unfold destState
  rw [hstate]
  unfold getDestStateFromInactive
  rw [hparent]

theorem destState_inactive_none {p : NodeState} (hstate : v.state = .inactive)
    (hparent : v.parentState = some p) (hexecuting : p ≠ .executing) (hfinished : p ≠ .finished) :
  destState v = none
  := by
  unfold destState
  rw [hstate]
  unfold getDestStateFromInactive
  rw [hparent]
  cases p <;> first | rfl | contradiction

theorem destState_finished {p : NodeState} (hstate : v.state = .finished)
    (hparent : v.parentState = some p) :
  destState v = if p = .waiting then some { state := .inactive } else none
  := by
  unfold destState
  rw [hstate]
  unfold getDestStateFromFinished
  rw [hparent]
  simp only [Option.some.injEq]

theorem destState_waiting_out (hstate : v.state = .waiting) (hout : v.AncestorOut) :
  destState v = some .skipped
  := by
  unfold destState
  rw [hstate]
  unfold getDestStateFromWaiting
  unfold AncestorOut at hout
  grind

/-- Why a waiting node leaves WAITING when no ancestor takes it out. -/
theorem destState_waiting (hstate : v.state = .waiting) (hout : ¬ v.AncestorOut)
    (hdest : destState v = some d) :
  (d = .skipped ∧ (v.exit.isTrue = true ∨ v.skip.isTrue = true)) ∨
    (v.skip.isTrue = false ∧ v.start.isNotTrue = false ∧
      (d.state = .executing ∨ d.state = .iterationEnded))
  := by
  unfold destState at hdest
  rw [hstate] at hdest
  unfold getDestStateFromWaiting at hdest
  unfold AncestorOut at hout
  grind

/-- A node repeats only by its repeat condition, when no ancestor takes it out. -/
theorem destState_repeats (hdest : destState v = some d) (hwaiting : d.state = .waiting)
    (hinactive : v.state ≠ .inactive) :
  v.state = .iterationEnded ∧ ¬ v.AncestorOut ∧ v.repeat.isTrue = true
  := by
  have hlegal := destState_legal hdest
  rw [hwaiting] at hlegal
  have hstate : v.state = .iterationEnded := by
    revert hlegal hinactive
    cases v.nodeType <;> cases v.state <;> simp [legalSuccessor]
  unfold destState at hdest
  rw [hstate] at hdest
  unfold getDestStateFromIterationEnded at hdest
  unfold AncestorOut
  grind [Condition.isTrue]

end NodeView

/-- The states of a node which is carrying out an iteration. -/
def NodeState.isRunning : NodeState → Bool
  | executing | finishing | failing | iterationEnded => true
  | _ => false

/-- The states in which a list node is about to finish an iteration. -/
def NodeState.isClosing : NodeState → Bool
  | finishing | failing => true
  | _ => false

/-- A running node goes on, finishes or repeats. -/
theorem legalSuccessor_isRunning {type : PlexilNodeType} {state next : NodeState}
    (h : legalSuccessor type state next = true) (hrunning : state.isRunning = true) :
  next.isRunning = true ∨ next = .finished ∨ next = .waiting
  := by
  revert h hrunning
  cases type <;> cases state <;> cases next <;> simp [legalSuccessor, NodeState.isRunning]

namespace Epx

/-! ### The status after a batch -/

namespace CoreNode

variable {node : CoreNode} {blocked : Bool} {v : NodeView} {x : NodeStatus} {d : Dest}

theorem move_none (hdest : destState v = none) :
  node.move blocked v x = x
  := by
  unfold move
  rw [hdest]

theorem move_some (hdest : destState v = some d) (hstate : d.state ≠ .executing) :
  node.move blocked v x = x.transition d
  := by
  unfold move
  rw [hdest]
  simp [hstate]

theorem move_cases (node : CoreNode) (blocked : Bool) (v : NodeView) (x : NodeStatus) :
  node.move blocked v x = x ∨
    ∃ d, destState v = some d ∧ node.move blocked v x = x.transition d
  := by
  unfold move
  split
  · left
    rfl
  · rename_i d hdest
    split
    · left
      rfl
    · right
      use d, hdest

/-- A node which changes its state has a destination. -/
theorem move_state {next : NodeState} (hnext : (node.move blocked v x).state = next)
    (hne : x.state ≠ next) :
  ∃ d, destState v = some d ∧ d.state = next ∧ node.move blocked v x = x.transition d
  := by
  rcases node.move_cases blocked v x with heq | ⟨d, hdest, heq⟩
  · rw [heq] at hnext
    contradiction
  · use d, hdest
    rw [heq, NodeStatus.transition_state] at hnext
    exact ⟨hnext, heq⟩

end CoreNode

namespace Family

variable {node : CoreNode} {e : Surroundings} {s : Family}

/-! ### Children -/

/-- An ancestor takes out the children. -/
def ChildrenOut (node : CoreNode) (e : Surroundings) (s : Family) : Prop :=
  (s.childAncestors node e).exit.isTrue = true ∨
    (s.childAncestors node e).invariant.isFalse = true ∨
    (s.childAncestors node e).end.isTrue = true

theorem ancestorOut_childView (i : Nat) (c : CoreNode) :
  (s.childView node e i c).AncestorOut ↔ s.ChildrenOut node e
  := Iff.rfl

section

variable {i : Nat} {c : CoreNode} (hc : node.children[i]? = some c)

include hc

theorem step_child :
  (s.step node e).child i = c.move (e.blocked (.child i)) (s.childView node e i c) (s.child i)
  := by
  unfold step
  dsimp only
  rw [hc]

theorem step_inactive_idle (hstate : (s.child i).state = .inactive)
    (hexecuting : s.list.state ≠ .executing) (hfinished : s.list.state ≠ .finished) :
  (s.step node e).child i = s.child i
  := by
  rw [step_child hc, CoreNode.move_none]
  apply NodeView.destState_inactive_none hstate rfl hexecuting hfinished

theorem step_inactive_finished (hstate : (s.child i).state = .inactive)
    (hfinished : s.list.state = .finished) :
  ((s.step node e).child i).state = .finished
  := by
  have hdest : destState (s.childView node e i c) = some .skipped :=
    NodeView.destState_inactive_finished hstate (congrArg some hfinished)
  rw [step_child hc, CoreNode.move_some hdest (by decide), NodeStatus.transition_state]
  rfl

theorem step_inactive_executing (hstate : (s.child i).state = .inactive)
    (hexecuting : s.list.state = .executing) :
  (s.ChildrenOut node e ∧ ((s.step node e).child i).state = .finished) ∨
    (¬ s.ChildrenOut node e ∧ ((s.step node e).child i).state = .waiting)
  := by
  have hparent : (s.childView node e i c).parentState = some .executing :=
    congrArg some hexecuting
  rw [step_child hc]
  rcases NodeView.destState_inactive hstate hparent with ⟨hout, hdest⟩ | ⟨hout, hdest⟩
  · left
    rw [CoreNode.move_some hdest (by decide), NodeStatus.transition_state]
    exact ⟨hout, rfl⟩
  · right
    rw [CoreNode.move_some hdest (by decide), NodeStatus.transition_state]
    exact ⟨hout, rfl⟩

theorem step_finished (hstate : (s.child i).state = .finished) (hwaiting : s.list.state ≠ .waiting) :
  (s.step node e).child i = s.child i
  := by
  rw [step_child hc, CoreNode.move_none]
  rw [NodeView.destState_finished hstate rfl, if_neg hwaiting]

theorem step_finished_waiting (hstate : (s.child i).state = .finished)
    (hwaiting : s.list.state = .waiting) :
  ((s.step node e).child i).state = .inactive
  := by
  have hdest : destState (s.childView node e i c) = some { state := .inactive } := by
    rw [NodeView.destState_finished hstate rfl, if_pos hwaiting]
  rw [step_child hc, CoreNode.move_some hdest (by decide), NodeStatus.transition_state]

theorem step_waiting_out (hstate : (s.child i).state = .waiting) (hout : s.ChildrenOut node e) :
  ((s.step node e).child i).state = .finished
  := by
  have hdest : destState (s.childView node e i c) = some .skipped :=
    NodeView.destState_waiting_out hstate hout
  rw [step_child hc, CoreNode.move_some hdest (by decide), NodeStatus.transition_state]
  rfl

/-- What a waiting child does when no ancestor takes it out. -/
theorem step_waiting (hstate : (s.child i).state = .waiting) (hout : ¬ s.ChildrenOut node e) :
  ((s.step node e).child i).state = .waiting ∨
    (((s.step node e).child i).state = .finished ∧
      ((s.childView node e i c).exit.isTrue = true ∨ (s.childView node e i c).skip.isTrue = true)) ∨
    (((s.step node e).child i).state.isRunning = true ∧
      (s.childView node e i c).skip.isTrue = false ∧
      (s.childView node e i c).start.isNotTrue = false)
  := by
  have hout' : ¬ (s.childView node e i c).AncestorOut := hout
  rw [step_child hc]
  rcases c.move_cases (e.blocked (.child i)) (s.childView node e i c) (s.child i) with
    heq | ⟨d, hdest, heq⟩
  · left
    rw [heq, hstate]
  · right
    rw [heq, NodeStatus.transition_state]
    rcases NodeView.destState_waiting hstate hout' hdest with ⟨rfl, hwhy⟩ | ⟨hskip, hstart, hd⟩
    · left
      exact ⟨rfl, hwhy⟩
    · right
      refine ⟨?_, hskip, hstart⟩
      rcases hd with hd | hd <;> rw [hd] <;> rfl

/-- A child starts from WAITING. -/
theorem step_eq_executing (h : ((s.step node e).child i).state = .executing)
    (hidle : (s.child i).state ≠ .executing) :
  (s.child i).state = .waiting
  := by
  rw [step_child hc] at h
  obtain ⟨d, hdest, hd, -⟩ := CoreNode.move_state h hidle
  apply @legalSuccessor_executing c.nodeType
  rw [← hd]
  apply destState_legal hdest

/-- A running child repeats only when no ancestor takes it out. -/
theorem step_running (hstate : (s.child i).state.isRunning = true) :
  ((s.step node e).child i).state.isRunning = true ∨
    ((s.step node e).child i).state = .finished ∨
    (((s.step node e).child i).state = .waiting ∧ (s.child i).state = .iterationEnded ∧
      ¬ s.ChildrenOut node e ∧ (s.childView node e i c).repeat.isTrue = true)
  := by
  rw [step_child hc]
  rcases c.move_cases (e.blocked (.child i)) (s.childView node e i c) (s.child i) with
    heq | ⟨d, hdest, heq⟩
  · left
    rw [heq, hstate]
  · rw [heq, NodeStatus.transition_state]
    rcases legalSuccessor_isRunning (destState_legal hdest) hstate with hd | hd | hd
    · left
      exact hd
    · right
      left
      exact hd
    · right
      right
      have hinactive : (s.childView node e i c).state ≠ .inactive := by
        rintro h
        rw [show (s.child i).state = .inactive from h] at hstate
        contradiction
      exact ⟨hd, NodeView.destState_repeats hdest hd hinactive⟩

/-- A child becomes inactive when the list node is waiting. -/
theorem step_eq_inactive (h : ((s.step node e).child i).state = .inactive) :
  (s.child i).state = .inactive ∨ ((s.child i).state = .finished ∧ s.list.state = .waiting)
  := by
  by_cases hinactive : (s.child i).state = .inactive
  · left
    exact hinactive
  · right
    rw [step_child hc] at h
    obtain ⟨d, hdest, hd, -⟩ := CoreNode.move_state h hinactive
    have hlegal : legalSuccessor c.nodeType (s.child i).state d.state = true :=
      destState_legal hdest
    rw [hd] at hlegal
    have hfinished : (s.child i).state = .finished := by
      revert hlegal
      cases c.nodeType <;> cases (s.child i).state <;> simp [legalSuccessor]
    use hfinished
    rw [NodeView.destState_finished hfinished rfl] at hdest
    split at hdest
    · assumption
    · contradiction

theorem step_ne_noNodeState (h : (s.child i).state ≠ .noNodeState) :
  ((s.step node e).child i).state ≠ .noNodeState
  := by
  intro h'
  rw [step_child hc] at h'
  obtain ⟨d, hdest, hd, -⟩ := CoreNode.move_state h' h
  have hlegal : legalSuccessor c.nodeType (s.child i).state d.state = true :=
    destState_legal hdest
  rw [hd] at hlegal
  revert hlegal
  cases c.nodeType <;> cases (s.child i).state <;> simp [legalSuccessor]

/-- A child which is waiting after a batch was not taken out. -/
theorem step_eq_waiting (h : ((s.step node e).child i).state = .waiting) :
  (s.child i).state = .inactive ∨
    (¬ s.ChildrenOut node e ∧
      ((s.child i).state = .waiting ∨
        ((s.child i).state = .iterationEnded ∧ (s.childView node e i c).repeat.isTrue = true)))
  := by
  by_cases hinactive : (s.child i).state = .inactive
  · left
    exact hinactive
  · right
    by_cases hwaiting : (s.child i).state = .waiting
    · refine ⟨fun hout => ?_, .inl hwaiting⟩
      rw [step_waiting_out hc hwaiting hout] at h
      contradiction
    · rw [step_child hc] at h
      obtain ⟨d, hdest, hd, -⟩ := CoreNode.move_state h hwaiting
      obtain ⟨hended, hout, hrepeat⟩ := NodeView.destState_repeats hdest hd hinactive
      exact ⟨hout, .inr ⟨hended, hrepeat⟩⟩

end

/-! ### The list node -/

theorem combine_or_isTrue (own ancestor : Condition) :
  (own.combine kleeneOr ancestor).isTrue = true ↔ own.isTrue = true ∨ ancestor.isTrue = true
  := by
  unfold Condition.combine Condition.isTrue
  rcases own with - | own <;> rcases ancestor with - | ancestor <;> simp [kleeneOr_eq_true]

theorem combine_and_isFalse (own ancestor : Condition) :
  (own.combine kleeneAnd ancestor).isFalse = true ↔
    own.isFalse = true ∨ ancestor.isFalse = true
  := by
  unfold Condition.combine Condition.isFalse
  rcases own with - | own <;> rcases ancestor with - | ancestor <;> simp [kleeneAnd_eq_false]

/-- The children are taken out by the conditions of the list node and of its ancestors. -/
theorem childrenOut_iff :
  s.ChildrenOut node e ↔
    (s.listView node e).ancestorExit.isTrue = true ∨ (s.listView node e).exit.isTrue = true ∨
    (s.listView node e).ancestorInvariant.isFalse = true ∨
    (s.listView node e).invariant.isFalse = true ∨
    (s.listView node e).ancestorEnd.isTrue = true ∨
    (node.value (s.listValuation node e) .end).isTrue = true
  := by
  unfold ChildrenOut childAncestors CoreNode.childAncestors
  dsimp only
  rw [combine_or_isTrue, combine_and_isFalse, combine_or_isTrue]
  dsimp only [listView, CoreNode.view]
  tauto

theorem step_list (node : CoreNode) (e : Surroundings) (s : Family) :
  (s.step node e).list = s.list ∨
    ∃ d, destState (s.listView node e) = some d ∧ (s.step node e).list = s.list.transition d
  := node.move_cases (e.blocked .list) (s.listView node e) s.list

section

variable (hlist : node.nodeType = .nodeList)

include hlist

/-- The list node stops executing its body when its conditions take out the children, or
when they are finished. -/
theorem step_list_executing (hexecuting : s.list.state = .executing) :
  (s.step node e).list.state = .executing ∨
    ((s.step node e).list.state.isClosing = true ∧
      (s.ChildrenOut node e ∨ s.allFinished node = true))
  := by
  rcases s.step_list node e with heq | ⟨d, hdest, heq⟩
  · left
    rw [heq, hexecuting]
  · right
    rw [heq, NodeStatus.transition_state]
    have hend : (s.listView node e).end =
        some ((node.value (s.listValuation node e) .end).getD (some (s.allFinished node))) := by
      dsimp only [listView, CoreNode.view, CoreNode.endCondition]
      rw [hlist]
      rfl
    unfold destState getDestStateFromExecuting at hdest
    rw [show (s.listView node e).state = .executing from hexecuting,
      show (s.listView node e).nodeType = .nodeList from hlist] at hdest
    dsimp only at hdest
    unfold ListNode.getDestStateFromExecuting at hdest
    rw [childrenOut_iff]
    rcases Option.or_eq_some_iff.mp hdest with hinterrupted | ⟨-, hended⟩
    · unfold interruption at hinterrupted
      grind [NodeState.isClosing]
    · split at hended
      · contradiction
      · rename_i htrue
        cases hended
        refine ⟨rfl, ?_⟩
        rw [hend] at htrue
        cases hvalue : node.value (s.listValuation node e) .end with
        | none =>
          right
          rw [hvalue] at htrue
          simpa [Condition.isNotTrue, Condition.isTrue] using htrue
        | some value =>
          left
          rw [hvalue] at htrue
          right; right; right; right; right
          simpa [Condition.isNotTrue, Condition.isTrue] using htrue

/-- A list node finishes its iteration when all children are waiting or finished. -/
theorem step_list_closing (hclosing : s.list.state.isClosing = true) :
  (s.step node e).list.state.isClosing = true ∨
    (s.allWaitingOrFinished node = true ∧
      ((s.step node e).list.state = .iterationEnded ∨ (s.step node e).list.state = .finished))
  := by
  rcases s.step_list node e with heq | ⟨d, hdest, heq⟩
  · left
    rw [heq, hclosing]
  · rw [heq, NodeStatus.transition_state]
    have hcomplete : (s.listView node e).actionComplete =
        some (some (s.allWaitingOrFinished node)) := by
      dsimp only [listView, CoreNode.view, CoreNode.actionCompleteCondition]
      rw [hlist]
      rfl
    have htype : (s.listView node e).nodeType = .nodeList := hlist
    have hstate : s.list.state = .finishing ∨ s.list.state = .failing := by
      revert hclosing
      cases s.list.state <;> simp [NodeState.isClosing]
    rcases hstate with hstate | hstate
    · unfold destState getDestStateFromFinishing at hdest
      rw [show (s.listView node e).state = .finishing from hstate, htype] at hdest
      dsimp only at hdest
      unfold ListNode.getDestStateFromFinishing at hdest
      rw [hcomplete] at hdest
      rcases or_interruption_state hdest with hd | hd | hd
      · left
        rw [hd]
        rfl
      · left
        rw [hd]
        rfl
      · right
        split at hd
        · rename_i hall
          cases hd
          rw [iterationEnded_state]
          exact ⟨by simpa [Condition.isTrue] using hall, .inl rfl⟩
        · contradiction
    · unfold destState getDestStateFromFailing at hdest
      rw [show (s.listView node e).state = .failing from hstate, htype] at hdest
      dsimp only at hdest
      unfold ListNode.getDestStateFromFailing at hdest
      rw [hcomplete] at hdest
      right
      split at hdest
      · rename_i hall
        cases hdest
        exact ⟨by simpa [Condition.isTrue] using hall, (failed_state _).symm⟩
      · contradiction

end

/-- A list node at rest starts to execute its body only from WAITING. -/
theorem step_list_rest (hexecuting : s.list.state ≠ .executing)
    (hclosing : s.list.state.isClosing = false) :
  (s.list.state = .waiting ∧ (s.step node e).list.state = .executing) ∨
    ((s.step node e).list.state ≠ .executing ∧
      (s.step node e).list.state.isClosing = false)
  := by
  rcases s.step_list node e with heq | ⟨d, hdest, heq⟩
  · right
    rw [heq]
    exact ⟨hexecuting, hclosing⟩
  · rw [heq, NodeStatus.transition_state]
    have hlegal : legalSuccessor node.nodeType s.list.state d.state = true := destState_legal hdest
    revert hlegal hexecuting hclosing
    cases node.nodeType <;> cases s.list.state <;> cases d.state <;>
      simp [legalSuccessor, NodeState.isClosing]

/-! ### Children at rest -/

/-- The children of a list node which does not execute its body are at rest, and all
children leave INACTIVE together. -/
structure Settled (node : CoreNode) (s : Family) : Prop where
  valid : ∀ i < node.children.length, (s.child i).state ≠ .noNodeState
  rest : s.list.state ≠ .executing → s.list.state.isClosing = false →
    ∀ i < node.children.length, (s.child i).state = .inactive ∨ (s.child i).state = .finished
  start : s.list.state = .executing →
    (∀ i < node.children.length, (s.child i).state = .inactive) ∨
      ∀ i < node.children.length, (s.child i).state ≠ .inactive
  closing : s.list.state.isClosing = true →
    ∀ i < node.children.length, (s.child i).state ≠ .inactive ∧ (s.child i).state ≠ .waiting

/-- No child repeats while the list node is about to finish. -/
def NoLateRepeat (node : CoreNode) (s : Family) (e : Surroundings) : Prop :=
  s.list.state.isClosing = true → ∀ i c, node.children[i]? = some c →
    (s.child i).state = .iterationEnded →
    s.ChildrenOut node e ∨ (s.childView node e i c).repeat.isTrue = false

theorem settled_initial (node : CoreNode) :
  initial.Settled node
  where
  valid _ _ h := by contradiction
  rest _ _ _ _ := .inl rfl
  start h := by contradiction
  closing h := by contradiction

/-- A position of a child has a child. -/
theorem exists_child {i : Nat} (hi : i < node.children.length) :
  ∃ c, node.children[i]? = some c
  := by
  use node.children[i]
  apply List.getElem?_eq_getElem

theorem Settled.step_valid (h : s.Settled node) :
  ∀ i < node.children.length, ((s.step node e).child i).state ≠ .noNodeState
  := by
  intro i hi
  obtain ⟨c, hc⟩ := exists_child hi
  apply step_ne_noNodeState hc (h.valid i hi)

/-- The children of a list node at rest stay at rest; they are inactive when it has been
waiting. -/
theorem Settled.step_child_rest (h : s.Settled node) (hexecuting : s.list.state ≠ .executing)
    (hclosing : s.list.state.isClosing = false) {i : Nat} (hi : i < node.children.length) :
  ((s.step node e).child i).state = .inactive ∨
    (((s.step node e).child i).state = .finished ∧ s.list.state ≠ .waiting)
  := by
  obtain ⟨c, hc⟩ := exists_child hi
  rcases h.rest hexecuting hclosing i hi with hinactive | hfinished
  · by_cases hfinished : s.list.state = .finished
    · right
      rw [hfinished]
      exact ⟨step_inactive_finished hc hinactive hfinished, by decide⟩
    · left
      rw [step_inactive_idle hc hinactive hexecuting hfinished]
      exact hinactive
  · by_cases hwaiting : s.list.state = .waiting
    · left
      apply step_finished_waiting hc hfinished hwaiting
    · right
      rw [step_finished hc hfinished hwaiting]
      exact ⟨hfinished, hwaiting⟩

/-- When a list node starts to execute its body, its children are inactive. -/
theorem Settled.step_started (h : s.Settled node) (hexecuting : s.list.state ≠ .executing)
    (hclosing : s.list.state.isClosing = false)
    (hstarted : (s.step node e).list.state = .executing) :
  ∀ i < node.children.length, ((s.step node e).child i).state = .inactive
  := by
  intro i hi
  rcases @step_list_rest node e s hexecuting hclosing with ⟨hwaiting, -⟩ | ⟨hnot, -⟩
  · rcases @Settled.step_child_rest node e s h hexecuting hclosing i hi with hinactive | ⟨-, hnot⟩
    · exact hinactive
    · contradiction
  · contradiction

theorem Settled.step_rest (h : s.Settled node) (hexecuting : s.list.state ≠ .executing)
    (hclosing : s.list.state.isClosing = false) :
  (s.step node e).Settled node
  := by
  have hlist := @step_list_rest node e s hexecuting hclosing
  use h.step_valid
  · intro _ _ i hi
    exact (h.step_child_rest hexecuting hclosing hi).imp_right And.left
  · intro hstarted
    left
    apply h.step_started hexecuting hclosing hstarted
  · intro hclosing'
    rcases hlist with ⟨-, heq⟩ | ⟨-, hnot⟩
    · rw [heq] at hclosing'
      contradiction
    · rw [hnot] at hclosing'
      contradiction

theorem Settled.step_executing (hlist : node.nodeType = .nodeList) (h : s.Settled node)
    (hexecuting : s.list.state = .executing) :
  (s.step node e).Settled node
  := by
  have hnotWaiting : s.list.state ≠ .waiting := by
    rw [hexecuting]
    decide
  have hnotInactive : ∀ i < node.children.length, ((s.step node e).child i).state ≠ .inactive := by
    intro i hi hinactive'
    obtain ⟨c, hc⟩ := exists_child hi
    rcases step_eq_inactive hc hinactive' with hinactive | ⟨-, hwaiting⟩
    · rcases step_inactive_executing hc hinactive hexecuting with ⟨-, heq⟩ | ⟨-, heq⟩ <;>
        · rw [heq] at hinactive'
          contradiction
    · contradiction
  use h.step_valid
  · intro hne hnot
    rcases step_list_executing hlist hexecuting with heq | ⟨hclosing, -⟩
    · contradiction
    · rw [hclosing] at hnot
      contradiction
  · intro _
    right
    exact hnotInactive
  · intro hclosing i hi
    refine ⟨hnotInactive i hi, fun hwaiting' => ?_⟩
    obtain ⟨c, hc⟩ := exists_child hi
    rcases step_list_executing hlist hexecuting with heq | ⟨-, hout | hall⟩
    · rw [heq] at hclosing
      contradiction
    · rcases step_eq_waiting hc hwaiting' with hinactive | ⟨hnot, -⟩
      · rcases step_inactive_executing hc hinactive hexecuting with ⟨-, heq⟩ | ⟨hnot, -⟩
        · rw [heq] at hwaiting'
          contradiction
        · contradiction
      · contradiction
    · have hfinished : (s.child i).state = .finished := of_decide_eq_true hall i hi
      rw [step_finished hc hfinished hnotWaiting, hfinished] at hwaiting'
      contradiction

theorem Settled.step_closing (hlist : node.nodeType = .nodeList) (h : s.Settled node)
    (hlate : s.NoLateRepeat node e) (hclosing : s.list.state.isClosing = true) :
  (s.step node e).Settled node
  := by
  have hnotWaiting : s.list.state ≠ .waiting := by
    rintro heq
    rw [heq] at hclosing
    contradiction
  have hchild : ∀ i < node.children.length, ((s.step node e).child i).state ≠ .inactive ∧
      ((s.step node e).child i).state ≠ .waiting := by
    intro i hi
    obtain ⟨c, hc⟩ := exists_child hi
    obtain ⟨hinactive, hwaiting⟩ := h.closing hclosing i hi
    constructor
    · intro hinactive'
      rcases step_eq_inactive hc hinactive' with h | ⟨-, h⟩ <;> contradiction
    · intro hwaiting'
      rcases step_eq_waiting hc hwaiting' with h | ⟨hout, h | ⟨hended, hrepeat⟩⟩
      · contradiction
      · contradiction
      · rcases hlate hclosing i c hc hended with h | h
        · contradiction
        · rw [h] at hrepeat
          contradiction
  have hlist' := @step_list_closing node e s hlist hclosing
  use h.step_valid
  · intro _ hnot i hi
    right
    rcases hlist' with hclosing' | ⟨hall, -⟩
    · rw [hclosing'] at hnot
      contradiction
    · obtain ⟨c, hc⟩ := exists_child hi
      have hfinished : (s.child i).state = .finished :=
        (of_decide_eq_true hall i hi).resolve_left (h.closing hclosing i hi).2
      rw [step_finished hc hfinished hnotWaiting]
      exact hfinished
  · intro _
    right
    intro i hi
    exact (hchild i hi).1
  · intro _
    exact hchild

/-- A batch in which no child repeats late keeps the children settled. -/
theorem Settled.step (hlist : node.nodeType = .nodeList) (h : s.Settled node)
    (hlate : s.NoLateRepeat node e) :
  (s.step node e).Settled node
  := by
  by_cases hexecuting : s.list.state = .executing
  · apply h.step_executing hlist hexecuting
  · cases hclosing : s.list.state.isClosing with
    | true => apply h.step_closing hlist hlate hclosing
    | false => apply h.step_rest hexecuting hclosing

end Family

end Epx

end Plexil

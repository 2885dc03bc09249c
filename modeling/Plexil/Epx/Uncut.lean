import Plexil.Epx.FamilySpec

/-!
# Runs which are not cut short

When neither an ancestor nor the list node's own exit or invariant condition interferes, the
list node executes until its end condition is true, waits for its children, and ends the
iteration with the outcome which its post condition gives.
-/

namespace Plexil

theorem interruption_none {outer inner : NodeState} {v : NodeView}
    (hancestorExit : v.ancestorExit.isTrue = false) (hexit : v.exit.isTrue = false)
    (hancestorInvariant : v.ancestorInvariant.isFalse = false)
    (hinvariant : v.invariant.isFalse = false) :
  interruption outer inner v = none
  := by
  unfold interruption
  rw [hancestorExit, hexit, hancestorInvariant, hinvariant]
  rfl

namespace Epx

namespace CoreNode

variable {node : CoreNode} {blocked : Bool} {v : NodeView} {x : NodeStatus}

/-- A transition under a test, to a state other than EXECUTING. -/
theorem move_if {p : Prop} [Decidable p] {d : Dest}
    (hdest : destState v = if p then some d else none) (hstate : d.state ≠ .executing) :
  node.move blocked v x = if p then x.transition d else x
  := by
  split at hdest
  · rename_i hp
    rw [if_pos hp, move_some hdest hstate]
  · rename_i hp
    rw [if_neg hp, move_none hdest]

end CoreNode

namespace Family

variable {node : CoreNode} {e : Surroundings} {s : Family}

/-- Neither an ancestor nor the list node's exit or invariant condition interferes. -/
structure NotCutShort (node : CoreNode) (s : Family) (e : Surroundings) : Prop where
  ancestorExit : e.ancestor.exit.isTrue = false
  ancestorInvariant : e.ancestor.invariant.isFalse = false
  ancestorEnd : e.ancestor.end.isTrue = false
  exit : (s.listView node e).exit.isTrue = false
  invariant : (s.listView node e).invariant.isFalse = false

/-- The end condition of the plan is true. -/
def Ends (node : CoreNode) (s : Family) (e : Surroundings) : Prop :=
  (node.value (s.listValuation node e) .end).isTrue = true

theorem NotCutShort.childrenOut (h : s.NotCutShort node e) :
  s.ChildrenOut node e ↔ s.Ends node e
  := by
  rw [childrenOut_iff]
  change (e.ancestor.exit.isTrue = true ∨ _ ∨ e.ancestor.invariant.isFalse = true ∨ _ ∨
    e.ancestor.end.isTrue = true ∨ s.Ends node e) ↔ _
  rw [h.ancestorExit, h.exit, h.ancestorInvariant, h.invariant, h.ancestorEnd]
  simp

theorem NotCutShort.interruption (h : s.NotCutShort node e) (outer inner : NodeState) :
  interruption outer inner (s.listView node e) = none
  := interruption_none h.ancestorExit h.exit h.ancestorInvariant h.invariant

section

variable (hlist : node.nodeType = .nodeList) (hcut : s.NotCutShort node e)

include hlist hcut

theorem step_list_executing_uncut (hexecuting : s.list.state = .executing) :
  (s.step node e).list =
    if (s.listView node e).end.isNotTrue = false then s.list.transition { state := .finishing }
    else s.list
  := by
  apply CoreNode.move_if _ (by decide)
  unfold destState getDestStateFromExecuting
  rw [show (s.listView node e).state = .executing from hexecuting,
    show (s.listView node e).nodeType = .nodeList from hlist]
  dsimp only
  unfold ListNode.getDestStateFromExecuting
  rw [hcut.interruption, Option.none_or]
  cases (s.listView node e).end.isNotTrue <;> rfl

theorem step_list_finishing_uncut (hfinishing : s.list.state = .finishing) :
  (s.step node e).list =
    if s.allWaitingOrFinished node = true then
      s.list.transition (iterationEnded (s.listView node e))
    else s.list
  := by
  apply CoreNode.move_if
  · have hcomplete : (s.listView node e).actionComplete.isTrue =
        s.allWaitingOrFinished node := by
      dsimp only [listView, CoreNode.view, CoreNode.actionCompleteCondition]
      rw [hlist]
      cases hall : s.allWaitingOrFinished node <;>
        simp [listBody, hall, Condition.isTrue]
    unfold destState getDestStateFromFinishing
    rw [show (s.listView node e).state = .finishing from hfinishing,
      show (s.listView node e).nodeType = .nodeList from hlist]
    dsimp only
    unfold ListNode.getDestStateFromFinishing
    rw [hcut.interruption, Option.none_or, hcomplete]
  · rw [iterationEnded_state]
    decide

omit hcut in
/-- A list node whose plan has no end condition ends when its children are finished. -/
theorem end_isNotTrue :
  (s.listView node e).end.isNotTrue = false ↔
    s.Ends node e ∨ (node.condition .end = none ∧ s.allFinished node = true)
  := by
  have hend : (s.listView node e).end =
      some ((node.value (s.listValuation node e) .end).getD (some (s.allFinished node))) := by
    dsimp only [listView, CoreNode.view, CoreNode.endCondition]
    rw [hlist]
    rfl
  rw [hend, Condition.isNotTrue_some]
  unfold Ends CoreNode.value
  cases node.condition .end with
  | none => simp [Condition.isTrue]
  | some c => simp [Condition.isTrue]

end

/-- A list node which ended an iteration looks at its repeat condition. -/
theorem destState_iterationEnded_uncut (hcut : s.NotCutShort node e)
    (hended : s.list.state = .iterationEnded) :
  destState (s.listView node e) =
    if (s.listView node e).repeat = some none then none
    else if (s.listView node e).repeat.isTrue then some { state := .waiting }
    else some { state := .finished }
  := by
  unfold destState getDestStateFromIterationEnded
  rw [show (s.listView node e).state = .iterationEnded from hended,
    show (s.listView node e).ancestorExit.isTrue = false from hcut.ancestorExit,
    show (s.listView node e).ancestorInvariant.isFalse = false from hcut.ancestorInvariant,
    show (s.listView node e).ancestorEnd.isTrue = false from hcut.ancestorEnd]
  rcases (s.listView node e).repeat with - | - | - | - <;> rfl

/-- A list node which ended an iteration repeats or finishes; its outcome stays until it
repeats. -/
theorem step_list_iterationEnded_uncut (hcut : s.NotCutShort node e)
    (hended : s.list.state = .iterationEnded) :
  ((s.step node e).list = s.list ∧ (s.listView node e).repeat = some none) ∨
    ((s.step node e).list.state = .waiting ∧ (s.listView node e).repeat.isTrue = true) ∨
    (s.step node e).list = { s.list with state := .finished }
  := by
  have hdest := destState_iterationEnded_uncut hcut hended
  have hfinished : s.list.transition { state := .finished } = { s.list with state := .finished } := by
    unfold NodeStatus.transition NodeStatus.leave
    rw [hended]
    rfl
  unfold step
  dsimp only
  by_cases hunknown : (s.listView node e).repeat = some none
  · left
    rw [if_pos hunknown] at hdest
    rw [CoreNode.move_none hdest]
    exact ⟨rfl, hunknown⟩
  · rw [if_neg hunknown] at hdest
    cases htrue : (s.listView node e).repeat.isTrue with
    | true =>
      right; left
      rw [htrue, if_pos rfl] at hdest
      rw [CoreNode.move_some hdest (by decide), NodeStatus.transition_state]
      exact ⟨rfl, rfl⟩
    | false =>
      right; right
      rw [htrue, if_neg Bool.false_ne_true] at hdest
      rw [CoreNode.move_some hdest (by decide), hfinished]

/-- With a known repeat condition a list node repeats or finishes at once. -/
theorem step_list_iterationEnded_known (hcut : s.NotCutShort node e)
    (hended : s.list.state = .iterationEnded) {value : Bool}
    (hrepeat : (s.listView node e).repeat = some (some value)) :
  (s.step node e).list.state = if value then .waiting else .finished
  := by
  have hdest := destState_iterationEnded_uncut hcut hended
  rw [hrepeat, if_neg (by simp)] at hdest
  unfold step
  dsimp only
  cases value with
  | true =>
    rw [if_pos (by decide)] at hdest
    rw [CoreNode.move_some hdest (by decide), NodeStatus.transition_state]
    rfl
  | false =>
    rw [if_neg (by decide)] at hdest
    rw [CoreNode.move_some hdest (by decide), NodeStatus.transition_state]
    rfl

/-- A waiting list node without a start condition starts, unless its skip or pre condition keeps
it from starting. -/
theorem step_list_waiting_free (hcut : s.NotCutShort node e) (hwaiting : s.list.state = .waiting)
    (hstart : node.condition .start = none) (hacquires : node.acquiresResources = false)
    (hskip : (s.listView node e).skip.isTrue = false)
    (hpre : (s.listView node e).pre.isNotTrue = false) :
  (s.step node e).list.state = .executing
  := by
  have hnone : (s.listView node e).start = none := by
    dsimp only [listView, CoreNode.view, CoreNode.value]
    rw [hstart]
    rfl
  have hdest : destState (s.listView node e) = some { state := .executing } := by
    unfold destState getDestStateFromWaiting
    rw [show (s.listView node e).state = .waiting from hwaiting,
      show (s.listView node e).ancestorExit.isTrue = false from hcut.ancestorExit,
      show (s.listView node e).exit.isTrue = false from hcut.exit,
      show (s.listView node e).ancestorInvariant.isFalse = false from hcut.ancestorInvariant,
      show (s.listView node e).ancestorEnd.isTrue = false from hcut.ancestorEnd,
      hskip, hnone, hpre]
    rfl
  unfold step CoreNode.move
  dsimp only
  rw [hdest]
  dsimp only
  rw [hacquires, if_neg (by simp), NodeStatus.transition_state]

/-- A list node which ends from WAITING, and is not skipped, fails. -/
theorem outcome_of_waiting (hwaiting : s.list.state = .waiting)
    (hended : (s.step node e).list.state = .iterationEnded ∨
      (s.step node e).list.state = .finished)
    (hskipped : (s.step node e).list.outcome ≠ .skipped) :
  (s.step node e).list.outcome = .failure
  := by
  rcases s.step_list node e with heq | ⟨d, hdest, heq⟩
  · rw [heq, hwaiting] at hended
    rcases hended with h | h <;> contradiction
  · rw [heq, NodeStatus.transition_state] at hended
    rw [heq] at hskipped ⊢
    unfold destState at hdest
    rw [show (s.listView node e).state = .waiting from hwaiting] at hdest
    unfold getDestStateFromWaiting at hdest
    unfold NodeStatus.transition at hskipped ⊢
    grind [Dest.skipped]

/-- The outcome of an iteration stays until the list node repeats. -/
theorem list_of_ended (hcut : s.NotCutShort node e) (hexecuting : s.list.state ≠ .executing)
    (hclosing : s.list.state.isClosing = false) (hwaiting : s.list.state ≠ .waiting)
    (hended : (s.step node e).list.state = .iterationEnded ∨
      (s.step node e).list.state = .finished)
    (hskipped : (s.step node e).list.outcome ≠ .skipped) :
  (s.list.state = .iterationEnded ∨ s.list.state = .finished) ∧
    (s.step node e).list.outcome = s.list.outcome
  := by
  cases hstate : s.list.state
  case iterationEnded =>
    use .inl rfl
    rcases step_list_iterationEnded_uncut hcut hstate with ⟨heq, -⟩ | ⟨heq, -⟩ | heq
    · rw [heq]
    · rw [heq] at hended
      rcases hended with h | h <;> contradiction
    · rw [heq]
  case finished =>
    use .inr rfl
    rcases s.step_list node e with heq | ⟨d, hdest, heq⟩
    · rw [heq]
    · rw [heq, NodeStatus.transition_state] at hended
      unfold destState at hdest
      rw [show (s.listView node e).state = .finished from hstate] at hdest
      unfold getDestStateFromFinished at hdest
      grind
  case inactive =>
    exfalso
    rcases s.step_list node e with heq | ⟨d, hdest, heq⟩
    · rw [heq, hstate] at hended
      rcases hended with h | h <;> contradiction
    · rw [heq, NodeStatus.transition_state] at hended
      rw [heq] at hskipped
      unfold destState at hdest
      rw [show (s.listView node e).state = .inactive from hstate] at hdest
      unfold getDestStateFromInactive at hdest
      unfold NodeStatus.transition at hskipped
      grind [Dest.skipped]
  case noNodeState =>
    exfalso
    rcases s.step_list node e with heq | ⟨d, hdest, -⟩
    · rw [heq, hstate] at hended
      rcases hended with h | h <;> contradiction
    · unfold destState at hdest
      rw [show (s.listView node e).state = .noNodeState from hstate] at hdest
      contradiction
  all_goals
    rw [hstate] at hexecuting hclosing hwaiting
    contradiction

end Family

end Epx

end Plexil

import Plexil.Epx.Iterations

/-!
# Test nodes

A condition which is to be tested once is the post condition of an empty node.  The node passes
when the condition is true at the time it is tested, and its post condition fails otherwise.
-/

namespace Plexil

namespace NodeStatus

/-- The test has been made and the condition was true. -/
def Passed (x : NodeStatus) : Prop :=
  (x.state = .iterationEnded ∨ x.state = .finished) ∧ x.outcome = .success ∧
    x.failureType = .noFailure

/-- The test has been made and the condition was not true. -/
def NotPassed (x : NodeStatus) : Prop :=
  (x.state = .iterationEnded ∨ x.state = .finished) ∧ x.outcome = .failure ∧
    x.failureType = .postConditionFailed

/-- The states of a test node. -/
def Testing (x : NodeStatus) : Prop :=
  x.state = .inactive ∨ x.state = .waiting ∨ x.state = .executing ∨ x.Passed ∨ x.NotPassed ∨
    x = skippedStatus

/-- The test is being made, or has been made. -/
def Ran (x : NodeStatus) : Prop := x.state = .executing ∨ x.Passed ∨ x.NotPassed

variable {x : NodeStatus}

theorem Passed.not_notPassed (h : x.Passed) :
  ¬ x.NotPassed
  := by
  intro h'
  have hfailure := h'.2.1
  rw [h.2.1] at hfailure
  contradiction

theorem postconditionFailed_iff :
  x.postconditionFailed = true ↔ x.failureType = .postConditionFailed
  := by
  unfold postconditionFailed
  apply decide_eq_true_iff

theorem skipped_iff :
  x.skipped = true ↔ x.outcome = .skipped
  := by
  unfold skipped
  apply decide_eq_true_iff

/-- A test has failed exactly when its post condition has. -/
theorem Testing.postconditionFailed (h : x.Testing) (hfresh : x.Fresh) :
  x.postconditionFailed = true ↔ x.NotPassed
  := by
  rw [postconditionFailed_iff]
  constructor
  · intro hfailed
    have hidle : x.state.isIdle ≠ true := by
      intro hidle
      rw [(hfresh hidle).2] at hfailed
      contradiction
    rcases h with h | h | h | h | h | h
    · rw [h] at hidle
      exact absurd rfl hidle
    · rw [h] at hidle
      exact absurd rfl hidle
    · rw [h] at hidle
      exact absurd rfl hidle
    · rw [h.2.2] at hfailed
      contradiction
    · exact h
    · rw [h] at hfailed
      contradiction
  · intro h
    exact h.2.2

theorem Testing.skipped (h : x.Testing) (hfresh : x.Fresh) :
  x.skipped = true ↔ x = skippedStatus
  := by
  rw [skipped_iff]
  constructor
  · intro hskipped
    have hidle : x.state.isIdle ≠ true := by
      intro hidle
      rw [(hfresh hidle).1] at hskipped
      contradiction
    rcases h with h | h | h | h | h | h
    · rw [h] at hidle
      exact absurd rfl hidle
    · rw [h] at hidle
      exact absurd rfl hidle
    · rw [h] at hidle
      exact absurd rfl hidle
    · rw [h.2.1] at hskipped
      contradiction
    · rw [h.2.1] at hskipped
      contradiction
    · exact h
  · intro h
    rw [h]
    rfl

/-- A test has succeeded when it has passed and is finished. -/
theorem Testing.succeeded (h : x.Testing) :
  x.succeeded = true ↔ x.Passed ∧ x.state = .finished
  := by
  unfold NodeStatus.succeeded
  rw [decide_eq_true_iff]
  constructor
  · rintro ⟨hfinished, hsuccess⟩
    refine ⟨?_, hfinished⟩
    rcases h with h | h | h | h | h | h
    · rw [h] at hfinished
      contradiction
    · rw [h] at hfinished
      contradiction
    · rw [h] at hfinished
      contradiction
    · exact h
    · rw [h.2.1] at hsuccess
      contradiction
    · rw [h] at hsuccess
      contradiction
  · rintro ⟨hpassed, hfinished⟩
    exact ⟨hfinished, hpassed.2.1⟩

end NodeStatus

namespace Epx

/-- An empty node with no conditions but start, skip and post conditions. -/
structure CoreNode.IsTest (c : CoreNode) : Prop where
  empty : c.nodeType = .empty
  mutex : c.usingMutex = false
  pre : c.condition .pre = none
  exit : c.condition .exit = none
  invariant : c.condition .invariant = none
  «end» : c.condition .end = none
  «repeat» : c.condition .repeat = none

namespace Family

variable {node c : CoreNode} {e : Surroundings} {s : Family} {i : Nat}

section

variable (hc : node.children[i]? = some c) (htest : c.IsTest) (hout : ¬ s.ChildrenOut node e)

include hc htest

omit hc in
theorem view_exit :
  (s.childView node e i c).exit = none
  := by
  dsimp only [childView, CoreNode.view, CoreNode.value]
  rw [htest.exit]
  rfl

theorem move_test {d : Dest} (hdest : destState (s.childView node e i c) = some d) :
  (s.step node e).child i = (s.child i).transition d
  := by
  have hacquires : c.acquiresResources = false := by
    unfold CoreNode.acquiresResources
    rw [htest.empty, htest.mutex]
    rfl
  rw [step_child hc]
  unfold CoreNode.move
  rw [hdest]
  dsimp only
  rw [hacquires]
  simp

include hout

/-- A waiting test node is skipped, waits, or starts. -/
theorem step_test_waiting (hwaiting : (s.child i).state = .waiting) :
  (s.step node e).child i =
    if (s.childView node e i c).skip.isTrue = true then (s.child i).transition .skipped
    else if (s.childView node e i c).start.isNotTrue = true then s.child i
    else (s.child i).transition { state := .executing }
  := by
  have hpre : (s.childView node e i c).pre = none := by
    dsimp only [childView, CoreNode.view, CoreNode.value]
    rw [htest.pre]
    rfl
  have hancestors := (ancestorOut_childView i c).not.mpr hout
  unfold NodeView.AncestorOut at hancestors
  rw [not_or, not_or, Bool.not_eq_true, Bool.not_eq_true, Bool.not_eq_true] at hancestors
  have hdest : destState (s.childView node e i c) =
      if (s.childView node e i c).skip.isTrue = true then some .skipped
      else if (s.childView node e i c).start.isNotTrue = true then none
      else some { state := .executing } := by
    unfold destState
    rw [show (s.childView node e i c).state = .waiting from hwaiting]
    unfold getDestStateFromWaiting
    rw [hancestors.1, hancestors.2.1, hancestors.2.2, view_exit htest, hpre]
    rfl
  split
  · rename_i hskip
    rw [if_pos hskip] at hdest
    apply move_test hc htest hdest
  · rename_i hskip
    rw [if_neg hskip] at hdest
    split
    · rename_i hstart
      rw [if_pos hstart] at hdest
      rw [step_child hc, CoreNode.move_none hdest]
    · rename_i hstart
      rw [if_neg hstart] at hdest
      apply move_test hc htest hdest

/-- A test node tests its post condition. -/
theorem step_test_executing (hexecuting : (s.child i).state = .executing) :
  (s.step node e).child i = (s.child i).transition (iterationEnded (s.childView node e i c))
  := by
  have hancestors := (ancestorOut_childView i c).not.mpr hout
  unfold NodeView.AncestorOut at hancestors
  rw [not_or, not_or, Bool.not_eq_true, Bool.not_eq_true, Bool.not_eq_true] at hancestors
  have hinvariant : (s.childView node e i c).invariant.isFalse = false := by
    dsimp only [childView, CoreNode.view, CoreNode.value]
    rw [htest.invariant]
    rfl
  have hexit : (s.childView node e i c).exit.isTrue = false := by
    rw [view_exit htest]
    rfl
  have hend : (s.childView node e i c).end = none := by
    dsimp only [childView, CoreNode.view, CoreNode.value, CoreNode.endCondition]
    rw [htest.empty, htest.end]
    rfl
  apply move_test hc htest
  unfold destState
  rw [show (s.childView node e i c).state = .executing from hexecuting]
  unfold getDestStateFromExecuting
  rw [show (s.childView node e i c).nodeType = .empty from htest.empty]
  dsimp only
  unfold EmptyNode.getDestStateFromExecuting
  rw [interruption_none hancestors.1 hexit hancestors.2.1 hinvariant, hend]
  rfl

/-- A test node does not repeat. -/
theorem step_test_ended (hended : (s.child i).state = .iterationEnded) :
  (s.step node e).child i = (s.child i).transition { state := .finished }
  := by
  have hancestors := (ancestorOut_childView i c).not.mpr hout
  unfold NodeView.AncestorOut at hancestors
  rw [not_or, not_or, Bool.not_eq_true, Bool.not_eq_true, Bool.not_eq_true] at hancestors
  have hrepeat : (s.childView node e i c).repeat = none := by
    dsimp only [childView, CoreNode.view, CoreNode.value]
    rw [htest.repeat]
    rfl
  apply move_test hc htest
  unfold destState
  rw [show (s.childView node e i c).state = .iterationEnded from hended]
  unfold getDestStateFromIterationEnded
  rw [hancestors.1, hancestors.2.1, hancestors.2.2, hrepeat]
  rfl

/-- What a test tells of its condition. -/
theorem step_test_result (hfresh : (s.child i).Fresh) (hexecuting : (s.child i).state = .executing) :
  ((s.step node e).child i).state = .iterationEnded ∧
    ((s.childView node e i c).post.isNotTrue = false → ((s.step node e).child i).Passed) ∧
    ((s.childView node e i c).post.isNotTrue = true → ((s.step node e).child i).NotPassed)
  := by
  have hidle : (s.child i).state.isIdle = true := by
    rw [hexecuting]
    rfl
  have hleave : (s.child i).leave .iterationEnded = s.child i := by
    unfold NodeStatus.leave
    rw [hexecuting]
    rfl
  rw [step_test_executing hc htest hout hexecuting, NodeStatus.transition_state]
  refine ⟨iterationEnded_state _, ?_, ?_⟩
  · intro hpost
    unfold iterationEnded NodeStatus.transition
    rw [hpost, if_neg Bool.false_ne_true, hleave]
    exact ⟨.inl rfl, rfl, (hfresh hidle).2⟩
  · intro hpost
    unfold iterationEnded NodeStatus.transition
    rw [hpost, if_pos rfl]
    exact ⟨.inl rfl, rfl, rfl⟩

/-- A test passes exactly when its condition is true at that time. -/
theorem step_test_iff (hfresh : (s.child i).Fresh) (hexecuting : (s.child i).state = .executing)
    {value : Option Bool} (hpost : (s.childView node e i c).post = some value) :
  ((s.step node e).child i).state = .iterationEnded ∧
    (((s.step node e).child i).Passed ↔ value = some true) ∧
    (((s.step node e).child i).NotPassed ↔ value ≠ some true)
  := by
  obtain ⟨hended, hpassed, hfailed⟩ := step_test_result hc htest hout hfresh hexecuting
  rw [hpost] at hpassed hfailed
  refine ⟨hended, ?_⟩
  by_cases htrue : value = some true
  · have hpasses := hpassed ((Condition.isNotTrue_some _).mpr htrue)
    constructor
    · exact ⟨fun _ => htrue, fun _ => hpasses⟩
    · exact ⟨fun hnot => absurd hnot hpasses.not_notPassed, fun hnot => absurd htrue hnot⟩
  · have hfails := hfailed (by
      rw [← Bool.not_eq_false, Condition.isNotTrue_some]
      exact htrue)
    constructor
    · exact ⟨fun hpass => absurd hfails hpass.not_notPassed, fun heq => absurd heq htrue⟩
    · exact ⟨fun _ => htrue, fun _ => hfails⟩

/-- The result of a test is kept when the test node finishes. -/
theorem step_test_finishes (hended : (s.child i).state = .iterationEnded) :
  (s.step node e).child i = { s.child i with state := .finished }
  := by
  rw [step_test_ended hc htest hout hended]
  unfold NodeStatus.transition NodeStatus.leave
  rw [hended]
  rfl

/-- What a test node does in a batch while the list node runs. -/
inductive TestStep (v : NodeView) (x x' : NodeStatus) : Prop where
  | inactive (h : x.state = .inactive) (h' : x'.state = .inactive ∨ x'.state = .waiting)
  | skips (h : x.state = .waiting) (hskip : v.skip.isTrue = true)
      (h' : x' = NodeStatus.skippedStatus)
  | waits (h : x.state = .waiting) (hskip : v.skip.isTrue = false)
      (hstart : v.start.isNotTrue = true) (h' : x' = x)
  | starts (h : x.state = .waiting) (hskip : v.skip.isTrue = false)
      (hstart : v.start.isNotTrue = false) (h' : x'.state = .executing)
  | passes (h : x.state = .executing) (hpost : v.post.isNotTrue = false)
      (hended : x'.state = .iterationEnded) (h' : x'.Passed)
  | fails (h : x.state = .executing) (hpost : v.post.isNotTrue = true)
      (hended : x'.state = .iterationEnded) (h' : x'.NotPassed)
  | passed (h : x.Passed) (hfinished : x'.state = .finished) (h' : x'.Passed)
  | notPassed (h : x.NotPassed) (hfinished : x'.state = .finished) (h' : x'.NotPassed)
  | skipped (h : x = NodeStatus.skippedStatus) (h' : x' = NodeStatus.skippedStatus)

omit htest hout in
/-- A finished test node stays as it is while the list node runs. -/
theorem step_test_finished (hrunning : s.list.state.isRunning = true)
    (hfinished : (s.child i).state = .finished) :
  (s.step node e).child i = s.child i
  := by
  apply step_finished hc hfinished
  intro heq
  rw [heq] at hrunning
  contradiction

theorem step_test (hrunning : s.list.state.isRunning = true) (hfresh : (s.child i).Fresh)
    (h : (s.child i).Testing) :
  TestStep (s.childView node e i c) (s.child i) ((s.step node e).child i)
  := by
  rcases h with h | h | h | h | h | h
  · apply TestStep.inactive h
    by_cases hexecuting : s.list.state = .executing
    · rcases step_inactive_executing hc h hexecuting with ⟨hout', -⟩ | ⟨-, heq⟩
      · contradiction
      · right
        exact heq
    · left
      rw [step_inactive_idle hc h hexecuting]
      · exact h
      · intro heq
        rw [heq] at hrunning
        contradiction
  · have hstep := step_test_waiting hc htest hout h
    cases hskip : (s.childView node e i c).skip.isTrue with
    | true =>
      rw [hskip, if_pos rfl, hfresh.skip (by rw [h]; rfl)] at hstep
      apply TestStep.skips h hskip hstep
    | false =>
      rw [hskip, if_neg Bool.false_ne_true] at hstep
      cases hstart : (s.childView node e i c).start.isNotTrue with
      | true =>
        rw [hstart, if_pos rfl] at hstep
        apply TestStep.waits h hskip hstart hstep
      | false =>
        rw [hstart, if_neg Bool.false_ne_true] at hstep
        apply TestStep.starts h hskip hstart
        rw [hstep, NodeStatus.transition_state]
  · obtain ⟨hended, hpassed, hfailed⟩ := step_test_result hc htest hout hfresh h
    cases hpost : (s.childView node e i c).post.isNotTrue with
    | false => apply TestStep.passes h hpost hended (hpassed hpost)
    | true => apply TestStep.fails h hpost hended (hfailed hpost)
  · rcases h.1 with hended | hfinished
    · have hstep := step_test_finishes hc htest hout hended
      rw [hstep]
      exact TestStep.passed h rfl ⟨.inr rfl, h.2⟩
    · rw [step_test_finished hc hrunning hfinished]
      apply TestStep.passed h hfinished h
  · rcases h.1 with hended | hfinished
    · have hstep := step_test_finishes hc htest hout hended
      rw [hstep]
      exact TestStep.notPassed h rfl ⟨.inr rfl, h.2⟩
    · rw [step_test_finished hc hrunning hfinished]
      apply TestStep.notPassed h hfinished h
  · apply TestStep.skipped h
    rw [step_test_finished hc hrunning (by rw [h]; rfl)]
    exact h

end

end Family

namespace Family.TestStep

variable {v : NodeView} {x x' : NodeStatus}

theorem testing (h : TestStep v x x') :
  x'.Testing
  := by
  cases h with
  | inactive h h' =>
    rcases h' with h' | h'
    · exact .inl h'
    · exact .inr (.inl h')
  | skips h hskip h' => exact .inr (.inr (.inr (.inr (.inr h'))))
  | waits h hskip hstart h' =>
    rw [h']
    exact .inr (.inl h)
  | starts h hskip hstart h' => exact .inr (.inr (.inl h'))
  | passes h hpost hended h' => exact .inr (.inr (.inr (.inl h')))
  | fails h hpost hended h' => exact .inr (.inr (.inr (.inr (.inl h'))))
  | passed h hfinished h' => exact .inr (.inr (.inr (.inl h')))
  | notPassed h hfinished h' => exact .inr (.inr (.inr (.inr (.inl h'))))
  | skipped h h' => exact .inr (.inr (.inr (.inr (.inr h'))))

/-- A test which has been made is neither idle nor skipped. -/
theorem not_idle {x : NodeStatus} (hstate : x.state = .iterationEnded ∨ x.state = .finished)
    (houtcome : x.outcome ≠ .skipped) :
  x.state ≠ .inactive ∧ x.state ≠ .waiting ∧ x.state ≠ .executing ∧ x ≠ NodeStatus.skippedStatus
  := by
  refine ⟨?_, ?_, ?_, ?_⟩
  · intro heq
    rw [heq] at hstate
    rcases hstate with hstate | hstate <;> contradiction
  · intro heq
    rw [heq] at hstate
    rcases hstate with hstate | hstate <;> contradiction
  · intro heq
    rw [heq] at hstate
    rcases hstate with hstate | hstate <;> contradiction
  · intro heq
    rw [heq] at houtcome
    exact houtcome rfl

theorem not_idle_of_passed {x : NodeStatus} (h : x.Passed) :
  x.state ≠ .inactive ∧ x.state ≠ .waiting ∧ x.state ≠ .executing ∧ x ≠ NodeStatus.skippedStatus
  := by
  apply not_idle h.1
  rw [h.2.1]
  decide

theorem not_idle_of_notPassed {x : NodeStatus} (h : x.NotPassed) :
  x.state ≠ .inactive ∧ x.state ≠ .waiting ∧ x.state ≠ .executing ∧ x ≠ NodeStatus.skippedStatus
  := by
  apply not_idle h.1
  rw [h.2.1]
  decide

theorem not_ran {x : NodeStatus}
    (h : x.state = .inactive ∨ x.state = .waiting ∨ x = NodeStatus.skippedStatus) :
  ¬ x.Ran
  := by
  rintro (hexecuting | hpassed | hfailed)
  · rcases h with h | h | h <;>
      · rw [h] at hexecuting
        contradiction
  · obtain ⟨hinactive, hwaiting, -, hskipped⟩ := not_idle_of_passed hpassed
    rcases h with h | h | h <;> contradiction
  · obtain ⟨hinactive, hwaiting, -, hskipped⟩ := not_idle_of_notPassed hfailed
    rcases h with h | h | h <;> contradiction

/-- A test is made when it has been started. -/
theorem ran (h : TestStep v x x') (hran : x'.Ran) :
  x.Ran ∨ (x.state = .waiting ∧ v.start.isNotTrue = false)
  := by
  cases h with
  | inactive h h' =>
    rcases h' with h' | h'
    · exact absurd hran (not_ran (.inl h'))
    · exact absurd hran (not_ran (.inr (.inl h')))
  | skips h hskip h' => exact absurd hran (not_ran (.inr (.inr h')))
  | waits h hskip hstart h' =>
    rw [h'] at hran
    exact absurd hran (not_ran (.inr (.inl h)))
  | starts h hskip hstart h' => exact .inr ⟨h, hstart⟩
  | passes h hpost hended h' => exact .inl (.inl h)
  | fails h hpost hended h' => exact .inl (.inl h)
  | passed h hfinished h' => exact .inl (.inr (.inl h))
  | notPassed h hfinished h' => exact .inl (.inr (.inr h))
  | skipped h h' => exact absurd hran (not_ran (.inr (.inr h')))

/-- A test which starts is executing. -/
theorem executing_of_ran (h : TestStep v x x') (hwaiting : x.state = .waiting) (hran : x'.Ran) :
  x'.state = .executing
  := by
  cases h with
  | inactive h h' =>
    rw [hwaiting] at h
    contradiction
  | skips h hskip h' => exact absurd hran (not_ran (.inr (.inr h')))
  | waits h hskip hstart h' =>
    rw [h'] at hran
    exact absurd hran (not_ran (.inr (.inl h)))
  | starts h hskip hstart h' => exact h'
  | passes h hpost hended h' =>
    rw [hwaiting] at h
    contradiction
  | fails h hpost hended h' =>
    rw [hwaiting] at h
    contradiction
  | passed h hfinished h' => exact absurd hwaiting (not_idle_of_passed h).2.1
  | notPassed h hfinished h' => exact absurd hwaiting (not_idle_of_notPassed h).2.1
  | skipped h h' => exact absurd hran (not_ran (.inr (.inr h')))

/-- A test node is skipped by its skip condition. -/
theorem skip (h : TestStep v x x') (hskipped : x' = NodeStatus.skippedStatus) :
  x = NodeStatus.skippedStatus ∨ (x.state = .waiting ∧ v.skip.isTrue = true)
  := by
  cases h with
  | inactive h h' =>
    rw [hskipped] at h'
    rcases h' with h' | h' <;> contradiction
  | skips h hskip h' => exact .inr ⟨h, hskip⟩
  | waits h hskip hstart h' =>
    rw [← h', hskipped] at h
    contradiction
  | starts h hskip hstart h' =>
    rw [hskipped] at h'
    contradiction
  | passes h hpost hended h' =>
    rw [hskipped] at hended
    contradiction
  | fails h hpost hended h' =>
    rw [hskipped] at hended
    contradiction
  | passed h hfinished h' => exact absurd hskipped (not_idle_of_passed h').2.2.2
  | notPassed h hfinished h' => exact absurd hskipped (not_idle_of_notPassed h').2.2.2
  | skipped h h' => exact .inl h

/-- A test which has failed stays so. -/
theorem keeps_notPassed (h : TestStep v x x') (hfailed : x.NotPassed) :
  x'.NotPassed
  := by
  obtain ⟨hinactive, hwaiting, hexecuting, hskipped⟩ := not_idle_of_notPassed hfailed
  cases h with
  | inactive h h' => contradiction
  | skips h hskip h' => contradiction
  | waits h hskip hstart h' => contradiction
  | starts h hskip hstart h' => contradiction
  | passes h hpost hended h' => contradiction
  | fails h hpost hended h' => contradiction
  | passed h hfinished h' => exact absurd hfailed h.not_notPassed
  | notPassed h hfinished h' => exact h'
  | skipped h h' => contradiction

/-- A test which has passed stays so. -/
theorem keeps_passed (h : TestStep v x x') (hpassed : x.Passed) :
  x'.Passed
  := by
  obtain ⟨hinactive, hwaiting, hexecuting, hskipped⟩ := not_idle_of_passed hpassed
  cases h with
  | inactive h h' => contradiction
  | skips h hskip h' => contradiction
  | waits h hskip hstart h' => contradiction
  | starts h hskip hstart h' => contradiction
  | passes h hpost hended h' => contradiction
  | fails h hpost hended h' => contradiction
  | passed h hfinished h' => exact h'
  | notPassed h hfinished h' => exact absurd h hpassed.not_notPassed
  | skipped h h' => contradiction

/-- A test which is made, or has been made, stays so. -/
theorem keeps_ran (h : TestStep v x x') (hran : x.Ran) :
  x'.Ran
  := by
  rcases hran with hexecuting | hpassed | hfailed
  · cases h with
    | passes h hpost hended h' => exact .inr (.inl h')
    | fails h hpost hended h' => exact .inr (.inr h')
    | passed h hfinished h' => exact .inr (.inl h')
    | notPassed h hfinished h' => exact .inr (.inr h')
    | inactive h | skips h | waits h | starts h | skipped h =>
      rw [h] at hexecuting
      contradiction
  · exact .inr (.inl (h.keeps_passed hpassed))
  · exact .inr (.inr (h.keeps_notPassed hfailed))

/-- A test which has been made is finished after the batch. -/
theorem finishes (h : TestStep v x x') (hmade : x.Passed ∨ x.NotPassed) :
  x'.state = .finished
  := by
  have hidle : x.state ≠ .inactive ∧ x.state ≠ .waiting ∧ x.state ≠ .executing ∧
      x ≠ NodeStatus.skippedStatus := by
    rcases hmade with hmade | hmade
    · apply not_idle_of_passed hmade
    · apply not_idle_of_notPassed hmade
  obtain ⟨hinactive, hwaiting, hexecuting, hskipped⟩ := hidle
  cases h with
  | inactive h h' => contradiction
  | skips h hskip h' => contradiction
  | waits h hskip hstart h' => contradiction
  | starts h hskip hstart h' => contradiction
  | passes h hpost hended h' => contradiction
  | fails h hpost hended h' => contradiction
  | passed h hfinished h' => exact hfinished
  | notPassed h hfinished h' => exact hfinished
  | skipped h h' => contradiction

end Family.TestStep

end Epx

end Plexil

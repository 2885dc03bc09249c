import Plexil.Epx.Loops
import Plexil.Epx.TestNodes

/-!
# The iterations of a While

In an iteration the test node starts first.  The action starts only after the test has passed,
and it is skipped when the test has not passed.  So the log of a complete iteration is that of
one test, followed by the starts of the action, which may have a repeat condition of its own.
-/

namespace Plexil.Epx

open Family

namespace WhileElement

variable {t : WhileElement}

/-! ### The node which repeats -/

theorem loop_eq (t : WhileElement) :
  ∃ nodeId conditions, t.loop = t.whileBody1 nodeId false conditions ∧
    conditions.lookup .start = none ∧ conditions.lookup .repeat = none
  := by
  unfold loop
  cases hwrapped : t.isWrapped with
  | true => exact ⟨_, [], rfl, rfl, rfl⟩
  | false =>
    rw [if_neg Bool.false_ne_true]
    unfold isWrapped at hwrapped
    rw [Bool.or_eq_false_iff, Bool.or_eq_false_iff, List.any_eq_false] at hwrapped
    obtain ⟨⟨-, hmutex⟩, hconditions⟩ := hwrapped
    rw [hmutex]
    refine ⟨_, _, rfl, ?_, ?_⟩
    · rw [List.lookup_eq_none_iff]
      intro element helement
      have hnot := hconditions element helement
      rw [Bool.or_eq_true, not_or, decide_eq_true_iff, decide_eq_true_iff] at hnot
      simpa using Ne.symm hnot.2
    · rw [List.lookup_eq_none_iff]
      intro element helement
      have hnot := hconditions element helement
      rw [Bool.or_eq_true, not_or, decide_eq_true_iff, decide_eq_true_iff] at hnot
      simpa using Ne.symm hnot.1

/-- The test node. -/
def test (t : WhileElement) : CoreNode :=
  conditionNode (generatedId "WhileTest") [] (.user t.condition)

theorem isTest_test (t : WhileElement) :
  t.test.IsTest
  := ⟨rfl, rfl, rfl, rfl, rfl, rfl, rfl⟩

theorem loop_children (t : WhileElement) :
  t.loop.children = [t.test, t.whileBody2]
  := by
  obtain ⟨nodeId, conditions, heq, -⟩ := t.loop_eq
  rw [heq]
  rfl

theorem child_test (t : WhileElement) :
  t.loop.children[0]? = some t.test
  := by
  rw [t.loop_children]
  rfl

theorem child_action (t : WhileElement) :
  t.loop.children[1]? = some t.whileBody2
  := by
  rw [t.loop_children]
  rfl

theorem length_children (t : WhileElement) :
  t.loop.children.length = 2
  := by
  rw [t.loop_children]
  rfl

theorem loop_nodeType (t : WhileElement) :
  t.loop.nodeType = .nodeList
  := by
  obtain ⟨nodeId, conditions, heq, -⟩ := t.loop_eq
  rw [heq]
  rfl

theorem loop_acquiresResources (t : WhileElement) :
  t.loop.acquiresResources = false
  := by
  obtain ⟨nodeId, conditions, heq, -⟩ := t.loop_eq
  rw [heq]
  rfl

theorem loop_start (t : WhileElement) :
  t.loop.condition .start = none
  := by
  obtain ⟨nodeId, conditions, heq, hstart, -⟩ := t.loop_eq
  rw [heq]
  unfold whileBody1 CoreNode.condition
  dsimp only
  rw [List.lookup_append, hstart]
  rfl

theorem loop_repeat (t : WhileElement) :
  t.loop.condition .repeat = some (.succeeded (.child (generatedId "WhileTest")))
  := by
  obtain ⟨nodeId, conditions, heq, -, hrepeat⟩ := t.loop_eq
  rw [heq]
  unfold whileBody1 CoreNode.condition
  dsimp only
  rw [List.lookup_append, hrepeat]
  rfl

theorem nodeId_whileBody2 (t : WhileElement) :
  t.whileBody2.nodeId ≠ generatedId "WhileTest"
  := by
  unfold whileBody2 ifClauseBody
  split
  · change generatedId "WhileAction" ≠ _
    decide
  · exact t.distinct

theorem nodeIds_loop (t : WhileElement) :
  (t.loop.children.map CoreNode.nodeId).Nodup
  := by
  rw [t.loop_children, List.map_cons, List.map_cons, List.map_nil, List.nodup_cons,
    List.mem_singleton]
  exact ⟨Ne.symm t.nodeId_whileBody2, List.nodup_singleton _⟩

section

variable (t) (s : Family) (e : Surroundings)

/-- What the generated conditions say of the test node. -/
theorem find_test :
  s.find t.loop (generatedId "WhileTest") = some (s.child 0)
  := find_nodeId t.nodeIds_loop s t.child_test

theorem repeat_eq :
  (s.listView t.loop e).repeat = some (some (s.child 0).succeeded)
  := by
  dsimp only [listView, CoreNode.view, CoreNode.value]
  rw [t.loop_repeat, Option.map_some, CoreExpr.eval]
  dsimp only [listValuation]
  rw [t.find_test]
  rfl

theorem action_start :
  (s.childView t.loop e 1 t.whileBody2).start.isNotTrue = false ↔
    (s.child 0).succeeded = true
  := by
  obtain ⟨hstart, -⟩ := condition_ifClauseBody "WhileAction"
    (.succeeded (.sibling (generatedId "WhileTest")))
    (.postconditionFailed (.sibling (generatedId "WhileTest"))) t.body.node
  dsimp only [childView, CoreNode.view, CoreNode.value]
  unfold whileBody2
  rw [hstart, Option.map_some, Condition.isNotTrue_some, CoreExpr.eval]
  dsimp only [childValuation]
  rw [t.find_test, Option.map_some, Option.some_inj]

theorem action_skip :
  (s.childView t.loop e 1 t.whileBody2).skip.isTrue = true ↔
    (s.child 0).postconditionFailed = true
  := by
  obtain ⟨-, hskip⟩ := condition_ifClauseBody "WhileAction"
    (.succeeded (.sibling (generatedId "WhileTest")))
    (.postconditionFailed (.sibling (generatedId "WhileTest"))) t.body.node
  dsimp only [childView, CoreNode.view, CoreNode.value]
  unfold whileBody2
  rw [hskip, Option.map_some, Condition.isTrue_some, CoreExpr.eval]
  dsimp only [childValuation]
  rw [t.find_test, Option.map_some, Option.some_inj]

end

/-! ### The log of an iteration -/

/-- The invariant of the runs of the node which repeats. -/
structure Looping (t : WhileElement) (l : Logged) : Prop extends l.Orderly t.loop where
  testing : l.family.list.state.isRunning = true →
    (l.family.child 0).Testing ∧ l.family.child 0 ≠ NodeStatus.skippedStatus
  ran : l.family.list.state.isRunning = true → (l.family.child 0).Ran →
    ∃ n, l.started = 0 :: List.replicate n 1
  notRan : l.family.list.state.isRunning = true → ¬ (l.family.child 0).Ran → l.started = []
  action : l.family.list.state.isRunning = true → 1 ∈ l.started → (l.family.child 0).Passed

variable {l : Logged} {e : Surroundings}

theorem looping_initial (t : WhileElement) :
  t.Looping .initial
  where
  toOrderly := Logged.orderly_initial t.loop
  testing h := by contradiction
  ran h := by contradiction
  notRan h := by contradiction
  action h := by contradiction

/-- When the node starts to execute, the test node is inactive. -/
theorem Looping.inactive_of_started (h : t.Looping l)
    (hidle : l.family.list.state.isRunning = false)
    (hrunning : (l.step t.loop e).family.list.state.isRunning = true) :
  ((l.family.step t.loop e).child 0).state = .inactive
  := by
  have hwaiting := Logged.waiting_of_running hidle hrunning
  have hzero : 0 < t.loop.children.length := by
    rw [t.length_children]
    decide
  apply (h.step_child_rest _ _ hzero).resolve_right
  · intro hfinished
    apply hfinished.2 hwaiting
  · rw [hwaiting]
    decide
  · rw [hwaiting]
    rfl

/-- The action starts after the test has passed. -/
theorem succeeded_of_starts (h : 1 ∈ l.family.starts t.loop e) :
  (l.family.child 0).succeeded = true
  := by
  obtain ⟨-, c, hc, -, hstart⟩ := starts_conditions h
  rw [t.child_action] at hc
  cases hc
  apply (t.action_start l.family e).mp hstart

/-- In a batch the test node starts, or the action, or none of them. -/
theorem starts_cases (t : WhileElement) (l : Logged) (e : Surroundings) :
  (l.family.starts t.loop e = [0] ∧ (l.family.child 0).state = .waiting ∧
      ((l.family.step t.loop e).child 0).state.isRunning = true) ∨
    (l.family.starts t.loop e = [1] ∧ (l.family.child 0).succeeded = true) ∨
    (l.family.starts t.loop e = [] ∧ ¬ ((l.family.child 0).state = .waiting ∧
      ((l.family.step t.loop e).child 0).state.isRunning = true))
  := by
  have hstarts : l.family.starts t.loop e =
      (if 0 ∈ l.family.starts t.loop e then [0] else []) ++
        (if 1 ∈ l.family.starts t.loop e then [1] else []) := starts_pair t.length_children
  by_cases hzero : 0 ∈ l.family.starts t.loop e
  · left
    obtain ⟨-, hwaiting, hruns⟩ := mem_starts.mp hzero
    have hone : 1 ∉ l.family.starts t.loop e := by
      intro hone
      have hsucceeded := succeeded_of_starts hone
      unfold NodeStatus.succeeded at hsucceeded
      rw [decide_eq_true_iff, hwaiting] at hsucceeded
      exact absurd hsucceeded.1 (by decide)
    rw [if_pos hzero, if_neg hone] at hstarts
    exact ⟨hstarts, hwaiting, hruns⟩
  · right
    rw [if_neg hzero] at hstarts
    by_cases hone : 1 ∈ l.family.starts t.loop e
    · left
      rw [if_pos hone] at hstarts
      exact ⟨hstarts, succeeded_of_starts hone⟩
    · right
      rw [if_neg hone] at hstarts
      refine ⟨hstarts, fun hstart => hzero ?_⟩
      rw [mem_starts, t.length_children]
      exact ⟨by decide, hstart⟩

section

variable (hend : t.loop.condition .end = none)
variable (h : t.Looping l) (hcut : l.family.NotCutShort t.loop e)

include hend h hcut

/-- What the test does in a batch. -/
theorem Looping.test_step (hrunning : l.family.list.state.isRunning = true) :
  TestStep (l.family.childView t.loop e 0 t.test) (l.family.child 0)
    ((l.family.step t.loop e).child 0)
  := by
  apply step_test t.child_test t.isTest_test _ hrunning (h.fresh 0) (h.testing hrunning).1
  apply Logged.not_childrenOut hend hcut

theorem Looping.log_step (hrunning : l.family.list.state.isRunning = true) :
  (((l.family.step t.loop e).child 0).Ran →
      ∃ n, (l.step t.loop e).started = 0 :: List.replicate n 1) ∧
    (¬ ((l.family.step t.loop e).child 0).Ran → (l.step t.loop e).started = [])
  := by
  have htest := h.test_step hend hcut hrunning
  have hstarted : (l.step t.loop e).started = l.started ++ l.family.starts t.loop e := by
    unfold Logged.step
    dsimp only
    rw [if_pos hrunning]
  rw [hstarted]
  rcases t.starts_cases l e with ⟨hzero, hwaiting, hruns⟩ | ⟨hone, hsucceeded⟩ | ⟨hnone, hnot⟩
  · have hempty := h.notRan hrunning (TestStep.not_ran (.inr (.inl hwaiting)))
    rw [hzero, hempty]
    refine ⟨fun _ => ⟨0, rfl⟩, fun hran => absurd ?_ hran⟩
    rcases htest.testing with hstate | hstate | hran | hran | hran | hstate
    · rw [hstate] at hruns
      contradiction
    · rw [hstate] at hruns
      contradiction
    · exact .inl hran
    · exact .inr (.inl hran)
    · exact .inr (.inr hran)
    · rw [hstate] at hruns
      contradiction
  · have hpassed := ((h.testing hrunning).1.succeeded.mp hsucceeded).1
    obtain ⟨n, hn⟩ := h.ran hrunning (.inr (.inl hpassed))
    refine ⟨fun _ => ⟨n + 1, ?_⟩, fun hran => absurd (.inr (.inl (htest.keeps_passed hpassed))) hran⟩
    rw [hone, hn, List.replicate_succ', List.cons_append]
  · rw [hnone, List.append_nil]
    constructor
    · intro hran
      apply h.ran hrunning
      rcases htest.ran hran with hran' | ⟨hwaiting, -⟩
      · exact hran'
      · exfalso
        apply hnot
        use hwaiting
        rw [htest.executing_of_ran hwaiting hran]
        rfl
    · intro hran
      apply h.notRan hrunning
      intro hran'
      apply hran
      apply htest.keeps_ran hran'

theorem Looping.step :
  t.Looping (l.step t.loop e)
  where
  toOrderly := h.toOrderly.step t.loop_nodeType hend hcut
  testing hrunning' := by
    cases hrunning : l.family.list.state.isRunning with
    | true =>
      have htest := h.test_step hend hcut hrunning
      refine ⟨htest.testing, fun hskipped => ?_⟩
      rcases htest.skip hskipped with hskipped | ⟨-, hskip⟩
      · apply (h.testing hrunning).2 hskipped
      · contradiction
    | false =>
      have hinactive := h.inactive_of_started hrunning hrunning'
      refine ⟨.inl hinactive, fun hskipped => ?_⟩
      change (l.family.step t.loop e).child 0 = _ at hskipped
      rw [hskipped] at hinactive
      contradiction
  ran hrunning' hran := by
    cases hrunning : l.family.list.state.isRunning with
    | true => apply (h.log_step hend hcut hrunning).1 hran
    | false =>
      exact absurd hran (TestStep.not_ran (.inl (h.inactive_of_started hrunning hrunning')))
  notRan hrunning' hran := by
    cases hrunning : l.family.list.state.isRunning with
    | true => apply (h.log_step hend hcut hrunning).2 hran
    | false => apply Logged.step_started_of_idle hrunning
  action hrunning' hmem := by
    cases hrunning : l.family.list.state.isRunning with
    | true =>
      apply (h.test_step hend hcut hrunning).keeps_passed
      rcases (Logged.mem_step_started hrunning).mp hmem with hmem | hmem
      · apply h.action hrunning hmem
      · exact ((h.testing hrunning).1.succeeded.mp (succeeded_of_starts hmem)).1
    | false =>
      rw [Logged.step_started_of_idle hrunning] at hmem
      contradiction

end

end WhileElement

end Plexil.Epx

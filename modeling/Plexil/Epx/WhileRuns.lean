import Plexil.Epx.WhileLoops

/-!
# A While is carried out as it is written

The condition is tested once in an iteration, before the action; the action is carried out when
the test has passed and is skipped otherwise; and there is another iteration exactly when the
last test has passed.
-/

namespace Plexil.Epx

open StateMachine (Always Meets)
open Family

namespace WhileElement

section

variable (t : WhileElement) (s : Family) (e : Surroundings)

/-- The test node passes exactly when the condition is true in the batch in which it is tested,
and the result is kept during the iteration. -/
def TestsCondition : Prop :=
  ((s.child 0).state = .executing →
    ((s.step t.loop e).child 0).state = .iterationEnded ∧
    (((s.step t.loop e).child 0).Passed ↔ (e.base (.child 0)).user t.condition = some true) ∧
    (((s.step t.loop e).child 0).NotPassed ↔ (e.base (.child 0)).user t.condition ≠ some true)) ∧
  (s.list.state.isRunning = true →
    ((s.child 0).Passed → ((s.step t.loop e).child 0).Passed) ∧
    ((s.child 0).NotPassed → ((s.step t.loop e).child 0).NotPassed))

/-- A waiting action starts after the test has passed, unless resources are missing, and it is
skipped only when the test has not passed, or by its own exit condition. -/
def DecidesAction : Prop :=
  (1 ∈ s.starts t.loop e → (s.child 0).Passed) ∧
  ((s.child 1).state = .waiting → (s.child 0).succeeded = true →
    ((s.step t.loop e).child 1).state ≠ .waiting ∨ e.blocked (.child 1) = true) ∧
  ((s.child 1).state = .waiting → ((s.step t.loop e).child 1).state = .finished →
    (s.child 0).NotPassed ∨ (s.childView t.loop e 1 t.whileBody2).exit.isTrue = true)

/-- There is another iteration exactly when the test has passed. -/
def DecidesRepeat : Prop :=
  (s.list.state = .iterationEnded →
    ((s.child 0).Passed → (s.step t.loop e).list.state = .waiting) ∧
    (¬ (s.child 0).Passed → (s.step t.loop e).list.state = .finished)) ∧
  (s.list.state = .waiting → (s.child 0).Passed → (s.step t.loop e).list.state = .executing)

/-- The node comes from one part of an iteration to the next. -/
def Advances : Prop :=
  (s.list.state = .executing → (s.child 0).state = .waiting →
    ((s.step t.loop e).child 0).state = .executing) ∧
  (s.list.state = .executing → (s.step t.loop e).list.state =
    if s.allFinished t.loop = true then .finishing else .executing) ∧
  (s.list.state = .finishing → (s.step t.loop e).list.state = .iterationEnded)

/-- A complete iteration. -/
def Complete (l : Logged) : Prop :=
  (∃ n, l.started = 0 :: List.replicate n 1) ∧
  (((l.family.child 0).Passed ∧ (l.family.child 1).state = .finished) ∨
    ((l.family.child 0).NotPassed ∧ 1 ∉ l.started ∧ l.family.child 1 = NodeStatus.skippedStatus))

/-- The node is not cut short, and its skip and pre conditions do not keep it from another
iteration. -/
structure Unhindered : Prop extends s.NotCutShort t.loop e where
  skip : s.list.state = .waiting → (s.child 0).Passed → (s.listView t.loop e).skip.isTrue = false
  pre : s.list.state = .waiting → (s.child 0).Passed → (s.listView t.loop e).pre.isNotTrue = false

end

/-- A While is carried out as it is written in the run of these batches. -/
structure LoopsAsWritten (t : WhileElement) (es : List Surroundings) : Prop where
  complete : Always (Logged.machine t.loop) (fun l => l.family.list.state = .finishing →
    Complete l) es .initial
  tested : Meets (Logged.machine t.loop) (fun l e => t.TestsCondition l.family e) es .initial
  action : Meets (Logged.machine t.loop) (fun l e => t.DecidesAction l.family e) es .initial
  repeats : Meets (Logged.machine t.loop) (fun l e => t.DecidesRepeat l.family e) es .initial
  advances : Meets (Logged.machine t.loop) (fun l e => t.Advances l.family e) es .initial

/-- A run of the node which repeats, which is not cut short. -/
def UncutRun (t : WhileElement) : Type :=
  { es : List Surroundings // Meets (Logged.machine t.loop)
    (fun l e => l.family.NotCutShort t.loop e) es .initial }

/-- A run of the node which repeats, in which nothing keeps it from another iteration. -/
def UnhinderedRun (t : WhileElement) : Type :=
  { es : List Surroundings // Meets (Logged.machine t.loop)
    (fun l e => t.Unhindered l.family e) es .initial }

/-! ### A batch -/

section

variable {t : WhileElement} {l : Logged} {e : Surroundings}
variable (hend : t.loop.condition .end = none)
variable (h : t.Looping l) (hcut : l.family.NotCutShort t.loop e)

include h

theorem Looping.complete (hfinishing : l.family.list.state = .finishing) :
  Complete l
  := by
  have hrunning : l.family.list.state.isRunning = true := by
    rw [hfinishing]
    rfl
  have hfinished : ∀ i < 2, (l.family.child i).state = .finished := by
    rw [← t.length_children]
    apply h.finishing hfinishing
  obtain ⟨htesting, hnotSkipped⟩ := h.testing hrunning
  have hmade : (l.family.child 0).Passed ∨ (l.family.child 0).NotPassed := by
    have hstate := hfinished 0 (by decide)
    rcases htesting with heq | heq | heq | hpassed | hfailed | heq
    · rw [heq] at hstate
      contradiction
    · rw [heq] at hstate
      contradiction
    · rw [heq] at hstate
      contradiction
    · exact .inl hpassed
    · exact .inr hfailed
    · contradiction
  refine ⟨h.ran hrunning (.inr hmade), ?_⟩
  rcases hmade with hpassed | hfailed
  · left
    exact ⟨hpassed, hfinished 1 (by decide)⟩
  · right
    have hnot : 1 ∉ l.started := fun hmem =>
      absurd hfailed (h.action hrunning hmem).not_notPassed
    refine ⟨hfailed, hnot, ?_⟩
    have hone : 1 < t.loop.children.length := by
      rw [t.length_children]
      decide
    have hstate := hfinished 1 (by decide)
    rcases h.unstarted hrunning 1 hone hnot with heq | heq | heq
    · rw [heq] at hstate
      contradiction
    · rw [heq] at hstate
      contradiction
    · exact heq

include hend hcut

theorem Looping.testsCondition :
  t.TestsCondition l.family e
  := by
  have hout := Logged.not_childrenOut hend hcut
  constructor
  · intro hexecuting
    apply step_test_iff t.child_test t.isTest_test hout (h.fresh 0) hexecuting
    rfl
  · intro hrunning
    have htest := h.test_step hend hcut hrunning
    exact ⟨htest.keeps_passed, htest.keeps_notPassed⟩

theorem Looping.decidesAction :
  t.DecidesAction l.family e
  := by
  have hout := Logged.not_childrenOut hend hcut
  have hone : 1 < t.loop.children.length := by
    rw [t.length_children]
    decide
  have hrunning : (l.family.child 1).state = .waiting → l.family.list.state.isRunning = true := by
    intro hwaiting
    rw [h.executing_of_waiting hone hwaiting]
    rfl
  refine ⟨?_, ?_, ?_⟩
  · intro hmem
    obtain ⟨-, hwaiting, -⟩ := mem_starts.mp hmem
    exact ((h.testing (hrunning hwaiting)).1.succeeded.mp (succeeded_of_starts hmem)).1
  · intro hwaiting hsucceeded
    rw [step_child t.child_action]
    have hstart := (t.action_start l.family e).mpr hsucceeded
    have hdest : destState (l.family.childView t.loop e 1 t.whileBody2) ≠ none := by
      unfold destState
      rw [show (l.family.childView t.loop e 1 t.whileBody2).state = .waiting from hwaiting]
      unfold getDestStateFromWaiting
      rw [hstart]
      grind
    obtain ⟨d, hd⟩ := Option.ne_none_iff_exists'.mp hdest
    unfold CoreNode.move
    rw [hd]
    dsimp only
    split
    · rename_i hblocked
      right
      exact hblocked.2.2
    · left
      rw [NodeStatus.transition_state]
      rw [← hwaiting]
      apply legalSuccessor_ne
      exact destState_legal hd
  · intro hwaiting hfinished
    rcases step_waiting t.child_action hwaiting hout with heq | ⟨-, hexit | hskip⟩ | ⟨hruns, -⟩
    · rw [heq] at hfinished
      contradiction
    · right
      exact hexit
    · left
      have hfailed := (t.action_skip l.family e).mp hskip
      apply ((h.testing (hrunning hwaiting)).1.postconditionFailed (h.fresh 0)).mp hfailed
    · rw [hfinished] at hruns
      contradiction

omit hend in
theorem Looping.decidesRepeat (hunhindered : t.Unhindered l.family e) :
  t.DecidesRepeat l.family e
  := by
  constructor
  · intro hended
    have hrest : (l.family.child 0).state = .inactive ∨ (l.family.child 0).state = .finished := by
      apply h.rest
      · rw [hended]
        decide
      · rw [hended]
        rfl
      · rw [t.length_children]
        decide
    have hnext := step_list_iterationEnded_known hcut hended (t.repeat_eq l.family e)
    have htesting := (h.testing (by rw [hended]; rfl)).1
    constructor
    · intro hpassed
      have hfinished : (l.family.child 0).state = .finished := by
        apply hrest.resolve_left
        apply (TestStep.not_idle_of_passed hpassed).1
      rw [hnext, htesting.succeeded.mpr ⟨hpassed, hfinished⟩, if_pos rfl]
    · intro hnot
      rw [hnext, if_neg]
      intro hsucceeded
      exact hnot (htesting.succeeded.mp hsucceeded).1
  · intro hwaiting hpassed
    apply step_list_waiting_free hcut hwaiting t.loop_start t.loop_acquiresResources
    · apply hunhindered.skip hwaiting hpassed
    · apply hunhindered.pre hwaiting hpassed

theorem Looping.advances :
  t.Advances l.family e
  := by
  refine ⟨?_, ?_, ?_⟩
  · intro hexecuting hwaiting
    have htest := h.test_step hend hcut (by rw [hexecuting]; rfl)
    cases htest with
    | starts _ _ _ h' => exact h'
    | skips _ hskip _ => contradiction
    | waits _ _ hstart _ => contradiction
    | passed hmade _ _ => exact absurd hwaiting (TestStep.not_idle_of_passed hmade).2.1
    | notPassed hmade _ _ => exact absurd hwaiting (TestStep.not_idle_of_notPassed hmade).2.1
    | inactive hstate | passes hstate | fails hstate | skipped hstate =>
      rw [hstate] at hwaiting
      contradiction
  · intro hexecuting
    apply Logged.step_executing t.loop_nodeType hend hcut hexecuting
  · intro hfinishing
    change (l.step t.loop e).family.list.state = _
    rw [h.step_finishing t.loop_nodeType hcut hfinishing, NodeStatus.transition_state]
    apply iterationEnded_state

end

/-! ### Runs -/

variable {t : WhileElement}

/-- The runs of the node which repeats, when it has no end condition. -/
theorem loopsAsWritten_of_unhindered (hend : t.loop.condition .end = none) (es : t.UnhinderedRun) :
  t.LoopsAsWritten es.1
  := by
  have hstep : ∀ l e l', t.Looping l → t.Unhindered l.family e →
      Logged.machine t.loop l e = some l' → t.Looping l' := by
    rintro l e l' h hunhindered ⟨⟩
    apply h.step hend hunhindered.toNotCutShort
  have hinitial := looping_initial t
  constructor
  · apply es.2.always _ hinitial (fun hfinishing => by contradiction)
    intro l e l' h _ hunhindered hl'
    have h' := hstep l e l' h hunhindered hl'
    exact ⟨h', h'.complete⟩
  · apply es.2.meets hstep _ hinitial
    intro l e h hunhindered
    apply h.testsCondition hend hunhindered.toNotCutShort
  · apply es.2.meets hstep _ hinitial
    intro l e h hunhindered
    apply h.decidesAction hend hunhindered.toNotCutShort
  · apply es.2.meets hstep _ hinitial
    intro l e h hunhindered
    apply h.decidesRepeat hunhindered.toNotCutShort hunhindered
  · apply es.2.meets hstep _ hinitial
    intro l e h hunhindered
    apply h.advances hend hunhindered.toNotCutShort

/-- In a wrapper the node which repeats has no condition but the one to repeat. -/
theorem condition_loop_of_wrapped (hwrapped : t.isWrapped = true) {c : ConditionName}
    (hc : c ≠ .repeat) :
  t.loop.condition c = none
  := by
  unfold loop
  rw [hwrapped, if_pos rfl]
  cases c <;> first | rfl | contradiction

/-- In a wrapper nothing keeps the node from another iteration. -/
theorem unhindered_of_wrapped (hwrapped : t.isWrapped = true) {s : Family} {e : Surroundings}
    (hcut : s.NotCutShort t.loop e) :
  t.Unhindered s e
  := by
  have hnone : ∀ c ≠ .repeat, t.loop.value (s.listValuation t.loop e) c = none := by
    intro c hc
    unfold CoreNode.value
    rw [condition_loop_of_wrapped hwrapped hc]
    rfl
  refine ⟨hcut, fun _ _ => ?_, fun _ _ => ?_⟩
  · dsimp only [listView, CoreNode.view]
    rw [hnone .skip (by decide)]
    rfl
  · dsimp only [listView, CoreNode.view]
    rw [hnone .pre (by decide)]
    rfl

/-! ### The wrapper -/

/-- The repeat condition of the plan repeats the whole loop: it is looked at when the node which
repeats is at rest, and that node starts anew. -/
structure RepeatsWhole (t : WhileElement) (es : List Surroundings) : Prop where
  children : t.translate.children = [t.loop]
  own : t.translate.condition .repeat = t.action.conditions.lookup .repeat
  generated : t.loop.condition .repeat = some (.succeeded (.child (generatedId "WhileTest")))
  repeats : Meets (Logged.machine t.translate) (fun l e =>
    l.family.list.state = .iterationEnded →
      ((l.family.child 0).state = .inactive ∨ (l.family.child 0).state = .finished) ∧
      ((l.step t.translate e).family.list.state = .waiting →
        (l.family.listView t.translate e).repeat.isTrue = true)) es .initial
  anew : Meets (Logged.machine t.translate) (fun l e => l.family.list.state = .waiting →
    ((l.family.step t.translate e).child 0).state = .inactive) es .initial

/-- A run of the wrapper which is not cut short. -/
def UncutWrapperRun (t : WhileElement) : Type :=
  { es : List Surroundings // Meets (Logged.machine t.translate)
    (fun l e => l.family.NotCutShort t.translate e) es .initial }

theorem repeatsWhole_of_wrapped (hwrapped : t.isWrapped = true)
    (hend : t.translate.condition .end = none) (es : t.UncutWrapperRun) :
  t.RepeatsWhole es.1
  := by
  have htranslate : t.translate.nodeType = .nodeList ∧ t.translate.children = [t.loop] ∧
      t.translate.conditions = t.action.conditions := by
    unfold translate
    rw [hwrapped, if_pos rfl]
    exact ⟨rfl, rfl, rfl⟩
  obtain ⟨hlist, hchildren, hconditions⟩ := htranslate
  have hstep : ∀ l e l', l.Orderly t.translate → l.family.NotCutShort t.translate e →
      Logged.machine t.translate l e = some l' → l'.Orderly t.translate := by
    rintro l e l' h hcut ⟨⟩
    apply h.step hlist hend hcut
  have hzero : 0 < t.translate.children.length := by
    rw [hchildren]
    apply Nat.one_pos
  use hchildren
  · unfold CoreNode.condition
    rw [hconditions]
  · exact t.loop_repeat
  · apply es.2.meets hstep _ (Logged.orderly_initial t.translate)
    intro l e h hcut hended
    constructor
    · apply h.rest _ _ 0 hzero
      · rw [hended]
        decide
      · rw [hended]
        rfl
    · intro hwaiting
      rcases step_list_iterationEnded_uncut hcut hended with ⟨heq, -⟩ | ⟨-, hrepeat⟩ | heq
      · change (l.family.step t.translate e).list.state = _ at hwaiting
        rw [heq, hended] at hwaiting
        contradiction
      · exact hrepeat
      · change (l.family.step t.translate e).list.state = _ at hwaiting
        rw [heq] at hwaiting
        contradiction
  · apply es.2.meets hstep _ (Logged.orderly_initial t.translate)
    intro l e h hcut hwaiting
    apply (h.step_child_rest _ _ hzero).resolve_right
    · intro hfinished
      apply hfinished.2 hwaiting
    · rw [hwaiting]
      decide
    · rw [hwaiting]
      rfl

end WhileElement

end Plexil.Epx

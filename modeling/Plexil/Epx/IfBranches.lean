import Plexil.Epx.IfBasic
import Plexil.Epx.IfChain

/-!
# One branch

In a run of an accepted `If` at most one body starts, that of the first clause whose condition
was true when it was tested; the others are skipped, and the `If` ends when the body is finished.
-/

namespace Plexil.Epx

open StateMachine (Always Meets Eventually run)
open Family

namespace IfElement

variable (t : IfElement)

/-- The child is the body of a clause or of `Else`. -/
def IsBody (i : Nat) : Prop :=
  t.isGeneral = true → i % 2 = 1 ∨ i = 2 * t.clauses.length

/-- The clause of a body is selected: its condition was true when it was tested, or it is that of
`Else`, and the conditions of the clauses before it were tested and were not true. -/
def Selected (s : Family) (e : Surroundings) (i : Nat) : Prop :=
  if t.isGeneral then
    (i / 2 < t.clauses.length → (s.child (2 * (i / 2))).Passed) ∧
      ∀ j < i / 2, (s.child (2 * j)).NotPassed
  else
    (i = 0 → (e.base .list).user t.ifThen.condition = some true) ∧
      (i = 1 → (e.base .list).user t.ifThen.condition ≠ some true)

/-- A test node passes exactly when the condition is true in the batch in which it is tested, and
the result is kept while the `If` runs. -/
def TestsConditions (s : Family) (e : Surroundings) : Prop :=
  t.isGeneral = true → ∀ k (hk : k < t.clauses.length),
    ((s.child (2 * k)).state = .executing →
      ((s.step t.translate e).child (2 * k)).state = .iterationEnded ∧
      (((s.step t.translate e).child (2 * k)).Passed ↔
        (e.base .list).user t.clauses[k].condition = some true) ∧
      (((s.step t.translate e).child (2 * k)).NotPassed ↔
        (e.base .list).user t.clauses[k].condition ≠ some true)) ∧
    (s.list.state.isRunning = true →
      ((s.child (2 * k)).Passed → ((s.step t.translate e).child (2 * k)).Passed) ∧
      ((s.child (2 * k)).NotPassed → ((s.step t.translate e).child (2 * k)).NotPassed))

/-- The body which has started is finished, and the `If` still executes. -/
def BodyFinished (l : Logged) : Prop :=
  l.family.list.state = .executing ∧
    ∃ i ∈ l.started, t.IsBody i ∧ (l.family.child i).state = .finished

/-- An `If` takes one branch in the run of these batches. -/
structure TakesOneBranch (es : List Surroundings) : Prop where
  accepted : checkNode none t.translate = true
  one : Always (Logged.machine t.translate) (fun l => ∀ i ∈ l.started, ∀ j ∈ l.started,
    t.IsBody i → t.IsBody j → i = j) es .initial
  first : Meets (Logged.machine t.translate) (fun l e => ∀ i ∈ l.family.starts t.translate e,
    t.IsBody i → t.Selected l.family e i) es .initial
  tested : Meets (Logged.machine t.translate) (fun l e => t.TestsConditions l.family e) es .initial
  skipped : Always (Logged.machine t.translate) (fun l => l.family.list.state = .finishing →
    ∀ i < t.translate.children.length, i ∉ l.started →
      l.family.child i = NodeStatus.skippedStatus) es .initial
  ends : ∀ before after l, es = before ++ after →
    run (Logged.machine t.translate) before .initial = some l → t.BodyFinished l →
    t.translate.children.length + 2 < after.length →
    Eventually (Logged.machine t.translate) (fun l => l.family.list.state = .iterationEnded)
      after l
  finishes : Meets (Logged.machine t.translate) (fun l e =>
    l.family.list.state = .iterationEnded →
      (l.family.step t.translate e).list.state = .finished ∨
      (l.family.listView t.translate e).repeat = some none ∨
      (l.family.listView t.translate e).repeat.isTrue = true) es .initial

/-- A run which is not cut short, and in which the conditions have their values at the children. -/
def ScopedRun : Type :=
  { es : List Surroundings // Meets (Logged.machine t.translate)
    (fun l e => l.family.NotCutShort t.translate e ∧ t.InScope e) es .initial }

/-- A run which is not cut short. -/
def UncutRun : Type :=
  { es : List Surroundings // Meets (Logged.machine t.translate)
    (fun l e => l.family.NotCutShort t.translate e) es .initial }

/-! ### From an invariant -/

variable {t}

theorem unfinished_le (node : CoreNode) (s : Family) :
  s.unfinished node ≤ node.children.length
  := by
  unfold unfinished
  apply (Finset.card_filter_le _ _).trans
  rw [Finset.card_range]

/-- What has to be shown of an invariant of the runs. -/
structure OneBranchInvariant (t : IfElement) (I : Logged → Prop) : Prop where
  initial : I .initial
  orderly : ∀ l, I l → l.Orderly t.translate
  step : ∀ l e, I l → l.family.NotCutShort t.translate e → t.InScope e → I (l.step t.translate e)
  unique : ∀ l, I l → ∀ i ∈ l.started, ∀ j ∈ l.started, t.IsBody i → t.IsBody j → i = j
  selected : ∀ l e, I l → t.InScope e → ∀ i ∈ l.family.starts t.translate e, t.IsBody i →
    t.Selected l.family e i
  tested : ∀ l e, I l → l.family.NotCutShort t.translate e → t.InScope e →
    t.TestsConditions l.family e
  progress : ∀ l e, I l → l.family.NotCutShort t.translate e → t.BodyFinished l →
    ∀ i < t.translate.children.length, (l.family.child i).state ≠ .finished →
    (∀ j < i, (l.family.child j).state = .finished) →
    ((l.family.step t.translate e).child i).state = .finished

/-- The first child which is not finished. -/
theorem exists_first_unfinished {node : CoreNode} {s : Family} (h : s.allFinished node ≠ true) :
  ∃ i < node.children.length, (s.child i).state ≠ .finished ∧
    ∀ j < i, (s.child j).state = .finished
  := by
  have hexists : ∃ i, i < node.children.length ∧ (s.child i).state ≠ .finished := by
    by_contra hnone
    apply h
    apply decide_eq_true
    intro i hi
    by_contra hnot
    exact hnone ⟨i, hi, hnot⟩
  classical
  obtain ⟨hi, hnot⟩ := Nat.find_spec hexists
  refine ⟨Nat.find hexists, hi, hnot, ?_⟩
  intro j hj
  by_contra hnot'
  exact Nat.find_min hexists hj ⟨hj.trans hi, hnot'⟩

/-- How far an `If` is from its end. -/
def remaining (t : IfElement) (l : Logged) : Nat :=
  if l.family.list.state = .executing then l.family.unfinished t.translate + 2 else 1

section

variable {I : Logged → Prop} (hI : OneBranchInvariant t I)
variable (hend : t.translate.condition .end = none)

include hI hend

/-- In every batch after the body is finished the `If` comes nearer to its end. -/
theorem remaining_step (l : Logged) (e : Surroundings) (l' : Logged)
    (h : I l ∧ (t.BodyFinished l ∨ l.family.list.state = .finishing))
    (hallowed : l.family.NotCutShort t.translate e ∧ t.InScope e)
    (hstep : Logged.machine t.translate l e = some l') :
  l'.family.list.state = .iterationEnded ∨
    ((I l' ∧ (t.BodyFinished l' ∨ l'.family.list.state = .finishing)) ∧
      t.remaining l' < t.remaining l)
  := by
  cases hstep
  obtain ⟨hinvariant, hbody⟩ := h
  have horderly := hI.orderly l hinvariant
  have hnext := hI.step l e hinvariant hallowed.1 hallowed.2
  rcases hbody with ⟨hexecuting, b, hb, hbBody, hfinished⟩ | hfinishing
  · right
    have hlist := Logged.step_executing (t := l) rfl hend hallowed.1 hexecuting
    have hnotWaiting : l.family.list.state ≠ .waiting := by
      rw [hexecuting]
      decide
    unfold remaining
    by_cases hall : l.family.allFinished t.translate = true
    · rw [if_pos hall] at hlist
      rw [hlist, hexecuting, if_neg (by decide), if_pos rfl]
      exact ⟨⟨hnext, .inr rfl⟩, by omega⟩
    · rw [if_neg hall] at hlist
      rw [hlist, hexecuting, if_pos rfl, if_pos rfl]
      obtain ⟨i, hi, hnot, hbefore⟩ := exists_first_unfinished hall
      have hless := unfinished_step_lt (e := e) hnotWaiting hi hnot
        (hI.progress l e hinvariant hallowed.1 ⟨hexecuting, b, hb, hbBody, hfinished⟩ i hi hnot
          hbefore)
      refine ⟨⟨hnext, .inl ⟨hlist, b, ?_, hbBody, ?_⟩⟩, ?_⟩
      · rw [Logged.mem_step_started (by rw [hexecuting]; rfl)]
        exact .inl hb
      · obtain ⟨c, hc⟩ := exists_child (horderly.logged b hb).1
        change ((l.family.step t.translate e).child b).state = .finished
        rw [step_finished hc hfinished hnotWaiting]
        exact hfinished
      · apply Nat.add_lt_add_right hless
  · left
    rw [horderly.step_finishing rfl hallowed.1 hfinishing, NodeStatus.transition_state]
    apply iterationEnded_state

/-- The runs of an `If` with an invariant of this kind. -/
theorem takesOneBranch_of_invariant (haccepted : checkNode none t.translate = true)
    (es : t.ScopedRun) :
  t.TakesOneBranch es.1
  := by
  have hstep : ∀ l e l', I l → l.family.NotCutShort t.translate e ∧ t.InScope e →
      Logged.machine t.translate l e = some l' → I l' := by
    rintro l e l' h ⟨hcut, hscope⟩ ⟨⟩
    apply hI.step l e h hcut hscope
  constructor
  · exact haccepted
  · apply es.2.always _ hI.initial (hI.unique _ hI.initial)
    intro l e l' h _ hallowed hl'
    have h' := hstep l e l' h hallowed hl'
    exact ⟨h', hI.unique l' h'⟩
  · apply es.2.meets hstep _ hI.initial
    rintro l e h ⟨-, hscope⟩
    apply hI.selected l e h hscope
  · apply es.2.meets hstep _ hI.initial
    rintro l e h ⟨hcut, hscope⟩
    apply hI.tested l e h hcut hscope
  · apply es.2.always _ hI.initial (fun h => by contradiction)
    intro l e l' h _ hallowed hl'
    have h' := hstep l e l' h hallowed hl'
    refine ⟨h', fun hfinishing i hi hnot => ?_⟩
    have horderly := hI.orderly l' h'
    have hfinished := horderly.finishing hfinishing i hi
    rcases horderly.unstarted (by rw [hfinishing]; rfl) i hi hnot with hstate | hstate | hskipped
    · rw [hstate] at hfinished
      contradiction
    · rw [hstate] at hfinished
      contradiction
    · exact hskipped
  · intro before after l hes hrun hbody hlength
    have hrest : Meets (Logged.machine t.translate)
        (fun l e => l.family.NotCutShort t.translate e ∧ t.InScope e) (before ++ after) .initial := by
      rw [← hes]
      exact es.2
    have hinvariant := hrest.invariant hstep hI.initial hrun
    apply (hrest.of_append hrun).eventually (fun l e => ⟨_, rfl⟩) (remaining_step hI hend)
      ⟨hinvariant, .inl hbody⟩
    have hle := unfinished_le t.translate l.family
    unfold remaining
    rw [if_pos hbody.1]
    omega
  · apply es.2.meets hstep _ hI.initial
    rintro l e h ⟨hcut, -⟩ hended
    rcases step_list_iterationEnded_uncut hcut hended with ⟨-, hrepeat⟩ | ⟨-, hrepeat⟩ | heq
    · right; left
      exact hrepeat
    · right; right
      exact hrepeat
    · left
      rw [heq]

end

/-! ### With test nodes -/

section

variable {l : Logged} {e : Surroundings} (hgeneral : t.General)

include hgeneral

theorem bodyAt_of_isBody {i : Nat} (hi : i < t.translate.children.length) (hbody : t.IsBody i) :
  t.BodyAt i
  := by
  rcases hgeneral.child_cases hi with ⟨k, hk, rfl⟩ | hbodies | ⟨heq, -⟩
  · rcases hbody hgeneral.general with hodd | heq
    · omega
    · exact .inr heq
  · exact .inl hbodies
  · exact .inr heq

omit hgeneral in
theorem chained_initial :
  t.Chained .initial
  where
  toOrderly := Logged.orderly_initial t.translate
  chain h := by contradiction
  unique i hi := by contradiction

theorem Chained.selected (h : t.Chained l) {i : Nat}
    (hi : i ∈ l.family.starts t.translate e) (hbody : t.IsBody i) :
  t.Selected l.family e i
  := by
  obtain ⟨hlength, hwaiting, -⟩ := mem_starts.mp hi
  have hrunning : l.family.list.state.isRunning = true := by
    rw [h.executing_of_waiting hlength hwaiting]
    rfl
  have hchain := h.chain hrunning
  obtain ⟨hbodies, helse⟩ := h.starts hgeneral hrunning hi
  unfold Selected
  rw [hgeneral.general, if_pos rfl]
  rcases bodyAt_of_isBody hgeneral hlength hbody with ⟨k, hk, rfl⟩ | rfl
  · have hhalf : (2 * k + 1) / 2 = k := by omega
    have hpassed := hchain.passed hk (hbodies k hk rfl)
    rw [hhalf]
    exact ⟨fun _ => hpassed, hchain.notPassed hk (.inr (.inl hpassed))⟩
  · have hhalf : 2 * t.clauses.length / 2 = t.clauses.length := by omega
    have hlast := helse rfl
    rw [hhalf]
    refine ⟨fun hlt => absurd hlt (lt_irrefl _), ?_⟩
    intro j hj
    rw [clauses_length] at hj
    rcases Nat.lt_succ_iff_lt_or_eq.mp hj with hlt | rfl
    · apply hchain.notPassed (Nat.lt_succ_self _) (.inr (.inr hlast)) j hlt
    · exact hlast

theorem Chained.testsConditions (hend : t.translate.condition .end = none) (h : t.Chained l)
    (hcut : l.family.NotCutShort t.translate e) (hscope : t.InScope e) :
  t.TestsConditions l.family e
  := by
  intro _ k hk
  constructor
  · intro hexecuting
    have hpost : (l.family.childView t.translate e (2 * k) (clauseTest k t.clauses[k])).post =
        some ((e.base .list).user t.clauses[k].condition) := by
      dsimp only [childView, CoreNode.view, CoreNode.value]
      rw [condition_post_clauseTest, Option.map_some, CoreExpr.eval]
      congr 1
      apply hscope _ (List.getElem_mem hk)
      rw [hgeneral.length]
      omega
    apply step_test_iff (hgeneral.child_test hk) (isTest_clauseTest k _) _ (h.fresh _) hexecuting
      hpost
    apply Logged.not_childrenOut hend hcut
  · intro hrunning
    have hstep := h.test_step hgeneral hend hcut hrunning hk
    exact ⟨hstep.keeps_passed, hstep.keeps_notPassed⟩

theorem oneBranchInvariant_chained (hend : t.translate.condition .end = none) :
  OneBranchInvariant t t.Chained
  where
  initial := chained_initial
  orderly l h := h.toOrderly
  step l e h hcut _ := h.step hgeneral hend hcut
  unique l h i hi j hj hibody hjbody := by
    apply h.unique i hi j hj
    · apply bodyAt_of_isBody hgeneral (h.logged i hi).1 hibody
    · apply bodyAt_of_isBody hgeneral (h.logged j hj).1 hjbody
  selected l e h _ i hi hbody := h.selected hgeneral hi hbody
  tested l e h hcut hscope := h.testsConditions hgeneral hend hcut hscope
  progress l e h hcut hbody i hi hnot hbefore := by
    obtain ⟨hexecuting, b, hb, hbBody, hfinished⟩ := hbody
    apply h.progress hgeneral hend hcut hexecuting hb _ hfinished hi hnot hbefore
    apply bodyAt_of_isBody hgeneral (h.logged b hb).1 hbBody

end

/-! ### Without test nodes -/

section

variable (hbasic : t.isGeneral = false) (hend : t.translate.condition .end = none)

include hbasic hend

theorem oneBranchInvariant_branching :
  OneBranchInvariant t t.Branching
  where
  initial := ⟨Logged.orderly_initial t.translate, fun i hi => by contradiction,
    fun h => by contradiction⟩
  orderly l h := h.toOrderly
  step l e h hcut hscope := h.step hbasic hend hcut hscope
  unique l h i hi j hj _ _ := h.unique i hi j hj
  selected l e h hscope i hi _ := by
    obtain ⟨hthen, helse⟩ := starts_basic hbasic hscope hi
    unfold Selected
    rw [hbasic, if_neg Bool.false_ne_true]
    refine ⟨hthen, fun heq htrue => ?_⟩
    have hcontra := htrue.symm.trans (helse heq)
    contradiction
  tested l e h hcut hscope hgeneral := by
    rw [hbasic] at hgeneral
    contradiction
  progress l e h hcut hbody i hi hnot _ := by
    obtain ⟨hexecuting, b, hb, -, hfinished⟩ := hbody
    exfalso
    apply hnot
    by_cases heq : i = b
    · rw [heq]
      exact hfinished
    · apply h.others (by rw [hexecuting]; rfl) b hb i hi heq

end

/-- An `If` is accepted when its children can be merged.  Then it takes one branch in every run in
which it is not cut short and the conditions have their values at its children, when it has no
end condition of its own. -/
theorem if_takesOneBranch (t : IfElement) :
  (checkNode none t.translate = true ↔ t.Mergeable) ∧
    (t.Mergeable → t.translate.condition .end = none → ∀ es : t.ScopedRun, t.TakesOneBranch es.1)
  := by
  refine ⟨t.checkNode_translate none, ?_⟩
  intro hmergeable hend es
  have haccepted := (t.checkNode_translate none).mpr hmergeable
  cases hgeneral : t.isGeneral with
  | true =>
    have hinvariant := oneBranchInvariant_chained ⟨hgeneral, hmergeable.nodeIds⟩ hend
    apply takesOneBranch_of_invariant hinvariant hend haccepted
  | false =>
    have hinvariant := oneBranchInvariant_branching hgeneral hend
    apply takesOneBranch_of_invariant hinvariant hend haccepted

/-! ### A branch with a skip condition -/

/-- An `If` whose action has a skip condition. -/
def skippableIf : IfElement where
  action := ⟨"If", false, []⟩
  named := by decide
  distinct := by simp
  written := by simp
  ifThen := ⟨0, ⟨"A", .empty, false, [(.skip, .user 1)], []⟩, by decide +kernel⟩
  elseIfs := []
  «else» := none

/-- The branch gets a second skip condition, so that the plan is rejected. -/
theorem if_not_takesOneBranch :
  ¬ ∀ (t : IfElement) (es : t.UncutRun), t.TakesOneBranch es.1
  := by
  intro h
  have haccepted := (h skippableIf ⟨[], trivial⟩).accepted
  revert haccepted
  decide +kernel

end IfElement

end Plexil.Epx

import Plexil.Epx.IfTests

/-!
# The chain of tests

The tests of an `If` are made in order: a test is made when all tests before it have failed, and
the tests after one which has passed are skipped.  The body of a clause starts only when its test
has passed, so that no other one starts.
-/

namespace Plexil.Epx

open Family

namespace IfElement

/-- What holds of the children while an `If` with test nodes runs. -/
structure Chain (t : IfElement) (l : Logged) : Prop where
  testing : ∀ k < t.clauses.length, (l.family.child (2 * k)).Testing
  ran : ∀ k, k + 1 < t.clauses.length → (l.family.child (2 * (k + 1))).Ran →
    (l.family.child (2 * k)).NotPassed
  first : l.family.child 0 ≠ NodeStatus.skippedStatus
  bodies : ∀ k < t.clauses.length, 2 * k + 1 ∈ l.started →
    (l.family.child (2 * k)).succeeded = true
  «else» : 2 * t.clauses.length ∈ l.started → (l.family.child (2 * t.elseIfs.length)).NotPassed

/-- The child is the body of a clause or of `Else`, by its position. -/
def BodyAt (t : IfElement) (i : Nat) : Prop :=
  (∃ k < t.clauses.length, i = 2 * k + 1) ∨ i = 2 * t.clauses.length

/-- The invariant of the runs of an `If` with test nodes. -/
structure Chained (t : IfElement) (l : Logged) : Prop extends l.Orderly t.translate where
  chain : l.family.list.state.isRunning = true → t.Chain l
  unique : ∀ i ∈ l.started, ∀ j ∈ l.started, t.BodyAt i → t.BodyAt j → i = j

variable {t : IfElement} {l : Logged} {e : Surroundings}

/-! ### What the chain says -/

namespace Chain

variable (h : t.Chain l)

include h

/-- When a test is made, the tests before it have failed. -/
theorem notPassed {k : Nat} (hk : k < t.clauses.length) (hran : (l.family.child (2 * k)).Ran) :
  ∀ j < k, (l.family.child (2 * j)).NotPassed
  := by
  induction k with
  | zero =>
    intro j hj
    contradiction
  | succ k ih =>
    intro j hj
    have hbefore := h.ran k hk hran
    rcases Nat.lt_succ_iff_lt_or_eq.mp hj with hlt | rfl
    · apply ih (by omega) (.inr (.inr hbefore)) j hlt
    · exact hbefore

theorem passed {k : Nat} (hk : k < t.clauses.length)
    (hsucceeded : (l.family.child (2 * k)).succeeded = true) :
  (l.family.child (2 * k)).Passed
  := ((h.testing k hk).succeeded.mp hsucceeded).1

/-- The clause of a body which has started: its test has passed, and those before it have not. -/
theorem selected {i : Nat} (hi : i ∈ l.started)
    (hbody : t.BodyAt i) :
  ∃ m ≤ t.clauses.length,
    ((m < t.clauses.length ∧ i = 2 * m + 1) ∨ (m = t.clauses.length ∧ i = 2 * m)) ∧
    (m < t.clauses.length → (l.family.child (2 * m)).succeeded = true) ∧
    ∀ j < m, (l.family.child (2 * j)).NotPassed
  := by
  rcases hbody with ⟨k, hk, rfl⟩ | rfl
  · have hsucceeded := h.bodies k hk hi
    refine ⟨k, by omega, .inl ⟨hk, rfl⟩, fun _ => hsucceeded, ?_⟩
    apply h.notPassed hk (.inr (.inl (h.passed hk hsucceeded)))
  · have hlast := h.else hi
    refine ⟨t.clauses.length, le_rfl, .inr ⟨rfl, rfl⟩, fun hlt => absurd hlt (lt_irrefl _), ?_⟩
    intro j hj
    rw [clauses_length] at hj
    rcases Nat.lt_succ_iff_lt_or_eq.mp hj with hlt | rfl
    · apply h.notPassed (Nat.lt_succ_self _) (.inr (.inr hlast)) j hlt
    · exact hlast

/-- Only one body starts. -/
theorem started_unique {i j : Nat} (hi : i ∈ l.started) (hj : j ∈ l.started)
    (hibody : t.BodyAt i) (hjbody : t.BodyAt j) :
  i = j
  := by
  obtain ⟨m, hm, him, hpassed, hfailed⟩ := h.selected hi hibody
  obtain ⟨m', hm', hjm, hpassed', hfailed'⟩ := h.selected hj hjbody
  rcases Nat.lt_trichotomy m m' with hlt | heq | hlt
  · have hnot := h.passed (by omega) (hpassed (by omega))
    exact absurd (hfailed' m hlt) hnot.not_notPassed
  · clear hibody hjbody
    omega
  · have hnot := h.passed (by omega) (hpassed' (by omega))
    exact absurd (hfailed m' hlt) hnot.not_notPassed

/-- A test after one which has passed is not made. -/
theorem not_ran_of_lt {m k : Nat} (hk : k < t.clauses.length) (hmk : m < k)
    (hsucceeded : (l.family.child (2 * m)).succeeded = true) :
  ¬ (l.family.child (2 * k)).Ran
  := by
  intro hran
  have hnot := h.passed (by omega) hsucceeded
  exact absurd (h.notPassed hk hran m hmk) hnot.not_notPassed

/-- A test which is not made is skipped once it is finished. -/
theorem skipped_of_finished {k : Nat} (hk : k < t.clauses.length)
    (hran : ¬ (l.family.child (2 * k)).Ran)
    (hfinished : (l.family.child (2 * k)).state = .finished) :
  l.family.child (2 * k) = NodeStatus.skippedStatus
  := by
  rcases h.testing k hk with hstate | hstate | hstate | hpassed | hfailed | hskipped
  · rw [hstate] at hfinished
    contradiction
  · rw [hstate] at hfinished
    contradiction
  · rw [hstate] at hfinished
    contradiction
  · exact absurd (.inr (.inl hpassed)) hran
  · exact absurd (.inr (.inr hfailed)) hran
  · exact hskipped

end Chain

/-- Before any child has left INACTIVE. -/
theorem chain_of_inactive (hgeneral : t.General)
    (hinactive : ∀ i < t.translate.children.length, (l.family.child i).state = .inactive)
    (hstarted : l.started = []) :
  t.Chain l
  := by
  have htest : ∀ k < t.clauses.length, (l.family.child (2 * k)).state = .inactive := by
    intro k hk
    apply hinactive
    rw [hgeneral.length]
    omega
  constructor
  · intro k hk
    left
    apply htest k hk
  · intro k hk hran
    exact absurd hran (TestStep.not_ran (.inl (htest (k + 1) hk)))
  · intro heq
    have hfirst := htest 0 (by rw [clauses_length]; omega)
    rw [Nat.mul_zero, heq] at hfirst
    contradiction
  · intro k _ hmem
    rw [hstarted] at hmem
    contradiction
  · intro hmem
    rw [hstarted] at hmem
    contradiction

/-! ### A batch -/

section

variable (hgeneral : t.General) (hend : t.translate.condition .end = none)
variable (h : t.Chained l) (hcut : l.family.NotCutShort t.translate e)
variable (hrunning : l.family.list.state.isRunning = true)

include hgeneral hend h hcut hrunning

/-- What a test does in a batch. -/
theorem Chained.test_step {k : Nat} (hk : k < t.clauses.length) :
  TestStep (l.family.childView t.translate e (2 * k) (clauseTest k t.clauses[k]))
    (l.family.child (2 * k)) ((l.step t.translate e).family.child (2 * k))
  := by
  apply step_test (hgeneral.child_test hk) (isTest_clauseTest k _)
  · apply Logged.not_childrenOut hend hcut
  · exact hrunning
  · apply h.fresh
  · apply (h.chain hrunning).testing k hk

omit hend hcut in
/-- A test which has succeeded stays so. -/
theorem Chained.succeeded_step {k : Nat} (hk : k < t.clauses.length)
    (hsucceeded : (l.family.child (2 * k)).succeeded = true) :
  ((l.step t.translate e).family.child (2 * k)).succeeded = true
  := by
  have hfinished := ((h.chain hrunning).testing k hk).succeeded.mp hsucceeded
  have hsame := step_test_finished (e := e) (hgeneral.child_test hk) hrunning hfinished.2
  change ((l.family.step t.translate e).child (2 * k)).succeeded = true
  rw [hsame]
  exact hsucceeded

omit hend hcut in
/-- The children which start are those whose conditions allow it. -/
theorem Chained.starts {i : Nat} (hi : i ∈ l.family.starts t.translate e) :
  (∀ k < t.clauses.length, i = 2 * k + 1 → (l.family.child (2 * k)).succeeded = true) ∧
    (i = 2 * t.clauses.length → (l.family.child (2 * t.elseIfs.length)).NotPassed)
  := by
  obtain ⟨-, c, hc, -, hstart⟩ := starts_conditions hi
  constructor
  · rintro k hk rfl
    rw [hgeneral.child_body hk] at hc
    cases hc
    apply (hgeneral.body_start l.family e hk _ _).mp hstart
  · rintro rfl
    rw [hgeneral.child_else] at hc
    obtain ⟨action, -, rfl⟩ := Option.map_eq_some_iff.mp hc
    have hfailed := (hgeneral.else_start l.family e action _).mp hstart
    have hlast := (h.chain hrunning).testing t.elseIfs.length (Nat.lt_succ_self _)
    apply (hlast.postconditionFailed (h.fresh _)).mp hfailed

theorem Chained.chain_step :
  t.Chain (l.step t.translate e)
  := by
  have hchain := h.chain hrunning
  have hstep := fun k (hk : k < t.clauses.length) => h.test_step hgeneral hend hcut hrunning hk
  constructor
  · intro k hk
    apply (hstep k hk).testing
  · intro k hk hran
    apply (hstep k (by omega)).keeps_notPassed
    rcases (hstep (k + 1) hk).ran hran with hran | ⟨-, hstart⟩
    · apply hchain.ran k hk hran
    · have hfailed := (hgeneral.test_start l.family e (show k < t.clauses.length by omega) _ _).mp
        hstart
      apply ((hchain.testing k (by omega)).postconditionFailed (h.fresh _)).mp hfailed
  · intro hskipped
    have hfirst : 0 < t.clauses.length := by
      rw [clauses_length]
      omega
    rcases (hstep 0 hfirst).skip hskipped with hskipped | ⟨-, hskip⟩
    · apply hchain.first hskipped
    · contradiction
  · intro k hk hmem
    apply h.succeeded_step hgeneral hrunning hk
    rcases (Logged.mem_step_started hrunning).mp hmem with hmem | hmem
    · apply hchain.bodies k hk hmem
    · apply (h.starts hgeneral hrunning hmem).1 k hk rfl
  · intro hmem
    apply (hstep t.elseIfs.length (Nat.lt_succ_self _)).keeps_notPassed
    rcases (Logged.mem_step_started hrunning).mp hmem with hmem | hmem
    · apply hchain.else hmem
    · apply (h.starts hgeneral hrunning hmem).2 rfl

omit hrunning in
theorem Chained.step :
  t.Chained (l.step t.translate e)
  where
  toOrderly := h.toOrderly.step rfl hend hcut
  chain hrunning' := by
    cases hrunning : l.family.list.state.isRunning with
    | true => apply h.chain_step hgeneral hend hcut hrunning
    | false =>
      have hwaiting := Logged.waiting_of_running hrunning hrunning'
      apply chain_of_inactive hgeneral
      · intro i hi
        apply (h.step_child_rest _ _ hi).resolve_right
        · intro hfinished
          apply hfinished.2 hwaiting
        · rw [hwaiting]
          decide
        · rw [hwaiting]
          rfl
      · apply Logged.step_started_of_idle hrunning
  unique i hi j hj hibody hjbody := by
    cases hrunning : l.family.list.state.isRunning with
    | true => apply (h.chain_step hgeneral hend hcut hrunning).started_unique hi hj hibody hjbody
    | false =>
      rw [Logged.step_started_of_idle hrunning] at hi
      contradiction

/-! ### Progress -/

omit hrunning in
/-- When the body which has started is finished, the first child which is not finished is finished
after the batch. -/
theorem Chained.progress (hexecuting : l.family.list.state = .executing) {b : Nat}
    (hb : b ∈ l.started)
    (hbody : t.BodyAt b)
    (hfinished : (l.family.child b).state = .finished) {i : Nat}
    (hi : i < t.translate.children.length) (hunfinished : (l.family.child i).state ≠ .finished)
    (hbefore : ∀ j < i, (l.family.child j).state = .finished) :
  ((l.family.step t.translate e).child i).state = .finished
  := by
  have hrunning : l.family.list.state.isRunning = true := by
    rw [hexecuting]
    rfl
  have hchain := h.chain hrunning
  have hout := Logged.not_childrenOut hend hcut
  obtain ⟨m, hm, hbm, hpassed, hfailed⟩ := hchain.selected hb hbody
  have hactive : (l.family.child i).state ≠ .inactive := by
    rcases h.start hexecuting with hinactive | hactive
    · have hstate := hinactive b (h.logged b hb).1
      rw [hfinished] at hstate
      contradiction
    · apply hactive i hi
  have hskipped : ∀ k < t.clauses.length, m < k → 2 * k < i →
      l.family.child (2 * k) = NodeStatus.skippedStatus := by
    intro k hk hmk hki
    apply hchain.skipped_of_finished hk
    · apply hchain.not_ran_of_lt hk hmk (hpassed (by omega))
    · apply hbefore _ hki
  have hwaits : t.BodyAt i → (l.family.child i).state = .waiting := by
    intro hibody
    have hnot : i ∉ l.started := by
      intro hmem
      rw [hchain.started_unique hmem hb hibody hbody] at hunfinished
      contradiction
    rcases h.unstarted hrunning i hi hnot with hstate | hstate | hstate
    · contradiction
    · exact hstate
    · rw [hstate] at hunfinished
      exact absurd rfl hunfinished
  rcases hgeneral.child_cases hi with ⟨k, hk, rfl⟩ | ⟨k, hk, rfl⟩ | ⟨rfl, helse⟩
  · have hstep := h.test_step hgeneral hend hcut hrunning hk
    rcases Nat.lt_trichotomy k m with hlt | rfl | hlt
    · apply hstep.finishes (.inr (hfailed k hlt))
    · apply hstep.finishes (.inl (hchain.passed hk (hpassed hk)))
    · -- The tests after the one which has passed are skipped in turn.
      have hran := hchain.not_ran_of_lt hk hlt (hpassed (by omega))
      have hwaiting : (l.family.child (2 * k)).state = .waiting := by
        rcases hchain.testing k hk with hstate | hstate | hstate | hstate | hstate | hstate
        · contradiction
        · exact hstate
        · exact absurd (.inl hstate) hran
        · exact absurd (.inr (.inl hstate)) hran
        · exact absurd (.inr (.inr hstate)) hran
        · rw [hstate] at hunfinished
          exact absurd rfl hunfinished
      obtain ⟨k, rfl⟩ : ∃ k', k = k' + 1 := ⟨k - 1, by omega⟩
      apply step_waiting_skip (hgeneral.child_test hk) hwaiting hout
      rw [hgeneral.test_skip l.family e (show k < t.clauses.length by omega)]
      rcases Nat.lt_succ_iff_lt_or_eq.mp hlt with hlt | rfl
      · right
        refine ⟨by omega, ?_⟩
        rw [hskipped k (by omega) hlt (by omega)]
        rfl
      · left
        apply hpassed (by omega)
  · have hwaiting := hwaits (.inl ⟨k, hk, rfl⟩)
    apply step_waiting_skip (hgeneral.child_body hk) hwaiting hout
    rw [hgeneral.body_skip l.family e hk]
    rcases Nat.lt_trichotomy k m with hlt | rfl | hlt
    · left
      rw [NodeStatus.postconditionFailed_iff]
      exact (hfailed k hlt).2.2
    · have heq : b = 2 * k + 1 := by omega
      rw [← heq] at hunfinished
      contradiction
    · right
      refine ⟨by omega, ?_⟩
      rw [hskipped k hk hlt (by omega)]
      rfl
  · have hwaiting := hwaits (.inr rfl)
    obtain ⟨action, haction⟩ := Option.isSome_iff_exists.mp helse
    have hchild := hgeneral.child_else
    rw [haction, Option.map_some] at hchild
    apply step_waiting_skip hchild hwaiting hout
    rw [hgeneral.else_skip l.family e]
    have hlast := clauses_length t
    have hlt : m < t.clauses.length := by
      rcases hbm with ⟨hlt, -⟩ | ⟨rfl, rfl⟩
      · exact hlt
      · contradiction
    rcases Nat.lt_succ_iff_lt_or_eq.mp (show m < t.elseIfs.length + 1 by omega) with hlt' | rfl
    · right
      refine ⟨by omega, ?_⟩
      rw [hskipped t.elseIfs.length (by omega) hlt' (by omega)]
      rfl
    · left
      apply hpassed hlt

end

end IfElement

end Plexil.Epx

import Plexil.Epx.IfCheck
import Plexil.Epx.Iterations

/-!
# Branches with the condition

Without `ElseIf` clauses the condition is tested by each branch.  When it has the same value at
both, the batch in which a branch starts is one in which the other one is skipped.
-/

namespace Plexil.Epx

open Family

section

variable {branch : CoreNode} {start skip : CoreExpr} {node : CoreNode} {e : Surroundings}
variable {s : Family} {i : Nat}

/-- A branch starts only when the test is true. -/
theorem start_withConditions {test : CoreExpr}
    (h : (s.childView node e i (withConditions (mergedStartCondition test branch) skip
      branch)).start.isNotTrue = false) :
  CoreExpr.eval (s.childValuation node e i) test = some true
  := by
  change Condition.isNotTrue (some (CoreExpr.eval (s.childValuation node e i)
    (mergedStartCondition test branch))) = false at h
  rw [Condition.isNotTrue_some] at h
  unfold mergedStartCondition at h
  split at h
  · rw [CoreExpr.eval, CoreExpr.evalAnd_eq_true] at h
    apply h _ List.mem_cons_self
  · exact h

/-- A branch is skipped when the test is true. -/
theorem skip_withConditions {test : CoreExpr}
    (h : CoreExpr.eval (s.childValuation node e i) test = some true) :
  (s.childView node e i (withConditions start (mergedSkipCondition test branch)
    branch)).skip.isTrue = true
  := by
  change Condition.isTrue (some (CoreExpr.eval (s.childValuation node e i)
    (mergedSkipCondition test branch))) = true
  rw [Condition.isTrue_some]
  unfold mergedSkipCondition
  split
  · rw [CoreExpr.eval, CoreExpr.evalOr_eq_true]
    exact ⟨test, List.mem_cons_self, h⟩
  · exact h

end

namespace IfElement

variable {t : IfElement} {l : Logged} {e : Surroundings}

/-- The conditions of the clauses have at the children the values which they have at the `If`:
no child declares a variable which they name, and they refer to no node relatively. -/
def InScope (t : IfElement) (e : Surroundings) : Prop :=
  ∀ clause ∈ t.clauses, ∀ i < t.translate.children.length,
    (e.base (.child i)).user clause.condition = (e.base .list).user clause.condition

section

variable (hbasic : t.isGeneral = false)

include hbasic

theorem children_basic :
  t.translate.children = t.basicChildren
  := by
  unfold translate
  dsimp only
  rw [hbasic, if_neg Bool.false_ne_true]

theorem length_basic :
  t.translate.children.length = 1 + t.else.toList.length
  := by
  rw [children_basic hbasic, basicChildren, List.length_cons, Nat.add_comm]
  cases t.else <;> rfl

theorem child_then :
  t.translate.children[0]? =
    some (basicIfThenBody (.user t.ifThen.condition) t.ifThen.action.node)
  := by
  rw [children_basic hbasic]
  rfl

theorem child_else {c : CoreNode} (hc : t.translate.children[1]? = some c) :
  ∃ action : Action, c = basicIfElseBody (.user t.ifThen.condition) action.node
  := by
  rw [children_basic hbasic] at hc
  unfold basicChildren at hc
  rw [List.getElem?_cons_succ] at hc
  have hmem := List.mem_of_getElem? hc
  rw [Option.mem_toList, Option.map_eq_some_iff] at hmem
  obtain ⟨action, -, heq⟩ := hmem
  exact ⟨action, heq.symm⟩

/-- There are at most two branches. -/
theorem branch_cases {i : Nat} (hi : i < t.translate.children.length) :
  i = 0 ∨ i = 1
  := by
  rw [length_basic hbasic] at hi
  cases helse : t.else with
  | none =>
    rw [helse] at hi
    simp at hi
    omega
  | some action =>
    rw [helse] at hi
    simp at hi
    omega

/-- A branch starts when the condition has been tested. -/
theorem starts_basic (hscope : t.InScope e) {i : Nat} (hi : i ∈ l.family.starts t.translate e) :
  (i = 0 → (e.base .list).user t.ifThen.condition = some true) ∧
    (i = 1 → (e.base .list).user t.ifThen.condition = some false)
  := by
  obtain ⟨-, c, hc, -, hstart⟩ := starts_conditions hi
  have hvalue := hscope t.ifThen List.mem_cons_self i (mem_starts.mp hi).1
  constructor
  · rintro rfl
    rw [child_then hbasic] at hc
    cases hc
    have htrue := start_withConditions hstart
    rw [← hvalue]
    exact htrue
  · rintro rfl
    obtain ⟨action, rfl⟩ := child_else hbasic hc
    have htrue := start_withConditions hstart
    rw [← hvalue]
    rw [CoreExpr.eval, CoreExpr.eval] at htrue
    obtain ⟨value, hvalue', hnot⟩ := Option.map_eq_some_iff.mp htrue
    cases value with
    | true => contradiction
    | false => exact hvalue'

/-- The other branch is skipped when a branch starts. -/
theorem skips_basic (hscope : t.InScope e) (hout : ¬ l.family.ChildrenOut t.translate e)
    {i j : Nat} (hi : i ∈ l.family.starts t.translate e) (hj : j < t.translate.children.length)
    (hne : j ≠ i) (hwaiting : (l.family.child j).state = .waiting) :
  ((l.family.step t.translate e).child j).state = .finished
  := by
  obtain ⟨hthen, helse⟩ := starts_basic hbasic hscope hi
  have hvalue := hscope t.ifThen List.mem_cons_self j hj
  obtain ⟨c, hc⟩ := exists_child hj
  apply step_waiting_skip hc hwaiting hout
  rcases branch_cases hbasic (mem_starts.mp hi).1 with rfl | rfl
  · obtain rfl := (branch_cases hbasic hj).resolve_left hne
    obtain ⟨action, rfl⟩ := child_else hbasic hc
    apply skip_withConditions
    rw [CoreExpr.eval]
    exact hvalue.trans (hthen rfl)
  · obtain rfl := (branch_cases hbasic hj).resolve_right hne
    rw [child_then hbasic] at hc
    cases hc
    apply skip_withConditions
    rw [CoreExpr.eval, CoreExpr.eval]
    exact congrArg (Option.map (!·)) (hvalue.trans (helse rfl))

end

/-- The invariant of the runs of an `If` without test nodes. -/
structure Branching (t : IfElement) (l : Logged) : Prop extends l.Orderly t.translate where
  unique : ∀ i ∈ l.started, ∀ j ∈ l.started, i = j
  others : l.family.list.state.isRunning = true → ∀ i ∈ l.started,
    ∀ j < t.translate.children.length, j ≠ i → (l.family.child j).state = .finished

section

variable (hbasic : t.isGeneral = false) (hend : t.translate.condition .end = none)
variable (h : t.Branching l) (hcut : l.family.NotCutShort t.translate e) (hscope : t.InScope e)

include hbasic h hscope

/-- A branch which starts is the only one. -/
theorem Branching.unique_step :
  ∀ i ∈ (l.step t.translate e).started, ∀ j ∈ (l.step t.translate e).started, i = j
  := by
  intro i hi j hj
  cases hrunning : l.family.list.state.isRunning with
  | false =>
    rw [Logged.step_started_of_idle hrunning] at hi
    contradiction
  | true =>
    have hmixed : ∀ a ∈ l.started, ∀ b ∈ l.family.starts t.translate e, a = b := by
      intro a ha b hb
      obtain ⟨hlength, hwaiting, -⟩ := mem_starts.mp hb
      by_contra hne
      rw [h.others hrunning a ha b hlength (Ne.symm hne)] at hwaiting
      contradiction
    rw [Logged.mem_step_started hrunning] at hi hj
    rcases hi with hi | hi
    · rcases hj with hj | hj
      · apply h.unique i hi j hj
      · apply hmixed i hi j hj
    · rcases hj with hj | hj
      · apply (hmixed j hj i hi).symm
      · obtain ⟨hthen, helse⟩ := starts_basic hbasic hscope hi
        obtain ⟨hthen', helse'⟩ := starts_basic hbasic hscope hj
        rcases branch_cases hbasic (mem_starts.mp hi).1 with rfl | rfl
        · rcases branch_cases hbasic (mem_starts.mp hj).1 with rfl | rfl
          · rfl
          · have hcontra := (hthen rfl).symm.trans (helse' rfl)
            contradiction
        · rcases branch_cases hbasic (mem_starts.mp hj).1 with rfl | rfl
          · have hcontra := (hthen' rfl).symm.trans (helse rfl)
            contradiction
          · rfl

include hend hcut

/-- The other branch is finished when a branch has started. -/
theorem Branching.others_step (hrunning : l.family.list.state.isRunning = true) :
  ∀ i ∈ (l.step t.translate e).started, ∀ j < t.translate.children.length, j ≠ i →
    ((l.step t.translate e).family.child j).state = .finished
  := by
  intro i hi j hj hne
  obtain ⟨c, hc⟩ := exists_child hj
  have hlist : l.family.list.state ≠ .waiting := by
    intro heq
    rw [heq] at hrunning
    contradiction
  have hkeeps : (l.family.child j).state = .finished →
      ((l.step t.translate e).family.child j).state = .finished := by
    intro hfinished
    change ((l.family.step t.translate e).child j).state = .finished
    rw [step_finished hc hfinished hlist]
    exact hfinished
  rcases (Logged.mem_step_started hrunning).mp hi with hi | hi
  · apply hkeeps (h.others hrunning i hi j hj hne)
  · obtain ⟨hlength, hwaiting, -⟩ := mem_starts.mp hi
    have hnot : j ∉ l.started := by
      intro hmem
      rw [h.others hrunning j hmem i hlength (Ne.symm hne)] at hwaiting
      contradiction
    rcases h.unstarted hrunning j hj hnot with hstate | hstate | hstate
    · rcases h.start (h.executing_of_waiting hlength hwaiting) with hinactive | hactive
      · rw [hinactive i hlength] at hwaiting
        contradiction
      · exact absurd hstate (hactive j hj)
    · apply skips_basic hbasic hscope (Logged.not_childrenOut hend hcut) hi hj hne hstate
    · apply hkeeps
      rw [hstate]
      rfl

theorem Branching.step :
  t.Branching (l.step t.translate e)
  where
  toOrderly := h.toOrderly.step rfl hend hcut
  unique := h.unique_step hbasic hscope
  others _ := by
    cases hrunning : l.family.list.state.isRunning with
    | true => apply h.others_step hbasic hend hcut hscope hrunning
    | false =>
      intro i hi
      rw [Logged.step_started_of_idle hrunning] at hi
      contradiction

end

end IfElement

end Plexil.Epx

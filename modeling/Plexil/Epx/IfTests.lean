import Plexil.Epx.IfCheck
import Plexil.Epx.TestNodes

/-!
# The conditions of the clauses

The children of an `If` with test nodes, and what their start and skip conditions say of the
test nodes.
-/

namespace Plexil.Epx

open Family

theorem isTest_clauseTest (i : Nat) (clause : Clause) :
  (clauseTest i clause).IsTest
  := by
  cases i with
  | zero => exact ⟨rfl, rfl, rfl, rfl, rfl, rfl, rfl⟩
  | succ i => exact ⟨rfl, rfl, rfl, rfl, rfl, rfl, rfl⟩

theorem condition_post_clauseTest (i : Nat) (clause : Clause) :
  (clauseTest i clause).condition .post = some (.user clause.condition)
  := by
  cases i <;> rfl

/-- A test, or a disjunction which ends with it. -/
theorem eval_ite_or {σ : Valuation} {p : Prop} [Decidable p] {f g : CoreExpr} {x y : Bool}
    (hf : CoreExpr.eval σ f = some x) (hg : CoreExpr.eval σ g = some y) :
  CoreExpr.eval σ (if p then g else .or [f, g]) = some true ↔ y = true ∨ (¬ p ∧ x = true)
  := by
  split
  · rename_i hp
    rw [hg]
    simp [hp]
  · rename_i hp
    rw [CoreExpr.eval, CoreExpr.evalOr_eq_true]
    constructor
    · rintro ⟨e, he, htrue⟩
      rcases List.mem_cons.mp he with rfl | he
      · right
        rw [hf] at htrue
        exact ⟨hp, Option.some_inj.mp htrue⟩
      · left
        obtain rfl := List.mem_singleton.mp he
        rw [hg] at htrue
        exact Option.some_inj.mp htrue
    · rintro (hy | ⟨-, hx⟩)
      · refine ⟨g, by simp, ?_⟩
        rw [hg, hy]
      · refine ⟨f, by simp, ?_⟩
        rw [hf, hx]

namespace IfElement

/-- An accepted `If` with test nodes. -/
structure General (t : IfElement) : Prop where
  general : t.isGeneral = true
  nodeIds : (t.translate.children.map CoreNode.nodeId).Nodup

variable {t : IfElement}

theorem clauses_length (t : IfElement) :
  t.clauses.length = t.elseIfs.length + 1
  := rfl

section

variable (h : t.General)

include h

theorem General.children :
  t.translate.children = t.generalChildren
  := by
  unfold translate
  dsimp only
  rw [h.general, if_pos rfl]

theorem General.length :
  t.translate.children.length = 2 * t.clauses.length + t.else.toList.length
  := by
  rw [h.children, generalChildren, List.length_append, length_ifClauses]
  cases t.else <;> rfl

theorem General.child_test {k : Nat} (hk : k < t.clauses.length) :
  t.translate.children[2 * k]? = some (clauseTest k t.clauses[k])
  := by
  obtain ⟨htest, -⟩ := getElem?_ifClauses 0 t.clauses k
  rw [List.getElem?_eq_getElem hk, Nat.zero_add] at htest
  rw [h.children, generalChildren, List.getElem?_append_left, htest]
  · rfl
  · rw [length_ifClauses]
    omega

theorem General.child_body {k : Nat} (hk : k < t.clauses.length) :
  t.translate.children[2 * k + 1]? = some (clauseBody k t.clauses[k])
  := by
  obtain ⟨-, hbody⟩ := getElem?_ifClauses 0 t.clauses k
  rw [List.getElem?_eq_getElem hk, Nat.zero_add] at hbody
  rw [h.children, generalChildren, List.getElem?_append_left, hbody]
  · rfl
  · rw [length_ifClauses]
    omega

theorem General.child_else :
  t.translate.children[2 * t.clauses.length]? = t.else.map (elseClause t.elseIfs.length)
  := by
  rw [h.children, generalChildren, List.getElem?_append_right, length_ifClauses, Nat.sub_self]
  · cases t.else <;> rfl
  · rw [length_ifClauses]

/-- A child is a test node, the body of a clause, or that of `Else`. -/
theorem General.child_cases {i : Nat} (hi : i < t.translate.children.length) :
  (∃ k < t.clauses.length, i = 2 * k) ∨ (∃ k < t.clauses.length, i = 2 * k + 1) ∨
    (i = 2 * t.clauses.length ∧ t.else.isSome = true)
  := by
  rw [h.length] at hi
  by_cases hlt : i < 2 * t.clauses.length
  · rcases Nat.mod_two_eq_zero_or_one i with heven | hodd
    · left
      exact ⟨i / 2, by omega, by omega⟩
    · right; left
      exact ⟨i / 2, by omega, by omega⟩
  · right; right
    cases helse : t.else with
    | none =>
      rw [helse] at hi
      simp at hi
      omega
    | some action =>
      rw [helse] at hi
      simp at hi
      exact ⟨by omega, rfl⟩

variable (s : Family) (e : Surroundings)

/-- What the expressions at a child say of a test node. -/
theorem General.eval_test {k : Nat} (hk : k < t.clauses.length) (i : Nat) :
  CoreExpr.eval (s.childValuation t.translate e i) (.succeeded (.sibling (testNodeId k))) =
      some (s.child (2 * k)).succeeded ∧
    CoreExpr.eval (s.childValuation t.translate e i) (.skipped (.sibling (testNodeId k))) =
      some (s.child (2 * k)).skipped ∧
    CoreExpr.eval (s.childValuation t.translate e i)
      (.postconditionFailed (.sibling (testNodeId k))) =
      some (s.child (2 * k)).postconditionFailed
  := by
  have hfind := find_nodeId h.nodeIds s (h.child_test hk)
  rw [nodeId_clauseTest] at hfind
  rw [CoreExpr.eval, CoreExpr.eval, CoreExpr.eval]
  dsimp only [childValuation]
  rw [hfind]
  exact ⟨rfl, rfl, rfl⟩

/-- A later test node starts when the test before it fails. -/
theorem General.test_start {k : Nat} (hk : k < t.clauses.length) (clause : Clause) (i : Nat) :
  (s.childView t.translate e i (clauseTest (k + 1) clause)).start.isNotTrue = false ↔
    (s.child (2 * k)).postconditionFailed = true
  := by
  obtain ⟨-, -, hfailed⟩ := h.eval_test s e hk i
  change Condition.isNotTrue (some (CoreExpr.eval (s.childValuation t.translate e i)
    (.postconditionFailed (.sibling (testNodeId k))))) = false ↔ _
  rw [Condition.isNotTrue_some, hfailed, Option.some_inj]

/-- A later test node is skipped when the test before it has succeeded or was skipped. -/
theorem General.test_skip {k : Nat} (hk : k < t.clauses.length) (clause : Clause) (i : Nat) :
  (s.childView t.translate e i (clauseTest (k + 1) clause)).skip.isTrue = true ↔
    (s.child (2 * k)).succeeded = true ∨ (k ≠ 0 ∧ (s.child (2 * k)).skipped = true)
  := by
  obtain ⟨hsucceeded, hskipped, -⟩ := h.eval_test s e hk i
  rw [← eval_ite_or hskipped hsucceeded, ← Condition.isTrue_some]
  rfl

/-- The body of a clause starts when its test has succeeded. -/
theorem General.body_start {k : Nat} (hk : k < t.clauses.length) (clause : Clause) (i : Nat) :
  (s.childView t.translate e i (clauseBody k clause)).start.isNotTrue = false ↔
    (s.child (2 * k)).succeeded = true
  := by
  obtain ⟨hsucceeded, -, -⟩ := h.eval_test s e hk i
  obtain ⟨hstart, -⟩ := condition_ifClauseBody "Then" (.succeeded (.sibling (testNodeId k)))
    (if k = 0 then .postconditionFailed (.sibling (testNodeId k))
      else .or [.skipped (.sibling (testNodeId k)),
        .postconditionFailed (.sibling (testNodeId k))]) clause.action.node
  dsimp only [childView, CoreNode.view, CoreNode.value]
  unfold clauseBody
  rw [hstart, Option.map_some, Condition.isNotTrue_some, hsucceeded, Option.some_inj]

/-- The body of a clause is skipped when its test has failed or was skipped. -/
theorem General.body_skip {k : Nat} (hk : k < t.clauses.length) (clause : Clause) (i : Nat) :
  (s.childView t.translate e i (clauseBody k clause)).skip.isTrue = true ↔
    (s.child (2 * k)).postconditionFailed = true ∨ (k ≠ 0 ∧ (s.child (2 * k)).skipped = true)
  := by
  obtain ⟨-, hskipped, hfailed⟩ := h.eval_test s e hk i
  obtain ⟨-, hskip⟩ := condition_ifClauseBody "Then" (.succeeded (.sibling (testNodeId k)))
    (if k = 0 then .postconditionFailed (.sibling (testNodeId k))
      else .or [.skipped (.sibling (testNodeId k)),
        .postconditionFailed (.sibling (testNodeId k))]) clause.action.node
  rw [← eval_ite_or hskipped hfailed, ← Condition.isTrue_some]
  dsimp only [childView, CoreNode.view, CoreNode.value]
  unfold clauseBody
  rw [hskip, Option.map_some]

/-- The body of `Else` starts when the last test has failed. -/
theorem General.else_start (action : Action) (i : Nat) :
  (s.childView t.translate e i (elseClause t.elseIfs.length action)).start.isNotTrue = false ↔
    (s.child (2 * t.elseIfs.length)).postconditionFailed = true
  := by
  obtain ⟨-, -, hfailed⟩ := h.eval_test s e (Nat.lt_succ_self t.elseIfs.length) i
  obtain ⟨hstart, -⟩ := condition_ifClauseBody "Else"
    (.postconditionFailed (.sibling (testNodeId t.elseIfs.length)))
    (if t.elseIfs.length = 0 then .succeeded (.sibling (testNodeId t.elseIfs.length))
      else .or [.skipped (.sibling (testNodeId t.elseIfs.length)),
        .succeeded (.sibling (testNodeId t.elseIfs.length))]) action.node
  dsimp only [childView, CoreNode.view, CoreNode.value]
  unfold elseClause
  rw [hstart, Option.map_some, Condition.isNotTrue_some, hfailed, Option.some_inj]

/-- The body of `Else` is skipped when the last test has succeeded or was skipped. -/
theorem General.else_skip (action : Action) (i : Nat) :
  (s.childView t.translate e i (elseClause t.elseIfs.length action)).skip.isTrue = true ↔
    (s.child (2 * t.elseIfs.length)).succeeded = true ∨
      (t.elseIfs.length ≠ 0 ∧ (s.child (2 * t.elseIfs.length)).skipped = true)
  := by
  obtain ⟨hsucceeded, hskipped, -⟩ := h.eval_test s e (Nat.lt_succ_self t.elseIfs.length) i
  obtain ⟨-, hskip⟩ := condition_ifClauseBody "Else"
    (.postconditionFailed (.sibling (testNodeId t.elseIfs.length)))
    (if t.elseIfs.length = 0 then .succeeded (.sibling (testNodeId t.elseIfs.length))
      else .or [.skipped (.sibling (testNodeId t.elseIfs.length)),
        .succeeded (.sibling (testNodeId t.elseIfs.length))]) action.node
  rw [← eval_ite_or hskipped hsucceeded, ← Condition.isTrue_some]
  dsimp only [childView, CoreNode.view, CoreNode.value]
  unfold elseClause
  rw [hskip, Option.map_some]

end

end IfElement

end Plexil.Epx

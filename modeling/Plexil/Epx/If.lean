import Plexil.Epx.CheckNode

/-!
# If

An `If` without `ElseIf` clauses is translated by its condition, which is merged into the start
and skip conditions of the branches.  With `ElseIf` clauses there is a test node before each
clause; the clauses refer to the tests, and a clause which has a start or skip condition is
wrapped in a list node.
-/

namespace Plexil.Epx

/-- `tr:prefix`. -/
def generatedId (name : String) : String := "ep2cp_" ++ name

/-- A clause of an `If`: its condition, and its action, which has been translated. -/
structure Clause where
  condition : Nat
  action : Action

/-- An `If` element.  It has a NodeId, and its own conditions are those of the source. -/
structure IfElement where
  action : ActionElement
  named : action.nodeId ≠ ""
  distinct : (action.conditions.map Prod.fst).Nodup
  written : ∀ c ∈ action.conditions, c.2.refs = []
  ifThen : Clause
  elseIfs : List Clause
  «else» : Option Action

/-! ### Branches with the condition -/

/-- A start condition before that of a branch. -/
def mergedStartCondition (test : CoreExpr) (branch : CoreNode) : CoreExpr :=
  match branch.condition .start with
  | some own => .and [test, own]
  | none => test

/-- A skip condition before that of a branch. -/
def mergedSkipCondition (test : CoreExpr) (branch : CoreNode) : CoreExpr :=
  match branch.condition .skip with
  | some own => .or [test, own]
  | none => test

/-- `if-then-start-condition`. -/
def ifThenStartCondition (condition : CoreExpr) (branch : CoreNode) : CoreExpr :=
  mergedStartCondition condition branch

/-- `if-then-skip-condition`. -/
def ifThenSkipCondition (condition : CoreExpr) (branch : CoreNode) : CoreExpr :=
  mergedSkipCondition (.not condition) branch

/-- `if-else-start-condition`. -/
def ifElseStartCondition (condition : CoreExpr) (branch : CoreNode) : CoreExpr :=
  mergedStartCondition (.not condition) branch

/-- `if-else-skip-condition`. -/
def ifElseSkipCondition (condition : CoreExpr) (branch : CoreNode) : CoreExpr :=
  mergedSkipCondition condition branch

/-- The branch with its new conditions.  The elements which are copied are those of
`* except StartCondition|SkipCondition`, which is the union of `* except StartCondition` and
`SkipCondition`. -/
def withConditions (start skip : CoreExpr) (branch : CoreNode) : CoreNode :=
  { branch with
    conditions := (.start, start) :: (.skip, skip) ::
      branch.conditions.filter fun element => element.1 ≠ .start }

/-- `basic-if-then-body`. -/
def basicIfThenBody (condition : CoreExpr) (branch : CoreNode) : CoreNode :=
  withConditions (ifThenStartCondition condition branch) (ifThenSkipCondition condition branch)
    branch

/-- `basic-if-else-body`. -/
def basicIfElseBody (condition : CoreExpr) (branch : CoreNode) : CoreNode :=
  withConditions (ifElseStartCondition condition branch) (ifElseSkipCondition condition branch)
    branch

/-! ### Clauses with test nodes -/

/-- The id of the test node of a clause: `elseif-test-node-id` but for the first one. -/
def testNodeId : Nat → String
  | 0 => generatedId "IfTest"
  | i + 1 => generatedId "ElseIf-" ++ toString (i + 1)

/-- An empty node which is to test a condition. -/
def conditionNode (nodeId : String) (conditions : List (ConditionName × CoreExpr))
    (condition : CoreExpr) : CoreNode where
  nodeId := nodeId
  nodeType := .empty
  usingMutex := false
  conditions := conditions ++ [(.post, condition)]
  children := []

/-- The body of a clause has a start or a skip condition. -/
def needsWrapper (clause : CoreNode) : Bool :=
  clause.conditions.any fun element => element.1 = .start || element.1 = .skip

/-- `if-clause-body`. -/
def ifClauseBody (name : String) (start skip : CoreExpr) (clause : CoreNode) : CoreNode :=
  if needsWrapper clause then
    { nodeId := generatedId name
      nodeType := .nodeList
      usingMutex := false
      conditions := [(.start, start), (.skip, skip)]
      children := [clause] }
  else { clause with conditions := clause.conditions ++ [(.start, start), (.skip, skip)] }

/-- The test node of a clause: the one of `if-body`, and those of `elseif-clause`. -/
def clauseTest : Nat → Clause → CoreNode
  | 0, clause => conditionNode (testNodeId 0) [] (.user clause.condition)
  | i + 1, clause =>
    conditionNode (testNodeId (i + 1))
      [(.start, .postconditionFailed (.sibling (testNodeId i))),
        (.skip,
          if i = 0 then .succeeded (.sibling (testNodeId i))
          else .or [.skipped (.sibling (testNodeId i)), .succeeded (.sibling (testNodeId i))])]
      (.user clause.condition)

/-- The body of a clause. -/
def clauseBody (i : Nat) (clause : Clause) : CoreNode :=
  ifClauseBody "Then" (.succeeded (.sibling (testNodeId i)))
    (if i = 0 then .postconditionFailed (.sibling (testNodeId i))
      else .or [.skipped (.sibling (testNodeId i)), .postconditionFailed (.sibling (testNodeId i))])
    clause.action.node

/-- `else-clause`, after the test `i`. -/
def elseClause (i : Nat) (action : Action) : CoreNode :=
  ifClauseBody "Else" (.postconditionFailed (.sibling (testNodeId i)))
    (if i = 0 then .succeeded (.sibling (testNodeId i))
      else .or [.skipped (.sibling (testNodeId i)), .succeeded (.sibling (testNodeId i))])
    action.node

/-- The test nodes and bodies of the clauses, from the clause `i` on. -/
def ifClauses : Nat → List Clause → List CoreNode
  | _, [] => []
  | i, clause :: rest => clauseTest i clause :: clauseBody i clause :: ifClauses (i + 1) rest

namespace IfElement

variable (t : IfElement)

/-- All clauses with a condition. -/
def clauses : List Clause := t.ifThen :: t.elseIfs

/-- There are `ElseIf` clauses. -/
def isGeneral : Bool := !t.elseIfs.isEmpty

/-- `basic-if-then` and `basic-if-then-else`. -/
def basicChildren : List CoreNode :=
  basicIfThenBody (.user t.ifThen.condition) t.ifThen.action.node ::
    (t.else.map fun action => basicIfElseBody (.user t.ifThen.condition) action.node).toList

/-- `if-body`. -/
def generalChildren : List CoreNode :=
  ifClauses 0 t.clauses ++ (t.else.map (elseClause t.elseIfs.length)).toList

/-- The translation of an `If`. -/
def translate : CoreNode where
  nodeId := t.action.nodeId
  nodeType := .nodeList
  usingMutex := t.action.usingMutex
  conditions := t.action.conditions
  children := if t.isGeneral then t.generalChildren else t.basicChildren

end IfElement

/-! ### Children -/

theorem length_ifClauses (i : Nat) (clauses : List Clause) :
  (ifClauses i clauses).length = 2 * clauses.length
  := by
  induction clauses generalizing i with
  | nil => rfl
  | cons clause rest ih =>
    rw [ifClauses, List.length_cons, List.length_cons, ih, List.length_cons]
    omega

theorem getElem?_ifClauses (i : Nat) (clauses : List Clause) (k : Nat) :
  (ifClauses i clauses)[2 * k]? = clauses[k]?.map (clauseTest (i + k)) ∧
    (ifClauses i clauses)[2 * k + 1]? = clauses[k]?.map (clauseBody (i + k))
  := by
  induction clauses generalizing i k with
  | nil => exact ⟨rfl, rfl⟩
  | cons clause rest ih =>
    cases k with
    | zero => exact ⟨rfl, rfl⟩
    | succ k =>
      have hrest := ih (i + 1) k
      rw [Nat.add_right_comm] at hrest
      exact hrest

section

variable (name : String) (start skip : CoreExpr) (clause : CoreNode)

/-- The conditions which are generated for a body are those of the node. -/
theorem condition_ifClauseBody :
  (ifClauseBody name start skip clause).condition .start = some start ∧
    (ifClauseBody name start skip clause).condition .skip = some skip
  := by
  unfold ifClauseBody
  split
  · exact ⟨rfl, rfl⟩
  · rename_i hwrapper
    have hnone : ∀ c, c = .start ∨ c = .skip → clause.conditions.lookup c = none := by
      intro c hc
      rw [List.lookup_eq_none_iff]
      intro element helement
      have hnot : ¬ (element.1 = .start ∨ element.1 = .skip) := by
        intro heq
        apply hwrapper
        unfold needsWrapper
        rw [List.any_eq_true]
        refine ⟨element, helement, ?_⟩
        simpa using heq
      rcases hc with rfl | rfl
      · simpa using Ne.symm (not_or.mp hnot).1
      · simpa using Ne.symm (not_or.mp hnot).2
    unfold CoreNode.condition
    dsimp only
    rw [List.lookup_append, List.lookup_append, hnone _ (.inl rfl), hnone _ (.inr rfl)]
    exact ⟨rfl, rfl⟩

end

end Plexil.Epx

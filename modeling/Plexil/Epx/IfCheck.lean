import Plexil.Epx.If

/-!
# The check of a translated If

The translation of an `If` is accepted exactly when its children have different NodeIds and,
without `ElseIf` clauses, no branch has a skip condition of its own: such a branch gets two.
-/

namespace Plexil.Epx

section

variable {siblings : Option (List String)} {nodeIds : List String}

theorem generatedId_ne_empty (name : String) :
  generatedId name ≠ ""
  := by
  intro h
  have hlength := congrArg String.length h
  unfold generatedId at hlength
  simp at hlength

theorem testNodeId_ne_empty (i : Nat) :
  testNodeId i ≠ ""
  := by
  cases i with
  | zero => apply generatedId_ne_empty
  | succ i =>
    intro h
    have hlength := congrArg String.length h
    unfold testNodeId generatedId at hlength
    simp at hlength

/-! ### Branches with the condition -/

/-- The conditions of an action can be checked at any place. -/
theorem Action.refs (action : Action) :
  ∀ c ∈ action.node.conditions, ∀ ref ∈ c.2.refs,
    checkNodeRef siblings (action.node.children.map CoreNode.nodeId) ref = true
  := by
  intro c hc ref href
  have hchecked := (checkNode_iff.mp action.checked).2.1
  apply checkNodeRef_of_root ((checkConditions_iff.mp hchecked).2 c hc ref href)

theorem Action.distinct (action : Action) :
  (action.node.conditions.map Prod.fst).Nodup
  := by
  have hchecked := (checkNode_iff.mp action.checked).2.1
  exact (checkConditions_iff.mp hchecked).1

/-- A condition which an action has is one of its condition elements. -/
theorem mem_of_condition {node : CoreNode} {c : ConditionName} {e : CoreExpr}
    (h : node.condition c = some e) :
  (c, e) ∈ node.conditions
  := by
  unfold CoreNode.condition at h
  obtain ⟨before, after, hconditions, -⟩ := List.lookup_eq_some_iff.mp h
  rw [hconditions]
  simp

theorem condition_eq_none {node : CoreNode} {c : ConditionName} :
  node.condition c = none ↔ ∀ element ∈ node.conditions, element.1 ≠ c
  := by
  unfold CoreNode.condition
  rw [List.lookup_eq_none_iff]
  refine forall_congr' fun element => forall_congr' fun _ => ?_
  rw [bne_iff_ne, ne_comm]

/-- The references of a merged condition are those of its parts. -/
theorem refs_merged {action : Action} {test : CoreExpr} (htest : test.refs = []) :
  (∀ ref ∈ (mergedStartCondition test action.node).refs,
      checkNodeRef siblings (action.node.children.map CoreNode.nodeId) ref = true) ∧
    ∀ ref ∈ (mergedSkipCondition test action.node).refs,
      checkNodeRef siblings (action.node.children.map CoreNode.nodeId) ref = true
  := by
  have hown : ∀ c own, action.node.condition c = some own → ∀ ref ∈ own.refs,
      checkNodeRef siblings (action.node.children.map CoreNode.nodeId) ref = true := by
    intro c own hcondition ref href
    apply action.refs (c, own) (mem_of_condition hcondition) ref href
  constructor
  · intro ref href
    unfold mergedStartCondition at href
    split at href
    · rename_i own hcondition
      rw [CoreExpr.refs, CoreExpr.refsOf, CoreExpr.refsOf, CoreExpr.refsOf, htest,
        List.nil_append, List.append_nil] at href
      apply hown _ own hcondition ref href
    · rw [htest] at href
      contradiction
  · intro ref href
    unfold mergedSkipCondition at href
    split at href
    · rename_i own hcondition
      rw [CoreExpr.refs, CoreExpr.refsOf, CoreExpr.refsOf, CoreExpr.refsOf, htest,
        List.nil_append, List.append_nil] at href
      apply hown _ own hcondition ref href
    · rw [htest] at href
      contradiction

/-- A branch is accepted with its new conditions unless it has a skip condition of its own. -/
theorem checkNode_withConditions {action : Action} {test test' : CoreExpr}
    (htest : test.refs = []) (htest' : test'.refs = []) :
  checkNode siblings (withConditions (mergedStartCondition test action.node)
      (mergedSkipCondition test' action.node) action.node) = true ↔
    action.node.condition .skip = none
  := by
  obtain ⟨hid, -, hchildIds, hchildren⟩ := checkNode_iff.mp action.checked
  have hnames : ((withConditions (mergedStartCondition test action.node)
      (mergedSkipCondition test' action.node) action.node).conditions.map Prod.fst).Nodup ↔
      action.node.condition .skip = none := by
    have hrest : ((action.node.conditions.filter fun element => element.1 ≠ .start).map
        Prod.fst).Nodup :=
      action.distinct.sublist (List.filter_sublist.map Prod.fst)
    unfold withConditions
    dsimp only
    rw [List.map_cons, List.map_cons, List.nodup_cons, List.nodup_cons, condition_eq_none]
    constructor
    · rintro ⟨-, hskip, -⟩ element helement heq
      apply hskip
      rw [List.mem_map]
      refine ⟨element, List.mem_filter.mpr ⟨helement, ?_⟩, heq⟩
      rw [heq]
      rfl
    · intro hskip
      refine ⟨?_, ?_, hrest⟩
      · rw [List.mem_cons, List.mem_map]
        rintro (heq | ⟨element, helement, heq⟩)
        · contradiction
        · have hne := (List.mem_filter.mp helement).2
          rw [decide_eq_true_iff] at hne
          contradiction
      · rw [List.mem_map]
        rintro ⟨element, helement, heq⟩
        apply hskip element (List.mem_filter.mp helement).1 heq
  rw [checkNode_iff, checkConditions_iff, hnames]
  constructor
  · rintro ⟨-, ⟨hskip, -⟩, -⟩
    exact hskip
  · intro hskip
    refine ⟨hid, ⟨hskip, ?_⟩, hchildIds, hchildren⟩
    intro c hc
    rcases List.mem_cons.mp hc with rfl | hc
    · exact (refs_merged htest).1
    · rcases List.mem_cons.mp hc with rfl | hc
      · exact (refs_merged htest').2
      · apply action.refs c (List.mem_filter.mp hc).1

/-! ### Clauses with test nodes -/

/-- A test node is accepted when it and the test before it are among the children. -/
theorem checkNode_clauseTest (i : Nat) (clause : Clause)
    (hids : ∀ k < i, testNodeId k ∈ nodeIds) :
  checkNode (some nodeIds) (clauseTest i clause) = true
  := by
  cases i with
  | zero =>
    rw [clauseTest, checkNode_leaf rfl, checkConditions_iff]
    refine ⟨testNodeId_ne_empty 0, by simp [conditionNode], ?_⟩
    intro c hc ref href
    obtain rfl := List.mem_singleton.mp hc
    contradiction
  | succ i =>
    have hsibling : checkNodeRef (some nodeIds) [] (.sibling (testNodeId i)) = true :=
      decide_eq_true (hids i (by omega))
    rw [clauseTest, checkNode_leaf rfl, checkConditions_iff]
    refine ⟨testNodeId_ne_empty (i + 1), by simp [conditionNode], ?_⟩
    intro c hc ref href
    rcases List.mem_cons.mp hc with rfl | hc
    · obtain rfl := List.mem_singleton.mp href
      exact hsibling
    · rcases List.mem_cons.mp hc with rfl | hc
      · have heq : ref = .sibling (testNodeId i) := by
          dsimp only at href
          split at href
          · exact List.mem_singleton.mp href
          · simpa [CoreExpr.refs, CoreExpr.refsOf] using href
        rw [heq]
        exact hsibling
      · obtain rfl := List.mem_singleton.mp hc
        contradiction

/-- The body of a clause is accepted when its conditions can be resolved. -/
theorem checkNode_ifClauseBody (name : String) {start skip : CoreExpr} (action : Action)
    (hstart : ∀ ref ∈ start.refs, ∃ nodeId ∈ nodeIds, ref = .sibling nodeId)
    (hskip : ∀ ref ∈ skip.refs, ∃ nodeId ∈ nodeIds, ref = .sibling nodeId) :
  checkNode (some nodeIds) (ifClauseBody name start skip action.node) = true
  := by
  have hrefs : ∀ (children : List String), ∀ c ∈ [(ConditionName.start, start), (.skip, skip)],
      ∀ ref ∈ c.2.refs, checkNodeRef (some nodeIds) children ref = true := by
    intro children c hc ref href
    have hsibling : ∃ nodeId ∈ nodeIds, ref = .sibling nodeId := by
      rcases List.mem_cons.mp hc with rfl | hc
      · apply hstart ref href
      · obtain rfl := List.mem_singleton.mp hc
        apply hskip ref href
    obtain ⟨nodeId, hmem, rfl⟩ := hsibling
    exact decide_eq_true hmem
  unfold ifClauseBody
  split
  · rw [checkNode_iff, checkConditions_iff]
    refine ⟨generatedId_ne_empty name, ⟨by simp, hrefs _⟩, by simp, ?_⟩
    intro c hc
    obtain rfl := List.mem_singleton.mp hc
    obtain ⟨hid, hconditions, hchildIds, hchildren⟩ := checkNode_iff.mp action.checked
    rw [checkNode_iff, checkConditions_iff]
    exact ⟨hid, ⟨action.distinct, action.refs⟩, hchildIds, hchildren⟩
  · rename_i hwrapper
    obtain ⟨hid, -, hchildIds, hchildren⟩ := checkNode_iff.mp action.checked
    rw [checkNode_iff, checkConditions_iff]
    refine ⟨hid, ⟨?_, ?_⟩, hchildIds, hchildren⟩
    · rw [List.map_append, List.nodup_append]
      refine ⟨action.distinct, by simp, ?_⟩
      intro c hc c' hc'
      obtain ⟨element, helement, rfl⟩ := List.mem_map.mp hc
      rintro rfl
      apply hwrapper
      unfold needsWrapper
      rw [List.any_eq_true]
      refine ⟨element, helement, ?_⟩
      simpa using hc'
    · intro c hc
      rcases List.mem_append.mp hc with hc | hc
      · apply action.refs c hc
      · apply hrefs _ c hc

end

namespace IfElement

variable (t : IfElement)

/-- The branches are merged into a list node which can be accepted: their NodeIds are different,
and a branch to which the condition is added has no skip condition. -/
structure Mergeable : Prop where
  nodeIds : (t.translate.children.map CoreNode.nodeId).Nodup
  skip : t.isGeneral = false →
    t.ifThen.action.node.condition .skip = none ∧
      ∀ action, t.else = some action → action.node.condition .skip = none

theorem nodeId_clauseTest (i : Nat) (clause : Clause) :
  (clauseTest i clause).nodeId = testNodeId i
  := by
  cases i <;> rfl

/-- The test nodes are among the children. -/
theorem testNodeId_mem {k : Nat} (hk : k < t.clauses.length) :
  testNodeId k ∈ t.generalChildren.map CoreNode.nodeId
  := by
  obtain ⟨htest, -⟩ := getElem?_ifClauses 0 t.clauses k
  rw [List.getElem?_eq_getElem hk, Nat.zero_add] at htest
  rw [← nodeId_clauseTest k t.clauses[k]]
  apply List.mem_map_of_mem
  unfold generalChildren
  apply List.mem_append_left _ (List.mem_of_getElem? htest)

/-- The references to a test are to one of the children. -/
theorem refs_testNodeId {k : Nat} (hk : k < t.clauses.length) {ref : NodeRef}
    (href : ref = .sibling (testNodeId k)) :
  ∃ nodeId ∈ t.generalChildren.map CoreNode.nodeId, ref = .sibling nodeId
  := ⟨testNodeId k, t.testNodeId_mem hk, href⟩

theorem refs_ite_or {k : Nat} {p : Prop} [Decidable p] {f g : NodeRef → CoreExpr}
    (hf : ∀ ref, (f ref).refs = [ref]) (hg : ∀ ref, (g ref).refs = [ref]) :
  ∀ ref ∈ (if p then g (.sibling (testNodeId k))
      else .or [f (.sibling (testNodeId k)), g (.sibling (testNodeId k))]).refs,
    ref = .sibling (testNodeId k)
  := by
  intro ref href
  split at href
  · rw [hg] at href
    exact List.mem_singleton.mp href
  · simpa [CoreExpr.refs, CoreExpr.refsOf, hf, hg] using href

/-- With test nodes every child is accepted. -/
theorem checkNode_generalChildren :
  ∀ c ∈ t.generalChildren, checkNode (some (t.generalChildren.map CoreNode.nodeId)) c = true
  := by
  intro c hc
  unfold generalChildren at hc
  rcases List.mem_append.mp hc with hc | hc
  · obtain ⟨i, hi, rfl⟩ := List.getElem_of_mem hc
    rw [length_ifClauses] at hi
    obtain ⟨htest, hbody⟩ := getElem?_ifClauses 0 t.clauses (i / 2)
    have hk : i / 2 < t.clauses.length := by omega
    rw [List.getElem?_eq_getElem hk, Nat.zero_add] at htest hbody
    rcases Nat.mod_two_eq_zero_or_one i with heven | hodd
    · have hi2 : 2 * (i / 2) = i := by omega
      rw [hi2] at htest
      obtain ⟨hlength, heq⟩ := List.getElem?_eq_some_iff.mp htest
      rw [heq]
      apply checkNode_clauseTest
      intro k hlt
      apply t.testNodeId_mem (by omega)
    · have hi2 : 2 * (i / 2) + 1 = i := by omega
      rw [hi2] at hbody
      obtain ⟨hlength, heq⟩ := List.getElem?_eq_some_iff.mp hbody
      rw [heq]
      apply checkNode_ifClauseBody
      · intro ref href
        apply t.refs_testNodeId hk (List.mem_singleton.mp href)
      · intro ref href
        apply t.refs_testNodeId hk
        apply refs_ite_or (f := .skipped) (fun _ => rfl) (fun _ => rfl) ref href
  · have hlast : t.elseIfs.length < t.clauses.length := by
      unfold clauses
      simp
    rw [Option.mem_toList, Option.map_eq_some_iff] at hc
    obtain ⟨action, -, rfl⟩ := hc
    apply checkNode_ifClauseBody
    · intro ref href
      apply t.refs_testNodeId hlast (List.mem_singleton.mp href)
    · intro ref href
      apply t.refs_testNodeId hlast
      apply refs_ite_or (f := .skipped) (fun _ => rfl) (fun _ => rfl) ref href

/-- The branches with the condition are accepted when they have no skip conditions. -/
theorem checkNode_basicChildren {nodeIds : List String} :
  (∀ c ∈ t.basicChildren, checkNode (some nodeIds) c = true) ↔
    t.ifThen.action.node.condition .skip = none ∧
      ∀ action, t.else = some action → action.node.condition .skip = none
  := by
  have hthen := @checkNode_withConditions (some nodeIds) t.ifThen.action
    (.user t.ifThen.condition) (.not (.user t.ifThen.condition)) rfl rfl
  unfold basicChildren
  rw [List.forall_mem_cons]
  apply and_congr hthen
  cases t.else with
  | none => simp
  | some action =>
    have helse := @checkNode_withConditions (some nodeIds) action
      (.not (.user t.ifThen.condition)) (.user t.ifThen.condition) rfl rfl
    rw [Option.map_some, Option.toList_some, List.forall_mem_singleton]
    constructor
    · rintro h action' ⟨⟩
      apply helse.mp h
    · intro h
      apply helse.mpr (h action rfl)

/-- When the translation of an `If` is accepted. -/
theorem checkNode_translate (siblings : Option (List String)) :
  checkNode siblings t.translate = true ↔ t.Mergeable
  := by
  have hconditions : checkConditions siblings (t.translate.children.map CoreNode.nodeId)
      t.translate.conditions = true := by
    rw [checkConditions_iff]
    refine ⟨t.distinct, ?_⟩
    intro c hc ref href
    rw [t.written c hc] at href
    contradiction
  rw [checkNode_iff]
  cases hgeneral : t.isGeneral with
  | true =>
    have hsame : t.translate.children = t.generalChildren := by
      unfold translate
      dsimp only
      rw [hgeneral, if_pos rfl]
    constructor
    · rintro ⟨-, -, hids, -⟩
      refine ⟨hids, ?_⟩
      rw [hgeneral]
      intro h
      contradiction
    · rintro ⟨hids, -⟩
      refine ⟨t.named, hconditions, hids, ?_⟩
      rw [hsame]
      apply t.checkNode_generalChildren
  | false =>
    have hsame : t.translate.children = t.basicChildren := by
      unfold translate
      dsimp only
      rw [hgeneral, if_neg Bool.false_ne_true]
    constructor
    · rintro ⟨-, -, hids, hchildren⟩
      refine ⟨hids, fun _ => ?_⟩
      rw [hsame] at hchildren
      apply t.checkNode_basicChildren.mp hchildren
    · rintro ⟨hids, hskip⟩
      refine ⟨t.named, hconditions, hids, ?_⟩
      rw [hsame]
      apply t.checkNode_basicChildren.mpr (hskip hgeneral)

end IfElement

end Plexil.Epx

import Plexil.Epx.SequenceOrdering
import Plexil.Epx.Uncut

/-!
# Try

The children of a `Try` are linked as those of a sequence.  The end condition is that a child
but the last has succeeded or that the last one is finished, and the post condition is that a
child has succeeded.  When a child succeeds, the end condition of the `Try`, which takes out
the waiting children, becomes true together with the start condition of the next child; the
end condition is the first to be looked at.
-/

namespace Plexil.Epx

open StateMachine (Always Meets)

/-- A `Try` element without an end or post condition of its own, whose children have been
translated. -/
structure TryElement where
  action : ActionElement
  children : Siblings
  nonempty : 0 < children.nodes.length
  noEndOrPost : ∀ element ∈ action.conditions, element.1 ≠ .end ∧ element.1 ≠ .post

/-- `try-end-condition`. -/
def tryEndCondition (children : List CoreNode) : List (ConditionName × CoreExpr) :=
  if children.length < 2 then []
  else
    [(.end, .or (children.mapIdx fun i c =>
      if i + 1 < children.length then .succeeded (.child c.nodeId)
      else .finished (.child c.nodeId)))]

/-- `try-post-condition`. -/
def tryPostCondition (children : List CoreNode) : List (ConditionName × CoreExpr) :=
  match children.map fun c => CoreExpr.succeeded (.child c.nodeId) with
  | [] => []
  | [test] => [(.post, test)]
  | tests => [(.post, .or tests)]

/-- The translation of a `Try`. -/
def TryElement.translate (t : TryElement) : CoreNode where
  nodeId := t.action.nodeId
  nodeType := .nodeList
  usingMutex := t.action.usingMutex
  conditions := t.action.conditions ++ tryEndCondition t.children.nodes ++
    tryPostCondition t.children.nodes
  children := linkSequenceChildren t.children.nodes

namespace TryElement

variable (t : TryElement) (s : Family) (e : Surroundings)

/-! ### The generated conditions -/

theorem length_children :
  t.translate.children.length = t.children.nodes.length
  := length_linkFrom none t.children.nodes

theorem linked :
  Linked t.translate
  := linked_linkSequenceChildren t.translate t.children rfl

theorem lookup_own {c : ConditionName} (hc : c = .end ∨ c = .post) :
  t.action.conditions.lookup c = none
  := by
  rw [List.lookup_eq_none_iff]
  intro element helement
  obtain ⟨hend, hpost⟩ := t.noEndOrPost element helement
  rcases hc with rfl | rfl
  · simpa using Ne.symm hend
  · simpa using Ne.symm hpost

/-- `Succeeded` and `Finished` of a child. -/
theorem eval_child {i : Nat} (hi : i < t.children.nodes.length) :
  CoreExpr.eval (s.listValuation t.translate e) (.succeeded (.child t.children.nodes[i].nodeId)) =
      some (s.child i).succeeded ∧
    CoreExpr.eval (s.listValuation t.translate e) (.finished (.child t.children.nodes[i].nodeId)) =
      some (s.child i).finished
  := by
  have hfind := @find_linked t.translate t.children rfl s i _ (List.getElem?_eq_getElem hi)
  rw [CoreExpr.eval, CoreExpr.eval]
  dsimp only [Family.listValuation]
  rw [hfind]
  exact ⟨rfl, rfl⟩

theorem condition_end :
  t.translate.condition .end = (tryEndCondition t.children.nodes).lookup .end
  := by
  have hpost : (tryPostCondition t.children.nodes).lookup .end = none := by
    unfold tryPostCondition
    split <;> rfl
  unfold CoreNode.condition translate
  dsimp only
  rw [List.lookup_append, List.lookup_append, t.lookup_own (.inl rfl), hpost, Option.none_or,
    Option.or_none]

theorem condition_post :
  t.translate.condition .post = (tryPostCondition t.children.nodes).lookup .post
  := by
  have hend : (tryEndCondition t.children.nodes).lookup .post = none := by
    unfold tryEndCondition
    split <;> rfl
  unfold CoreNode.condition translate
  dsimp only
  rw [List.lookup_append, List.lookup_append, t.lookup_own (.inr rfl), hend, Option.none_or,
    Option.none_or]

/-- The end condition of a `Try` with several children. -/
theorem ends_iff :
  s.Ends t.translate e ↔ 2 ≤ t.children.nodes.length ∧ ∃ i < t.children.nodes.length,
    (if i + 1 < t.children.nodes.length then (s.child i).succeeded else (s.child i).finished) = true
  := by
  unfold Family.Ends CoreNode.value
  rw [condition_end, tryEndCondition]
  split
  · simp [Condition.isTrue]
    omega
  · rename_i hlength
    rw [List.lookup_cons_self, Option.map_some, Condition.isTrue_some, CoreExpr.eval,
      CoreExpr.evalOr_eq_true]
    constructor
    · rintro ⟨test, htest, htrue⟩
      obtain ⟨i, hi, rfl⟩ := List.mem_mapIdx.mp htest
      refine ⟨by omega, i, hi, ?_⟩
      obtain ⟨hsucceeded, hfinished⟩ := t.eval_child s e hi
      split at htrue
      · rename_i hnext
        rw [if_pos hnext]
        simpa using hsucceeded.symm.trans htrue
      · rename_i hlast
        rw [if_neg hlast]
        simpa using hfinished.symm.trans htrue
    · rintro ⟨-, i, hi, htrue⟩
      refine ⟨_, List.mem_mapIdx.mpr ⟨i, hi, rfl⟩, ?_⟩
      obtain ⟨hsucceeded, hfinished⟩ := t.eval_child s e hi
      split at htrue
      · rename_i hnext
        rw [if_pos hnext, hsucceeded, htrue]
      · rename_i hlast
        rw [if_neg hlast, hfinished, htrue]

/-- The post condition of a `Try`. -/
theorem post_isNotTrue :
  (s.listView t.translate e).post.isNotTrue = false ↔
    ∃ i < t.children.nodes.length, (s.child i).succeeded = true
  := by
  have htests : ∀ test ∈ t.children.nodes.map fun c => CoreExpr.succeeded (.child c.nodeId),
      ∃ i, ∃ hi : i < t.children.nodes.length,
        test = .succeeded (.child t.children.nodes[i].nodeId) := by
    intro test htest
    obtain ⟨c, hc, rfl⟩ := List.mem_map.mp htest
    obtain ⟨i, hi, rfl⟩ := List.getElem_of_mem hc
    exact ⟨i, hi, rfl⟩
  have hmem : ∀ i (hi : i < t.children.nodes.length),
      CoreExpr.succeeded (.child t.children.nodes[i].nodeId) ∈
        t.children.nodes.map fun c => CoreExpr.succeeded (.child c.nodeId) := by
    intro i hi
    apply List.mem_map_of_mem (List.getElem_mem hi)
  have hor : CoreExpr.evalOr (s.listValuation t.translate e)
      (t.children.nodes.map fun c => CoreExpr.succeeded (.child c.nodeId)) = some true ↔
      ∃ i < t.children.nodes.length, (s.child i).succeeded = true := by
    rw [CoreExpr.evalOr_eq_true]
    constructor
    · rintro ⟨test, htest, htrue⟩
      obtain ⟨i, hi, rfl⟩ := htests test htest
      refine ⟨i, hi, ?_⟩
      simpa using (t.eval_child s e hi).1.symm.trans htrue
    · rintro ⟨i, hi, htrue⟩
      refine ⟨_, hmem i hi, ?_⟩
      rw [(t.eval_child s e hi).1, htrue]
  rw [← hor]
  change Condition.isNotTrue ((t.translate.condition .post).map
    (CoreExpr.eval (s.listValuation t.translate e))) = false ↔ _
  rw [condition_post, tryPostCondition]
  have hnonempty := t.nonempty
  split
  · rename_i hnil
    rw [List.map_eq_nil_iff] at hnil
    rw [hnil] at hnonempty
    contradiction
  · rename_i test htest
    rw [htest, List.lookup_cons_self, Option.map_some, Condition.isNotTrue_some,
      CoreExpr.evalOr_eq_true]
    simp
  · rw [List.lookup_cons_self, Option.map_some, Condition.isNotTrue_some, CoreExpr.eval]

end TryElement

end Plexil.Epx

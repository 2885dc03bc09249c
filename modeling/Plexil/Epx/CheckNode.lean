import Plexil.Epx.Sequences

/-!
# The check of translated nodes

What the checker of the plan parser requires of the nodes which the translator builds: a
NodeId, at most one condition element of each name, different NodeIds of the children, and
node references which can be resolved.
-/

namespace Plexil.Epx

namespace CoreExpr

mutual

/-- The node references of an expression, as far as the translator generates them. -/
def refs : CoreExpr → List NodeRef
  | user _ | boolean _ | isKnown _ | anyKnown _ => []
  | not argument => refs argument
  | and arguments => refsOf arguments
  | or arguments => refsOf arguments
  | finished ref | succeeded ref | skipped ref | postconditionFailed ref | noChildFailed ref =>
    [ref]
  | eqInternal ref _ | neInternal ref _ => [ref]

def refsOf : List CoreExpr → List NodeRef
  | [] => []
  | e :: es => refs e ++ refsOf es

end

end CoreExpr

/-- `checkNodeRef`; the root node has no siblings. -/
def checkNodeRef (siblings : Option (List String)) (children : List String) : NodeRef → Bool
  | .self => true
  | .parent => siblings.isSome
  | .child nodeId => nodeId ∈ children
  | .sibling nodeId => siblings.any fun nodeIds => nodeId ∈ nodeIds

/-- The condition elements of a node. -/
def checkConditions (siblings : Option (List String)) (children : List String)
    (conditions : List (ConditionName × CoreExpr)) : Bool :=
  (conditions.map Prod.fst).Nodup &&
    conditions.all fun c => c.2.refs.all (checkNodeRef siblings children)

mutual

def checkNode (siblings : Option (List String)) : CoreNode → Bool
  | ⟨nodeId, _, _, conditions, children⟩ =>
    nodeId ≠ "" && checkConditions siblings (children.map CoreNode.nodeId) conditions &&
      checkChildNodes (children.map CoreNode.nodeId) children &&
      (children.map CoreNode.nodeId).Nodup

def checkChildNodes (nodeIds : List String) : List CoreNode → Bool
  | [] => true
  | child :: rest => checkNode (some nodeIds) child && checkChildNodes nodeIds rest

end

/-- An action which has been translated, and which is accepted by itself. -/
structure Action where
  node : CoreNode
  checked : checkNode none node = true

/-! ### Accepted nodes -/

theorem checkChildNodes_iff {nodeIds : List String} {children : List CoreNode} :
  checkChildNodes nodeIds children = true ↔ ∀ c ∈ children, checkNode (some nodeIds) c = true
  := by
  induction children with
  | nil => simp [checkChildNodes]
  | cons child rest ih => rw [checkChildNodes, Bool.and_eq_true, ih, List.forall_mem_cons]

theorem checkConditions_iff {siblings : Option (List String)} {children : List String}
    {conditions : List (ConditionName × CoreExpr)} :
  checkConditions siblings children conditions = true ↔
    (conditions.map Prod.fst).Nodup ∧
      ∀ c ∈ conditions, ∀ ref ∈ c.2.refs, checkNodeRef siblings children ref = true
  := by
  unfold checkConditions
  rw [Bool.and_eq_true, decide_eq_true_iff, List.all_eq_true]
  simp only [List.all_eq_true]

theorem checkNode_iff {siblings : Option (List String)} {node : CoreNode} :
  checkNode siblings node = true ↔
    node.nodeId ≠ "" ∧
    checkConditions siblings (node.children.map CoreNode.nodeId) node.conditions = true ∧
    (node.children.map CoreNode.nodeId).Nodup ∧
    ∀ c ∈ node.children, checkNode (some (node.children.map CoreNode.nodeId)) c = true
  := by
  obtain ⟨nodeId, nodeType, usingMutex, conditions, children⟩ := node
  rw [checkNode, Bool.and_eq_true, Bool.and_eq_true, Bool.and_eq_true, decide_eq_true_iff,
    decide_eq_true_iff, checkChildNodes_iff]
  constructor
  · rintro ⟨⟨⟨hid, hconditions⟩, hchildren⟩, hdistinct⟩
    exact ⟨hid, hconditions, hdistinct, hchildren⟩
  · rintro ⟨hid, hconditions, hdistinct, hchildren⟩
    exact ⟨⟨⟨hid, hconditions⟩, hchildren⟩, hdistinct⟩

/-- A reference which can be resolved at the root can be resolved anywhere. -/
theorem checkNodeRef_of_root {siblings : Option (List String)} {children : List String}
    {ref : NodeRef} (h : checkNodeRef none children ref = true) :
  checkNodeRef siblings children ref = true
  := by
  cases ref with
  | self => rfl
  | parent => contradiction
  | child nodeId => exact h
  | sibling nodeId => contradiction

/-- A node without children is accepted when its conditions are. -/
theorem checkNode_leaf {siblings : Option (List String)} {node : CoreNode}
    (hchildren : node.children = []) :
  checkNode siblings node = true ↔
    node.nodeId ≠ "" ∧ checkConditions siblings [] node.conditions = true
  := by
  rw [checkNode_iff, hchildren]
  simp

end Plexil.Epx

import Plexil.Xml.InParameters
import Plexil.Xml.Check

/-!
# Assignments to In parameters

An accepted plan has no assignment or command return which names an In parameter, and so
leaves what the parameters stand for as it is, exactly when it has none to an element of an
array which names an In parameter.
-/

namespace Plexil.Xml

/-! ### Setting a value -/

/-- The value of a variable: that of a scalar variable, or the elements of an array. -/
inductive Content (α : Type) where
  | scalar (value : Option α)
  | array (elements : Option (List (Option α)))
  deriving DecidableEq

/-- The errors in a plan which are found when it runs. -/
inductive PlanError where
  | notAVariable | negativeIndex
  deriving DecidableEq

namespace Expression

variable {α : Type}

/-- The variable for which an expression stands. -/
def baseVariable (e : Expression) : Option VariableKey :=
  match e.getBaseExpression with
  | userVariable key _ => some key
  | _ => none

/-- `setValue` with the value of the index, for an expression which is assignable.  An element
which is not in the array is not set. -/
def setValue (e : Expression) (index : Option Int) (value : Content α)
    (store : VariableKey → Content α) : Except PlanError (VariableKey → Content α) :=
  match e with
  | userVariable key _ => .ok (Function.update store key value)
  | mutableArrayReference array =>
    match array.arrayVariable with
    | none => .error .notAVariable
    | some key =>
      match store key, index, value with
      | .array (some elements), some i, .scalar element =>
        if i < 0 then .error .negativeIndex
        else .ok (Function.update store key (.array (some (elements.set i.toNat element))))
      | _, _, _ => .ok store
  | inAlias _ | arrayReference _ | other _ => .ok store

end Expression

/-- Performing an assignment to the target changes nothing of what the named parameter stands
for. -/
def FinalizedNode.PreservesNamed (node : FinalizedNode) (expr : Expr) : Prop :=
  ∀ name e key target, expr.named = some name → node.scope.findVariable name = some e →
    e.baseVariable = some key → node.target = some target →
    ∀ (index : Option Int) (value : Content Int) (store store' : VariableKey → Content Int),
      target.setValue index value store = .ok store' → store' key = store key

/-- The In parameters are read-only: an assignment or command return which names one changes
nothing, and is rejected. -/
structure ReadOnlyParameters (plan : AcceptedPlan) : Prop where
  preserves : ∀ node ∈ plan.nodes, ∀ expr, node.header.target = some expr →
    NamesParameter node.headers expr → node.PreservesNamed expr
  rejected : ∀ t ∈ plan.root.targets [], ¬ NamesParameter t.1 t.2

theorem AcceptedPlan.targetsChecked (plan : AcceptedPlan) :
  TargetsChecked plan.nodes (plan.root.targets [])
  := by
  apply targetsChecked_node _ [] [] plan.root plan.nodes plan.accepted
  apply parametersReadOnly_nil

/-- The In parameters of a plan are read-only exactly when no element of an array which names
one is assigned. -/
theorem readOnlyParameters_iff (plan : AcceptedPlan) :
  ReadOnlyParameters plan ↔
    ∀ t ∈ plan.root.targets [], t.2.isArrayElement = true → ¬ NamesParameter t.1 t.2
  := by
  have hchecked := plan.targetsChecked
  constructor
  · intro h t ht _
    apply h.rejected t ht
  · intro h
    have hrejected : ∀ t ∈ plan.root.targets [], ¬ NamesParameter t.1 t.2 := by
      intro t ht
      cases helement : t.2.isArrayElement with
      | true => apply h t ht helement
      | false =>
        rw [← hchecked.same] at ht
        obtain ⟨node, hnode, ht⟩ := List.mem_flatMap.mp ht
        obtain ⟨expr, hexpr, rfl⟩ := List.mem_map.mp ht
        apply hchecked.checked node hnode expr _ helement
        simpa using hexpr
    refine ⟨?_, hrejected⟩
    intro node hnode expr hexpr hnames
    apply absurd hnames
    apply hrejected (node.headers, expr)
    rw [← hchecked.same]
    apply List.mem_flatMap.mpr
    refine ⟨node, hnode, ?_⟩
    rw [hexpr]
    exact List.mem_singleton_self _

/-! ### An element of an In array -/

/-- A list node with an array and an index. -/
def inArrayRoot : Header where
  nodeId := "Root"
  declarations := [⟨"a", .integerArray, none⟩, ⟨"i", .integer, none⟩]

/-- An assignment node which declares the array as an In parameter, and assigns to an element of
it. -/
def inArrayLeaf : Header where
  nodeId := "Set"
  interface := [(.in, ⟨"a", .integerArray, none⟩)]
  target := some (.elementOf "a" (.variable .integer "i"))

/-- The nodes of the plan. -/
def inArrayNodes : List FinalizedNode :=
  (parsePlan [] (.nodeList inArrayRoot [.leaf inArrayLeaf])).toOption.getD []

/-- The plan is accepted. -/
def inArrayPlan : AcceptedPlan where
  root := .nodeList inArrayRoot [.leaf inArrayLeaf]
  planMutexes := []
  globalMutexes := []
  nodes := inArrayNodes
  accepted := by rfl
  checked := by decide +kernel
  declared := by decide +kernel

/-- The assignment sets an element of the array of the list node, through a read-only alias. -/
theorem readOnlyParameters_fails :
  ¬ ∀ plan : AcceptedPlan, ReadOnlyParameters plan
  := by
  intro h
  have hlength : 1 < inArrayNodes.length := by decide +kernel
  have hnames : NamesParameter inArrayNodes[1].headers (.elementOf "a" (.variable .integer "i")) :=
    ⟨"a", inArrayLeaf, rfl, rfl, rfl⟩
  have hpreserves := (h inArrayPlan).preserves inArrayNodes[1] (List.getElem_mem hlength) _ rfl
    hnames
  have hsame := hpreserves "a" (.inAlias (.userVariable ⟨[], "a"⟩ .integerArray)) ⟨[], "a"⟩
    (.mutableArrayReference (.inAlias (.userVariable ⟨[], "a"⟩ .integerArray))) rfl rfl rfl rfl
    (some 0) (.scalar (some 1)) (fun _ => .array (some [some 0])) _ rfl
  rw [Function.update_self] at hsame
  contradiction

end Plexil.Xml

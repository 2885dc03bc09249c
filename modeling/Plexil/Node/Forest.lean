import Plexil.Node.Types
import Mathlib.Data.List.Basic

/-!
# The node trees of the plans

A `Forest` has the trees of all plans, each node with what the parser fixes for it.  The
nodes of the plans which are loaded are those of the trees whose roots the executive
lists.
-/

namespace Plexil

/-- A resource which at most one node holds: a mutex, or the base variable of the
destination of an assignment. -/
inductive ReservableId where
  | mutex (id : Nat)
  | variable (id : Nat)
  deriving DecidableEq, Repr

/-- What the plan says of a node.  `hasCondition` tells which conditions the plan
specifies, and `endIsTrue` whether the end condition is the constant `TRUE_EXP`. -/
structure NodeDecl where
  nodeType : PlexilNodeType
  parent : Option NodePtr
  children : List NodePtr
  priority : Int
  usingMutexes : List Nat
  baseVariable : Nat
  hasCondition : ConditionIndex → Bool
  endIsTrue : Bool

namespace NodeDecl

/-- Whether the node has to acquire resources before it can execute. -/
def acquiresResources (d : NodeDecl) : Bool :=
  match d.nodeType with
  | .assignment => true
  | _ => !d.usingMutexes.isEmpty

/-- The mutexes used by the node. -/
def mutexes (d : NodeDecl) : List ReservableId := d.usingMutexes.map .mutex

/-- The resources the node needs: its mutexes and, for an assignment, the variable. -/
def needs (d : NodeDecl) : List ReservableId :=
  match d.nodeType with
  | .assignment => d.mutexes ++ [.variable d.baseVariable]
  | _ => d.mutexes

theorem variable_notMem_mutexes (d : NodeDecl) (id : Nat) :
  .variable id ∉ d.mutexes
  := by
  simp [mutexes]

theorem mem_needs_of_mem_mutexes {d : NodeDecl} {r : ReservableId} (h : r ∈ d.mutexes) :
  r ∈ d.needs
  := by
  unfold needs
  split <;> simp [h]

theorem needs_of_ne_assignment {d : NodeDecl} (h : d.nodeType ≠ .assignment) :
  d.needs = d.mutexes
  := by
  unfold needs
  split
  · contradiction
  · rfl

/-- A node which acquires no resources needs none. -/
theorem needs_eq_nil {d : NodeDecl} (h : d.acquiresResources = false) :
  d.needs = []
  := by
  unfold acquiresResources at h
  split at h
  · cases h
  · rename_i hne
    rw [needs_of_ne_assignment hne]
    simpa [mutexes] using h

end NodeDecl

/-- Trees of nodes.  `ancestors n` are the proper ancestors of `n` from its parent on. -/
structure Forest where
  decl : NodePtr → NodeDecl
  ancestors : NodePtr → List NodePtr
  ancestors_eq : ∀ n, ancestors n =
    match (decl n).parent with
    | none => []
    | some p => p :: ancestors p
  mem_children : ∀ p c, c ∈ (decl p).children ↔ (decl c).parent = some p
  isList_of_children : ∀ p, (decl p).children ≠ [] → (decl p).nodeType.isList = true
  usingMutexes_nodup : ∀ n, (decl n).usingMutexes.Nodup

namespace Forest

/-- The priority of a node. -/
def priority (F : Forest) (n : NodePtr) : Int := (F.decl n).priority

theorem ancestors_of_parent (F : Forest) {n p : NodePtr} (h : (F.decl n).parent = some p) :
  F.ancestors n = p :: F.ancestors p
  := by
  rw [F.ancestors_eq n, h]

theorem ancestors_of_no_parent (F : Forest) {n : NodePtr} (h : (F.decl n).parent = none) :
  F.ancestors n = []
  := by
  rw [F.ancestors_eq n, h]

/-- No node is its own parent. -/
theorem parent_ne (F : Forest) {n p : NodePtr} (h : (F.decl n).parent = some p) :
  p ≠ n
  := by
  rintro rfl
  have hlength := congrArg List.length (F.ancestors_of_parent h)
  simp at hlength

/-- The root of the tree of a node. -/
def root (F : Forest) (n : NodePtr) : NodePtr :=
  (F.ancestors n).getLast?.getD n

theorem root_of_parent (F : Forest) {n p : NodePtr} (h : (F.decl n).parent = some p) :
  F.root n = F.root p
  := by
  unfold root
  rw [F.ancestors_of_parent h]
  cases F.ancestors p with
  | nil => rfl
  | cons q qs =>
    rw [List.getLast?_cons_cons]
    simp [List.getLast?_cons]

theorem root_of_no_parent (F : Forest) {n : NodePtr} (h : (F.decl n).parent = none) :
  F.root n = n
  := by
  unfold root
  rw [F.ancestors_of_no_parent h]
  rfl

/-- Trees of a single node each. -/
def ofRoots (decl : NodePtr → NodeDecl) (parent : ∀ n, (decl n).parent = none)
    (children : ∀ n, (decl n).children = []) (nodup : ∀ n, (decl n).usingMutexes.Nodup) :
    Forest where
  decl := decl
  ancestors _ := []
  ancestors_eq n := by rw [parent]
  mem_children p c := by simp [parent, children]
  isList_of_children p h := absurd (children p) h
  usingMutexes_nodup := nodup

/-- The tree of a list node 0 and its children, among trees of a single node each. -/
def ofFamily (decl : NodePtr → NodeDecl) (family : List NodePtr) (hfamily : 0 ∉ family)
    (parent : ∀ n, (decl n).parent = if n ∈ family then some 0 else none)
    (children : ∀ n, (decl n).children = if n = 0 then family else [])
    (isList : (decl 0).nodeType.isList = true) (nodup : ∀ n, (decl n).usingMutexes.Nodup) :
    Forest where
  decl := decl
  ancestors n := if n ∈ family then [0] else []
  ancestors_eq n := by
    rw [parent]
    by_cases hn : n ∈ family <;> simp [hn, hfamily]
  mem_children p c := by
    rw [children, parent]
    by_cases hp : p = 0 <;> by_cases hc : c ∈ family <;> simp [hp, hc, Ne.symm]
  isList_of_children p h := by
    rw [children] at h
    split at h
    · rename_i hp
      rw [hp]
      exact isList
    · contradiction
  usingMutexes_nodup := nodup

/-- The family of a single child. -/
theorem root_notMem_singleton :
  (0 : NodePtr) ∉ [1]
  := by
  decide

end Forest
end Plexil

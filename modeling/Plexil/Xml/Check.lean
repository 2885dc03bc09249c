import Plexil.Xml.Finalize

/-!
# The check of a plan document

The first pass of the parser checks each document by itself: that the names which a node uses
are those of variables, mutexes and nodes in the same document.  Here the checks of a node are
given the nodes which contain it.

The second and the last pass find the variables, mutexes and nodes anew, by climbing the tree
of nodes.
-/

namespace Plexil.Xml

/-! ### Variables -/

/-- How a reference names a variable: as a scalar of a type, or as an array. -/
inductive UseKind where
  | scalar (type : ValueType)
  | array
  deriving DecidableEq

/-- The use of a name. -/
structure Use where
  name : String
  kind : UseKind
  deriving DecidableEq

/-- An `ArrayVariable` which is the array of an `ArrayElement`. -/
def Expr.arrayUses : Expr → List Use
  | .arrayVariable name => [⟨name, .array⟩]
  | .variable _ _ | .elementOf _ _ | .element _ _ | .other _ _ => []

/-- The names which an expression uses, as far as they are checked: an `ArrayVariable` which
stands by itself is not. -/
def Expr.uses : Expr → List Use
  | .variable type name => [⟨name, .scalar type⟩]
  | .arrayVariable _ => []
  | .elementOf name index => ⟨name, .array⟩ :: index.uses
  | .element array index => array.arrayUses ++ array.uses ++ index.uses
  | .other _ _ => []

/-- The declaration is a `DeclareArray`, or a `DeclareVariable`. -/
def UseKind.fits (kind : UseKind) (decl : Declaration) : Bool :=
  match kind with
  | .scalar _ => !decl.type.isArrayType
  | .array => decl.type.isArrayType

/-- The declaration of the kind which a node has for a use. -/
def Header.findDeclaration (header : Header) (use : Use) : Option Declaration :=
  header.variables.find? fun decl => decl.name = use.name && use.kind.fits decl

/-- A scalar variable has to be declared with the type of the reference. -/
def checkUse (containing : List Header) (use : Use) : Bool :=
  match containing.findSome? fun header => header.findDeclaration use with
  | none => false
  | some decl =>
    match use.kind with
    | .scalar type => type = decl.type
    | .array => true

/-! ### Mutexes and nodes -/

/-- A mutex is declared in a node, or global. -/
inductive MutexDeclaration where
  | inNode (path : List Nat)
  | global (name : String)
  deriving DecidableEq

/-- The nearest of the nodes with a mutex of a name. -/
def findLocalMutex (nodes : List NodeInfo) (name : String) : Option MutexDeclaration :=
  nodes.findSome? fun node =>
    if name ∈ node.header.mutexes then some (.inNode node.path) else none

/-- The mutex in the nodes, or the global mutex. -/
def findMutex (globalMutexes : List String) (nodes : List NodeInfo) (name : String) :
    Option MutexDeclaration :=
  (findLocalMutex nodes name).or (if name ∈ globalMutexes then some (.global name) else none)

namespace NodeInfo

/-- The child with a node id. -/
def findChild (node : NodeInfo) (name : String) : Option (List Nat) :=
  (node.childIds.findIdx? fun childId => childId = name).map fun i => i :: node.path

/-- The node itself or its child. -/
def findLocalNodeId (node : NodeInfo) (name : String) : Option (List Nat) :=
  if node.header.nodeId = name then some node.path else node.findChild name

end NodeInfo

/-- The node to which a reference refers, where the nodes are the one with the reference and
its ancestors. -/
def findNode : NodeReference → List NodeInfo → Option (List Nat)
  | .nodeId name, nodes => nodes.findSome? fun node => node.findLocalNodeId name
  | .self, nodes => nodes.head?.map NodeInfo.path
  | .parent, nodes => nodes.tail.head?.map NodeInfo.path
  | .child name, nodes => nodes.head?.bind fun node => node.findChild name
  | .sibling name, nodes => nodes.tail.head?.bind fun node => node.findChild name

/-! ### A node -/

namespace FinalizedNode

/-- The node and all its ancestors in the tree of nodes. -/
def ancestors (node : FinalizedNode) : List NodeInfo := node.containing ++ node.callers

/-- The names which a node uses, each with the expression which has been created. -/
def uses (node : FinalizedNode) : List (Created × Use) :=
  node.created.flatMap fun created => created.expr.uses.map fun use => (created, use)

/-- The checks of the first pass. -/
def checks (node : FinalizedNode) : Bool :=
  (node.uses.all fun u => checkUse node.headers u.2) &&
    (node.header.usingMutex.all fun name =>
      (findMutex node.globalMutexes node.containing name).isSome) &&
    node.header.nodeReferences.all fun ref => (findNode ref node.containing).isSome

end FinalizedNode

/-! ### Plans -/

/-- The last pass of `parsePlan`, on the root node of a plan. -/
def parsePlan (globalMutexes : List String) (root : Node) :
    Except ParserException (List FinalizedNode) :=
  finalizeNode ⟨[], [], [], globalMutexes⟩ [] [] root

/-- A plan which has been accepted, with its nodes.  The global mutexes are those of all
documents. -/
structure AcceptedPlan where
  root : Node
  planMutexes : List String
  globalMutexes : List String
  nodes : List FinalizedNode
  accepted : parsePlan planMutexes root = .ok nodes
  checked : ∀ node ∈ nodes, node.checks = true
  declared : ∀ node ∈ nodes, ∀ name ∈ node.globalMutexes, name ∈ globalMutexes

end Plexil.Xml

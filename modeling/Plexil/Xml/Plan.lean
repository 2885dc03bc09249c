import Plexil.Value.ValueType

/-!
# Plan documents

The elements of a plan document as far as they declare and use names.  A node has its
declarations, what it uses, and a body; a library call has the document of the library which
it calls.

References to variables may be nested in conditions, arguments and other expressions; a node
lists them all.
-/

namespace Plexil

namespace ValueType

def isScalarType (type : ValueType) : Bool :=
  unknown.code < type.code && type.code < scalarMax.code

def isArrayType (type : ValueType) : Bool := array.code < type.code && type.code < arrayMax.code

/-- The type of the elements of an array, or `unknown`. -/
def arrayElementType : ValueType → ValueType
  | booleanArray => boolean
  | integerArray => integer
  | realArray => real
  | stringArray => string
  | _ => unknown

/-- The type of the arrays with elements of a type, or `unknown`. -/
def arrayType : ValueType → ValueType
  | boolean => booleanArray
  | integer => integerArray
  | real => realArray
  | string => stringArray
  | _ => unknown

/-- A value of type `src` can be given where one of type `dest` is expected.  The type `unknown`
goes with every type: as `dest` for a parameter which is declared `Any`, as `src` for what has
not been declared. -/
def areTypesCompatible (dest src : ValueType) : Bool :=
  dest = unknown || src = unknown || dest = src ||
    match dest with
    | date | duration => src = real || src = integer
    | real => src = integer || src = date || src = duration
    | array => src.isArrayType
    | _ => false

end ValueType

namespace Xml

/-- An expression element.  `elementOf` is an `ArrayElement` whose array is given by a `Name`.
What is neither a variable nor an array element is `other`; `created` tells whether an
expression is created for it. -/
inductive Expr where
  | variable (type : ValueType) (name : String)
  | arrayVariable (name : String)
  | elementOf (name : String) (index : Expr)
  | element (array index : Expr)
  | other (type : ValueType) (created : Bool)
  deriving DecidableEq

/-- `DeclareVariable`, or `DeclareArray` when the type is an array type. -/
structure Declaration where
  name : String
  type : ValueType
  initialValue : Option Expr := none
  deriving DecidableEq

/-- The elements of an `Interface`. -/
inductive Direction where
  | in | inOut
  deriving DecidableEq

abbrev InterfaceVar := Direction × Declaration

/-- A `NodeId`, or a `NodeRef` with its direction. -/
inductive NodeReference where
  | nodeId (name : String)
  | self
  | parent
  | child (name : String)
  | sibling (name : String)
  deriving DecidableEq

/-- What a node declares and uses.  `target` is the left hand side of an assignment or the
destination of a command, and `references` are the other references to variables which stand
outside the declarations. -/
structure Header where
  nodeId : String
  interface : List InterfaceVar := []
  declarations : List Declaration := []
  mutexes : List String := []
  usingMutex : List String := []
  references : List Expr := []
  nodeReferences : List NodeReference := []
  target : Option Expr := none
  deriving DecidableEq

/-- A `Node` element.  A call names the library by the id of its root node; it has its aliases,
the global mutexes which the library declares, and that root node. -/
inductive Node where
  | leaf (header : Header)
  | nodeList (header : Header) (children : List Node)
  | libraryNodeCall (header : Header) (aliases : List (String × Expr))
      (globalMutexes : List String) (root : Node)

namespace Node

def header : Node → Header
  | leaf header | nodeList header _ | libraryNodeCall header _ _ _ => header

/-- The ids of the children; that of a call is the library which it calls. -/
def childIds : Node → List String
  | leaf _ => []
  | nodeList _ children => children.map fun child => child.header.nodeId
  | libraryNodeCall _ _ _ root => [root.header.nodeId]

/-- The aliases of a call. -/
def aliases : Node → List (String × Expr)
  | leaf _ | nodeList _ _ => []
  | libraryNodeCall _ aliases _ _ => aliases

end Node

/-! ### Declarations in scope -/

/-- The variables which a node declares. -/
def Header.variables (header : Header) : List Declaration :=
  header.declarations ++ header.interface.map Prod.snd

/-- The name is declared in the interface or in the variable declarations. -/
def Header.declares (header : Header) (name : String) : Bool :=
  header.variables.any fun decl => decl.name = name

/-- The name is declared in `Interface/In`. -/
def Header.declaresIn (header : Header) (name : String) : Bool :=
  header.interface.any fun d => d.1 = .in && d.2.name = name

/-- The nearest of the containing nodes which declares a name; `containing` begins with the
innermost node. -/
def findDeclaring (containing : List Header) (name : String) : Option Header :=
  containing.find? fun header => header.declares name

/-- The variable which an expression names, directly or by an element of an array. -/
def Expr.named : Expr → Option String
  | .variable _ name | .arrayVariable name | .elementOf name _ => some name
  | .element array _ => array.named
  | .other _ _ => none

/-- The variables which an expression names anywhere. -/
def Expr.names : Expr → List String
  | .variable _ name | .arrayVariable name => [name]
  | .elementOf name index => name :: index.names
  | .element array index => array.names ++ index.names
  | .other _ _ => []

/-- The expression is an `ArrayElement`. -/
def Expr.isArrayElement : Expr → Bool
  | .elementOf _ _ | .element _ _ => true
  | .variable _ _ | .arrayVariable _ | .other _ _ => false

/-- The expression names an In parameter of one of the containing nodes. -/
def NamesParameter (containing : List Header) (target : Expr) : Prop :=
  ∃ name header, target.named = some name ∧ findDeclaring containing name = some header ∧
    header.declaresIn name = true

/-! ### Targets -/

/-- The target of a node, with the nodes which contain it. -/
def Header.targets (containing : List Header) (header : Header) : List (List Header × Expr) :=
  header.target.toList.map fun expr => (header :: containing, expr)

mutual

/-- The targets of a node and its descendants, in their documents. -/
def Node.targets (containing : List Header) : Node → List (List Header × Expr)
  | .leaf header => header.targets containing
  | .nodeList header children =>
    header.targets containing ++ targetsOfList (header :: containing) children
  | .libraryNodeCall header _ _ root => header.targets containing ++ root.targets []

def targetsOfList (containing : List Header) : List Node → List (List Header × Expr)
  | [] => []
  | child :: rest => child.targets containing ++ targetsOfList containing rest

end

end Xml

end Plexil

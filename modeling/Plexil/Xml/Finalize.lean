import Plexil.Xml.Plan
import Mathlib.Data.Option.Basic

/-!
# The last pass of the plan parser

`finalizeNode` links the interface variables of a node, and creates its expressions.  The
variables which are accessible in a node are found in its own map and then in those of its
ancestors; the map of a called node ends with the aliases of the call.

A node is known by its path: the positions of the node and its ancestors among the children,
the innermost first.  The left hand sides of assignments and the destinations of commands are
collected.
-/

namespace Plexil.Xml

/-- A variable is known by the node which declares it, and its name. -/
structure VariableKey where
  path : List Nat
  name : String
  deriving DecidableEq

/-- The expressions of the executive, as far as they can stand for a variable. -/
inductive Expression where
  | userVariable (key : VariableKey) (type : ValueType)
  | inAlias (original : Expression)
  | arrayReference (array : Expression)
  | mutableArrayReference (array : Expression)
  | other (type : ValueType)
  deriving DecidableEq

namespace Expression

def valueType : Expression → ValueType
  | userVariable _ type | other type => type
  | inAlias original => original.valueType
  | arrayReference array | mutableArrayReference array => array.valueType.arrayElementType

def isAssignable : Expression → Bool
  | userVariable _ _ | mutableArrayReference _ => true
  | inAlias _ | arrayReference _ | other _ => false

def getBaseExpression : Expression → Expression
  | inAlias original => original.getBaseExpression
  | arrayReference array | mutableArrayReference array => array.getBaseExpression
  | userVariable key type => userVariable key type
  | other type => other type

/-- The array variable to whose element an array reference refers: the base expression, when it
is an array variable. -/
def arrayVariable (array : Expression) : Option VariableKey :=
  match array.getBaseExpression with
  | userVariable key type => if type.isArrayType then some key else none
  | _ => none

end Expression

/-- The errors of the parser. -/
inductive ParserException where
  | noVariable | invalidType | notAnArray | indexNotNumeric | notAssignable | invalidTarget
  | interfaceType | noInitialValue | readOnly | shadows
  deriving DecidableEq

/-- The variables which a node map has by their names. -/
abbrev VariableMap := List (String × Expression)

/-- The map of a node, and those of its ancestors with the innermost first. -/
structure Scope where
  own : VariableMap
  outer : List VariableMap

namespace Scope

/-- All maps, the innermost first. -/
def maps (scope : Scope) : List VariableMap := scope.own :: scope.outer

def findLocalVariable (scope : Scope) (name : String) : Option Expression := scope.own.lookup name

def findVariable (scope : Scope) (name : String) : Option Expression :=
  scope.maps.findSome? fun map => map.lookup name

def addLocalVariable (scope : Scope) (name : String) (var : Expression) :
    Except ParserException Scope :=
  if (scope.findLocalVariable name).isSome then .error .shadows
  else .ok { scope with own := (name, var) :: scope.own }

end Scope

/-! ### Expressions -/

variable (scope : Scope)

/-- Checks on the index of an array element. -/
def checkIndex (index : Expression) : Except ParserException Unit :=
  if index.valueType = .integer ∨ index.valueType = .unknown then .ok ()
  else .error .indexNotNumeric

/-- The array variable given by the name of an `ArrayElement`. -/
def findArray (name : String) : Except ParserException Expression :=
  match scope.findVariable name with
  | none => .error .noVariable
  | some array => if array.valueType.isArrayType then .ok array else .error .notAnArray

def createExpression : Expr → Except ParserException Expression
  | .variable type name =>
    match scope.findVariable name with
    | none => .error .noVariable
    | some result =>
      if type = result.valueType ∨ (type = .real ∧ result.valueType = .integer) then .ok result
      else .error .invalidType
  | .arrayVariable name => findArray scope name
  | .elementOf name index => do
    let array ← findArray scope name
    checkIndex (← createExpression index)
    return .arrayReference array
  | .element arrayXml index => do
    let array ← createExpression arrayXml
    if array.valueType.isArrayType ∨ array.valueType = .unknown then
      checkIndex (← createExpression index)
      return .arrayReference array
    else .error .notAnArray
  | .other type _ => .ok (.other type)

/-- `wasCreated`: the expression is not one which was found. -/
def Expr.creates : Expr → Bool
  | .variable _ _ | .arrayVariable _ => false
  | .elementOf _ _ | .element _ _ => true
  | .other _ created => created

/-- The array element as the target of an assignment. -/
def createMutableArrayReference (expr : Expr) : Except ParserException Expression := do
  match ← createExpression scope expr with
  | .arrayReference array =>
    -- When the array is not assignable an exception is raised here, and caught at once.
    return .mutableArrayReference array
  | result => return result

/-- The expression for a target, which may turn out not to be assignable. -/
def createTarget : Expr → Except ParserException Expression
  | .variable type name => createExpression scope (.variable type name)
  | .arrayVariable name => createExpression scope (.arrayVariable name)
  | .elementOf name index => createMutableArrayReference scope (.elementOf name index)
  | .element array index => createMutableArrayReference scope (.element array index)
  | .other _ _ => .error .invalidTarget

def createAssignable (expr : Expr) : Except ParserException Expression := do
  let result ← createTarget scope expr
  if result.isAssignable then return result else .error .notAssignable

/-! ### Interface variables -/

/-- The variable of a declaration.  Dates and durations are real variables. -/
def newVariable (path : List Nat) (decl : Declaration) : Expression :=
  .userVariable ⟨path, decl.name⟩
    (if decl.type = .date ∨ decl.type = .duration then .real else decl.type)

/-- An expression which has been created: the interface variables of its node which had been
linked before, and the scope at that time. -/
structure Created where
  linked : List InterfaceVar
  scope : Scope
  expr : Expr

/-- An In variable: a read-only alias of the variable of that name, or its default. -/
def linkInVar (decl : Declaration) : Except ParserException Scope :=
  match scope.findVariable decl.name with
  | some inVar =>
    if decl.type ≠ inVar.valueType then .error .interfaceType
    else if inVar.isAssignable then scope.addLocalVariable decl.name (.inAlias inVar)
    else .ok scope
  | none =>
    match decl.initialValue with
    | none => .error .noInitialValue
    | some init => do
      let inVar ← createExpression scope init
      scope.addLocalVariable decl.name
        (if inVar.isAssignable ∨ init.creates = false then .inAlias inVar else inVar)

/-- An InOut variable: the variable of that name, or a new one. -/
def linkInOutVar (path : List Nat) (decl : Declaration) : Except ParserException Scope :=
  match scope.findVariable decl.name with
  | some var =>
    if decl.type ≠ var.valueType then .error .interfaceType
    else if var.isAssignable then .ok scope
    else .error .readOnly
  | none =>
    match decl.initialValue with
    | none => .error .noInitialValue
    | some init => do
      let _ ← createExpression scope init
      -- `DeclareArray` is not accepted where an assignable expression is expected.
      if decl.type.isArrayType then .error .invalidTarget
      else scope.addLocalVariable decl.name (newVariable path decl)

def linkInterfaceVar (path : List Nat) (d : InterfaceVar) : Except ParserException Scope :=
  match d.1 with
  | .in => linkInVar scope d.2
  | .inOut => linkInOutVar scope path d.2

/-- The default of an interface variable is created when there is no variable of its name. -/
def createdDefault (linked : List InterfaceVar) (d : InterfaceVar) : List Created :=
  if (scope.findVariable d.2.name).isSome then []
  else d.2.initialValue.toList.map fun init => ⟨linked, scope, init⟩

/-- The interface variables are linked in the order of the document; those of `linked` have
been linked before. -/
def linkInterface (path : List Nat) (linked : List InterfaceVar) : List InterfaceVar → Scope →
    Except ParserException (Scope × List Created)
  | [], scope => .ok (scope, [])
  | d :: rest, scope => do
    let next ← linkInterfaceVar scope path d
    let (last, created) ← linkInterface path (linked ++ [d]) rest next
    return (last, createdDefault scope linked d ++ created)

/-! ### Nodes -/

/-- The local variables, which have been constructed before. -/
def localVariables (path : List Nat) (header : Header) : VariableMap :=
  header.declarations.map fun decl => (decl.name, newVariable path decl)

/-- A node of the tree of nodes. -/
structure NodeInfo where
  path : List Nat
  header : Header
  childIds : List String

/-- What is around a node in its document, and around the document: the nodes which contain the
node, the nodes which contain the call of the document, both with the innermost first, the names
of the aliases of the call, and the global mutexes of the document. -/
structure Surroundings where
  containing : List NodeInfo
  callers : List NodeInfo
  parameters : List String
  globalMutexes : List String

/-- A node which has been finalized; it is the first of the containing nodes.  The expressions
which have been created are those which are checked; the aliases of a call are not. -/
structure FinalizedNode extends Surroundings where
  header : Header
  scope : Scope
  target : Option Expression
  created : List Created
  aliases : List Created

def Surroundings.headers (around : Surroundings) : List Header :=
  around.containing.map NodeInfo.header

/-- The expression for the target of a node, if it has one. -/
def finalizeTarget : Option Expr → Except ParserException (Option Expression)
  | none => return none
  | some expr => return some (← createAssignable scope expr)

/-- The aliases of a library call. -/
def finalizeAliases (aliases : List (String × Expr)) : Except ParserException VariableMap :=
  aliases.mapM fun a => do return (a.1, ← createExpression scope a.2)

/-- What is done for a node before its children. -/
def finalizeHeader (around : Surroundings) (outer : List VariableMap) (path : List Nat)
    (node : Node) : Except ParserException FinalizedNode := do
  let header := node.header
  let (scope, defaults) ←
    linkInterface path [] header.interface ⟨localVariables path header, outer⟩
  let exprs := header.declarations.filterMap Declaration.initialValue ++ header.references
  let _ ← exprs.mapM (createExpression scope)
  let target ← finalizeTarget scope header.target
  return {
    containing := ⟨path, header, node.childIds⟩ :: around.containing
    callers := around.callers
    parameters := around.parameters
    globalMutexes := around.globalMutexes
    header := header
    scope := scope
    target := target
    created := defaults ++
      (exprs ++ header.target.toList).map fun expr => ⟨header.interface, scope, expr⟩
    aliases := node.aliases.map fun a => ⟨header.interface, scope, a.2⟩ }

mutual

/-- The node and its descendants. -/
def finalizeNode (around : Surroundings) (outer : List VariableMap) (path : List Nat) :
    Node → Except ParserException (List FinalizedNode)
  | .leaf header => do
    let node ← finalizeHeader around outer path (.leaf header)
    return [node]
  | .nodeList header children => do
    let node ← finalizeHeader around outer path (.nodeList header children)
    return node :: (← finalizeListNode node.toSurroundings node.scope.maps path 0 children)
  | .libraryNodeCall header aliases globalMutexes root => do
    let node ← finalizeHeader around outer path (.libraryNodeCall header aliases globalMutexes root)
    -- The called node has the aliases, and no other variables of the caller.
    let aliasMap ← finalizeAliases node.scope aliases
    return node :: (← finalizeNode
      ⟨[], node.containing ++ node.callers, aliases.map Prod.fst, globalMutexes⟩
      [aliasMap] (0 :: path) root)

def finalizeListNode (around : Surroundings) (outer : List VariableMap) (path : List Nat)
    (i : Nat) : List Node → Except ParserException (List FinalizedNode)
  | [] => return []
  | child :: rest => do
    let nodes ← finalizeNode around outer (i :: path) child
    return nodes ++ (← finalizeListNode around outer path (i + 1) rest)

end

end Plexil.Xml

import Plexil.Util.Strtol
import Plexil.Xml.Lookups

/-!
# The check pass

Before anything is constructed the elements of a document are checked: a node, what it declares
and uses, its conditions, and its body, with the nodes of a list one after the other.  The plan of
a library is a document of its own and is checked when it is loaded.
-/

namespace Plexil

namespace Xml

namespace Document

/-! ### Elements -/

/-- A child of a `Resource` element, with the expression in it. -/
structure ResourceField where
  tag : String
  expr : Option ExprElement

/-- The `Resource` elements of a command come first, then its destination, its name and its
arguments. -/
structure CommandElement where
  resources : List (List ResourceField) := []
  destination : Option ExprElement := none
  name : ExprElement
  arguments : Option (List ExprElement) := none

/-- `In` or `InOut` -/
structure InterfaceElement where
  tag : String
  decls : List DeclarationElement

/-- A child of a `Node` element.  The names in `UsingMutex` stand with the tags of their elements.
What is in the body is kept apart. -/
inductive NodeChild where
  | nodeId (text : String)
  | condition (tag : String) (expr : ExprElement)
  | interface (elements : List InterfaceElement)
  | variableDeclarations (decls : List DeclarationElement)
  | usingMutex (names : List (String × String))
  | priority (text : String)
  | nodeBody
  | other (tag : String)

/-- A `Node` element with its children and what the first element of its body has.  A call has the
document of the library which it calls. -/
inductive NodeElement where
  | empty (children : List NodeChild)
  | assignment (children : List NodeChild) (target rhs : ExprElement)
  | command (children : List NodeChild) (command : CommandElement)
  | update (children : List NodeChild) (pairs : List (String × ExprElement))
  | nodeList (children : List NodeChild) (kids : List NodeElement)
  | libraryNodeCall (children : List NodeChild) (callee : String)
      (aliases : List (String × ExprElement)) (declarations : List GlobalDeclaration)
      (root : NodeElement)

namespace NodeChild

def tag : NodeChild → String
  | nodeId _ => "NodeId"
  | condition tag _ => tag
  | interface _ => "Interface"
  | variableDeclarations _ => "VariableDeclarations"
  | usingMutex _ => "UsingMutex"
  | priority _ => "Priority"
  | nodeBody => "NodeBody"
  | other tag => tag

def conditionTags : List String :=
  ["EndCondition", "ExitCondition", "InvariantCondition", "PostCondition", "PreCondition",
    "RepeatCondition", "SkipCondition", "StartCondition"]

/-- They are ignored, however many there are. -/
def annotationTags : List String := ["Assume", "Comment", "Desire", "Expect"]

def interface? : NodeChild → Option (List InterfaceElement)
  | interface elements => some elements
  | _ => none

def declarations? : NodeChild → Option (List DeclarationElement)
  | variableDeclarations decls => some decls
  | _ => none

def usingMutex? : NodeChild → Option (List (String × String))
  | usingMutex names => some names
  | _ => none

/-! The first child of a kind: a second one is not accepted. -/

def findNodeId (children : List NodeChild) : Option String :=
  children.findSome? fun | nodeId text => some text | _ => none

def findInterface (children : List NodeChild) : List InterfaceElement :=
  (children.findSome? interface?).getD []

def findDeclarations (children : List NodeChild) : List DeclarationElement :=
  (children.findSome? declarations?).getD []

def findUsingMutex (children : List NodeChild) : List (String × String) :=
  (children.findSome? usingMutex?).getD []

def findPriority (children : List NodeChild) : Option String :=
  children.findSome? fun | priority text => some text | _ => none

def hasBody (children : List NodeChild) : Bool :=
  children.any fun | nodeBody => true | _ => false

/-- The mutexes which a node declares. -/
def localMutexes (children : List NodeChild) : List String :=
  ((findDeclarations children).filter fun decl => decl.tag = "DeclareMutex").map
    DeclarationElement.name

end NodeChild

namespace NodeElement

def children : NodeElement → List NodeChild
  | empty children | assignment children _ _ | command children _ | update children _ => children
  | nodeList children _ | libraryNodeCall children _ _ _ _ => children

def nodeId (node : NodeElement) : String := (NodeChild.findNodeId node.children).getD ""

end NodeElement

variable (factories : Factories) (table : SymbolTable)

/-! ### Commands -/

/-- The expression in a child of a `Resource` element has one of the types. -/
def checkResourceField (field : ResourceField) (accepts : ValueType → Bool) :
    Except ParserError Unit :=
  match field.expr with
  | none => .error .resourceEmpty
  | some expr => do
    let type ← checkExpression factories table .unknown expr
    checkThat (accepts type) (.resourceType field.tag)

/-- Tells whether there have been a name and a priority.  The variables for an upper bound and for
a release flag are new for each child, so that a duplicate of them is never noticed. -/
def checkResourceFields (name prio : Bool) : List ResourceField → Except ParserError (Bool × Bool)
  | [] => .ok (name, prio)
  | field :: rest =>
    if field.tag = "ResourceName" then do
      checkThat (!name) (.duplicateResource field.tag)
      checkResourceField factories table field fun type => type = .string || type = .unknown
      checkResourceFields true prio rest
    else if field.tag = "ResourcePriority" then do
      checkThat (!prio) (.duplicateResource field.tag)
      checkResourceField factories table field fun type => type.isNumericType || type = .unknown
      checkResourceFields name true rest
    else if field.tag = "ResourceUpperBound" then do
      checkResourceField factories table field fun type => type.isNumericType || type = .unknown
      checkResourceFields name prio rest
    else if field.tag = "ResourceReleaseAtTermination" then do
      checkResourceField factories table field fun type =>
        ValueType.areTypesCompatible .boolean type
      checkResourceFields name prio rest
    else .error (.invalidResource field.tag)

def checkResource (fields : List ResourceField) : Except ParserError Unit := do
  let seen ← checkResourceFields factories table false false fields
  checkThat seen.1 .noResourceName
  checkThat seen.2 .noResourcePriority

/-- The name of a resource, if it is a literal. -/
def resourceName (fields : List ResourceField) : Option String :=
  (fields.find? fun field => field.tag = "ResourceName").bind fun field =>
    field.expr.bind ExprElement.literal

def checkResourceNames : List (List ResourceField) → Except ParserError Unit
  | [] => .ok ()
  | fields :: rest => do
    match resourceName fields with
    | none => .ok ()
    | some name =>
      checkThat (rest.all fun other => resourceName other ≠ some name) (.duplicateResourceName name)
    checkResourceNames rest

def checkResourceList (resources : List (List ResourceField)) : Except ParserError Unit := do
  resources.forM (checkResource factories table)
  checkResourceNames resources

/-- The symbol of a command whose name is a literal. -/
def commandSymbol (command : CommandElement) : Option Symbol :=
  command.name.literal.bind table.getCommand

def checkCommandBody (command : CommandElement) : Except ParserError Unit := do
  checkResourceList factories table command.resources
  let varType ← match command.destination with
    | none => .ok .unknown
    | some dest => checkExpression factories table .unknown dest
  let nameType ← checkExpression factories table .unknown command.name
  checkThat (ValueType.areTypesCompatible .string nameType) .commandName
  checkThat (command.destination.isNone || (commandSymbol table command).all fun symbol =>
    ValueType.areTypesCompatible varType symbol.returnType) .resultType
  -- The arguments are counted when the command is finalized.
  let _ ← checkExpressions factories table (command.arguments.getD [])

/-! ### Other bodies -/

def checkAssignmentBody (target rhs : ExprElement) : Except ParserError Unit := do
  let lht ← checkExpression factories table .unknown target
  let rht ← checkExpression factories table lht rhs
  checkThat (ValueType.areTypesCompatible lht rht) .assignmentType

/-- The names stand once each. -/
def checkDuplicates (error : String → ParserError) : List String → Except ParserError Unit
  | [] => .ok ()
  | name :: rest => do
    checkThat (name ∉ rest) (error name)
    checkDuplicates error rest

def checkUpdateBody (pairs : List (String × ExprElement)) : Except ParserError Unit := do
  pairs.forM fun (name, value) => do
    checkThat (name ≠ "") .updateName
    let _ ← checkExpression factories table .unknown value
  checkDuplicates .duplicateUpdate (pairs.map Prod.fst)

/-- The values of the aliases are not checked. -/
def checkLibraryCall (callee : String) (aliases : List (String × ExprElement)) :
    Except ParserError Unit := do
  checkThat (callee ≠ "") .emptyCallee
  aliases.forM fun (name, _) => checkThat (name ≠ "") .emptyAlias
  checkDuplicates .duplicateAlias (aliases.map Prod.fst)

/-! ### Declarations -/

def checkVariableDeclaration (decl : DeclarationElement) : Except ParserError Unit := do
  checkThat (decl.tag = "DeclareVariable" || decl.tag = "DeclareArray")
    (.invalidDeclaration decl.tag)
  checkThat (decl.name ≠ "") .emptyDeclarationName
  checkThat decl.type.isScalarType .declarationType
  let _ ← factories.checkDeclaration decl

def checkVariableDeclarations (decls : List DeclarationElement) : Except ParserError Unit :=
  decls.forM fun decl =>
    if decl.tag = "DeclareMutex" then checkThat (decl.name ≠ "") .emptyDeclarationName
    else checkVariableDeclaration factories decl

def checkInterface (elements : List InterfaceElement) : Except ParserError Unit :=
  elements.forM fun element => do
    checkThat (element.tag = "In" || element.tag = "InOut") (.illegalInterface element.tag)
    element.decls.forM (checkVariableDeclaration factories)

/-- Gathers the names of declarations, each of which must not be one of the others or one which
has been gathered. -/
def gatherNames (others names : List String) :
    List DeclarationElement → Except ParserError (List String)
  | [] => .ok names
  | decl :: rest => do
    checkThat (decl.name ∉ others && decl.name ∉ names) (.nameConflict decl.name)
    gatherNames others (names ++ [decl.name]) rest

/-- The declarations in the first element with a tag. -/
def firstDecls (tag : String) (elements : List InterfaceElement) : List DeclarationElement :=
  ((elements.find? fun element => element.tag = tag).map InterfaceElement.decls).getD []

def checkVariableNameConflicts (decls : List DeclarationElement)
    (elements : List InterfaceElement) : Except ParserError Unit := do
  let inNames ← gatherNames [] [] (firstDecls "In" elements)
  let inOutNames ← gatherNames inNames [] (firstDecls "InOut" elements)
  let _ ← gatherNames (inNames ++ inOutNames) [] decls

/-- A text which `strtoul` reads to its end, as a number which fits. -/
def isPriority (text : String) : Bool :=
  let (negative, s) := Strtol.splitSign (text.toList.dropWhile Strtol.isSpace)
  let n := Strtol.value 10 (s.takeWhile (Strtol.isDigit 10))
  !(s.takeWhile (Strtol.isDigit 10)).isEmpty && (s.dropWhile (Strtol.isDigit 10)).isEmpty &&
    n < 2 ^ 64 && (if negative then (2 ^ 64 - n) % 2 ^ 64 else n) < 2 ^ 31 - 1

/-- The mutexes in scope are those of the node, of the nodes which contain it, and the global
ones. -/
def checkUsingMutex (scope names : List String) : List (String × String) → Except ParserError Unit
  | [] => .ok ()
  | (tag, name) :: rest => do
    checkThat (tag = "Name") .illegalMutex
    checkThat (name ≠ "") .emptyMutexName
    checkThat (name ∉ names) (.duplicateMutex name)
    checkThat (name ∈ scope) (.noMutex name)
    checkUsingMutex scope (names ++ [name]) rest

/-! ### Nodes -/

/-- Checks a child of a node behind children with the given tags. -/
def scanChild (isAssignment : Bool) (seen : List String) : NodeChild → Except ParserError Unit
  | .condition tag expr => do
    checkThat (tag ∈ NodeChild.conditionTags) (.illegalElement tag)
    checkThat (tag ∉ seen) (.duplicateElement tag)
    let type ← checkExpression factories table .unknown expr
    checkThat (ValueType.areTypesCompatible .boolean type) (.conditionType tag)
  | .nodeId text => do
    checkThat ("NodeId" ∉ seen) (.duplicateElement "NodeId")
    checkThat (text ≠ "") .emptyNodeId
  | .priority _ => do
    checkThat isAssignment .priorityNotAllowed
    checkThat ("Priority" ∉ seen) (.duplicateElement "Priority")
  | .other tag => checkThat (tag ∈ NodeChild.annotationTags) (.illegalElement tag)
  | child => checkThat (child.tag ∉ seen) (.duplicateElement child.tag)

def scanChildren (isAssignment : Bool) (seen : List String) :
    List NodeChild → Except ParserError Unit
  | [] => .ok ()
  | child :: rest => do
    scanChild factories table isAssignment seen child
    scanChildren isAssignment (child.tag :: seen) rest

/-- Checks the children of a node. -/
def checkChildren (scope : List String) (isAssignment needsBody : Bool)
    (children : List NodeChild) : Except ParserError Unit := do
  scanChildren factories table isAssignment [] children
  checkThat (NodeChild.findNodeId children).isSome .noNodeId
  checkVariableDeclarations factories (NodeChild.findDeclarations children)
  checkInterface factories (NodeChild.findInterface children)
  checkVariableNameConflicts (NodeChild.findDeclarations children)
    (NodeChild.findInterface children)
  checkThat ((NodeChild.findPriority children).all isPriority) .priorityInvalid
  checkUsingMutex (NodeChild.localMutexes children ++ scope) [] (NodeChild.findUsingMutex children)
  checkThat (NodeChild.hasBody children = needsBody)
    (if needsBody then .noBody else .bodyNotAllowed)

mutual

/-- The scope has the mutexes of the nodes around the node and the global ones. -/
def checkNode (scope : List String) : NodeElement → Except ParserError Unit
  | .empty children => checkChildren factories table scope false false children
  | .assignment children target rhs => do
    checkChildren factories table scope true true children
    checkAssignmentBody factories table target rhs
  | .command children command => do
    checkChildren factories table scope false true children
    checkCommandBody factories table command
  | .update children pairs => do
    checkChildren factories table scope false true children
    checkUpdateBody factories table pairs
  | .nodeList children kids => do
    checkChildren factories table scope false true children
    checkChildNodes (NodeChild.localMutexes children ++ scope) [] kids
  | .libraryNodeCall children callee aliases _ _ => do
    checkChildren factories table scope false true children
    checkLibraryCall callee aliases

/-- The ids of the children are compared with those in front.  To the id of the parent they are
compared as pointers, which differ always. -/
def checkChildNodes (scope nodeIds : List String) : List NodeElement → Except ParserError Unit
  | [] => .ok ()
  | kid :: rest => do
    checkNode scope kid
    checkThat (kid.nodeId ∉ nodeIds) (.duplicateNodeId kid.nodeId)
    checkChildNodes scope (nodeIds ++ [kid.nodeId]) rest

end

/-- The symbol table of a document which is accepted. -/
def checkPlan (declarations : List GlobalDeclaration) (root : NodeElement) :
    Except ParserError SymbolTable := do
  let table ← parseGlobalDeclarations declarations
  checkNode factories table table.mutexes root
  return table

end Document

end Xml

end Plexil

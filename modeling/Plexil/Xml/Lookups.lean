import Plexil.Intfc.CachedValue
import Plexil.Util.Exceptions
import Plexil.Xml.Plan

/-!
# Lookups and declared symbols

The global declarations of a document declare commands and lookups with the types of their
parameters.  A lookup whose name is a literal is compared with its declaration twice: when the
document is checked, and when the expression is created.  Both times the types of the arguments
are those which the pass in question gives to them.

What the factories of the other expressions do is left open.
-/

namespace Plexil

namespace Xml

namespace Document

/-- The errors of the two passes. -/
inductive ParserError where
  | commandDeclared (name : String) | lookupDeclared (name : String) | mutexDeclared (name : String)
  | lookupName | toleranceNotAllowed | toleranceType
  | argumentType (index : Nat) | notEnoughArguments | tooManyArguments | argumentCount
  | notAssignable | commandName | resultType
  | invalidResource (tag : String) | duplicateResource (tag : String) | resourceEmpty
  | resourceType (tag : String) | noResourceName | noResourcePriority
  | duplicateResourceName (name : String)
  | conditionType (tag : String) | duplicateElement (tag : String) | illegalElement (tag : String)
  | emptyNodeId | noNodeId | priorityNotAllowed | priorityInvalid
  | invalidDeclaration (tag : String) | emptyDeclarationName | declarationType
  | illegalInterface (tag : String) | nameConflict (name : String)
  | illegalMutex | emptyMutexName | duplicateMutex (name : String) | noMutex (name : String)
  | bodyNotAllowed | noBody | duplicateNodeId (name : String)
  | assignmentType | updateName | duplicateUpdate (name : String)
  | emptyCallee | emptyAlias | duplicateAlias (name : String)
  | other (message : String)
  deriving DecidableEq

/-- `checkParserException` -/
def checkThat (condition : Bool) (error : ParserError) : Except ParserError Unit :=
  if condition then .ok () else .error error

@[simp] theorem checkThat_eq_ok {condition : Bool} {error : ParserError} {u : Unit} :
  checkThat condition error = .ok u ↔ condition = true
  := by
  cases condition <;> simp [checkThat]

/-! ### Symbols -/

/-- A declared command or lookup. -/
structure Symbol where
  name : String
  paramTypes : List ValueType := []
  returnType : ValueType := .unknown
  anyParameters : Bool := false

namespace Symbol

def parameterCount (symbol : Symbol) : Nat := symbol.paramTypes.length

/-- It is only asked for parameters which there are. -/
def parameterType (symbol : Symbol) (n : Nat) : ValueType := symbol.paramTypes.getD n .unknown

/-- Check of an argument count against the declaration. -/
def acceptsCount (symbol : Symbol) (n : Nat) : Bool :=
  n = symbol.parameterCount || symbol.anyParameters && symbol.parameterCount < n

end Symbol

structure SymbolTable where
  commands : List Symbol := []
  lookups : List Symbol := []
  mutexes : List String := []

namespace SymbolTable

def getCommand (table : SymbolTable) (name : String) : Option Symbol :=
  table.commands.find? fun symbol => symbol.name = name

def getLookup (table : SymbolTable) (name : String) : Option Symbol :=
  table.lookups.find? fun symbol => symbol.name = name

end SymbolTable

/-- `Return` or `Parameter`, with the type which its type name has; that of `Any` is unknown. -/
structure ValueDeclaration where
  type : ValueType
  maxSize : Bool := false

def parseValueDeclaration (decl : ValueDeclaration) : ValueType :=
  if decl.maxSize then decl.type.arrayType else decl.type

/-- The elements of `GlobalDeclarations`; those of library nodes declare nothing else. -/
inductive GlobalDeclaration where
  | command (name : String) (returnValue : Option ValueDeclaration)
      (parameters : List ValueDeclaration) (anyParameters : Bool)
  | state (name : String) (returnValue : ValueDeclaration)
      (parameters : List ValueDeclaration) (anyParameters : Bool)
  | mutex (name : String)
  | libraryNode

def parseGlobalDeclaration (table : SymbolTable) :
    GlobalDeclaration → Except ParserError SymbolTable
  | .command name returnValue parameters anyParameters => do
    checkThat (table.getCommand name).isNone (.commandDeclared name)
    return { table with
      commands := ⟨name, parameters.map parseValueDeclaration,
        (returnValue.map parseValueDeclaration).getD .unknown, anyParameters⟩ :: table.commands }
  | .state name returnValue parameters anyParameters => do
    checkThat (table.getLookup name).isNone (.lookupDeclared name)
    return { table with
      lookups := ⟨name, parameters.map parseValueDeclaration,
        parseValueDeclaration returnValue, anyParameters⟩ :: table.lookups }
  | .mutex name => do
    checkThat (name ∉ table.mutexes) (.mutexDeclared name)
    return { table with mutexes := name :: table.mutexes }
  | .libraryNode => .ok table

def parseGlobalDeclarations (decls : List GlobalDeclaration) : Except ParserError SymbolTable :=
  decls.foldlM parseGlobalDeclaration {}

/-! ### Expressions -/

/-- An expression element.  A lookup has its name and its tolerance, which is a list of at most
one expression, and its arguments; `hasArguments` tells whether there is an `Arguments` element.
The children of another expression are the expressions which are checked and created for it; the
rest of what it holds is in its text. -/
inductive ExprElement where
  | stringValue (text : String)
  | lookup (onChange : Bool) (name : ExprElement) (tolerance : List ExprElement)
      (hasArguments : Bool) (arguments : List ExprElement)
  | other (tag text : String) (children : List ExprElement)

namespace ExprElement

/-- The text of a string literal. -/
def literal : ExprElement → Option String
  | stringValue text => some text
  | lookup _ _ _ _ _ | other _ _ _ => none

end ExprElement

/-- An expression of the run time.  A constant may have a known value which is a string. -/
structure CreatedExpr where
  valueType : ValueType
  isConstant : Bool := false
  stringValue : Option String := none

/-- `DeclareVariable`, `DeclareArray` or `DeclareMutex`.  An initial value has a tag and a text: it
is a literal or a variable. -/
structure DeclarationElement where
  tag : String
  name : String
  type : ValueType := .unknown
  initialValue : Option (String × String) := none

/-- The factories of the expressions other than string literals and lookups.  They are given the
types of the children, or what has been created for the children of a node at a place in the
plan. -/
structure Factories where
  checkDeclaration : DeclarationElement → Except ParserError ValueType
  check : String → String → List ValueType → ValueType → Except ParserError ValueType
  allocate : List Nat → String → String → List CreatedExpr → ValueType →
    Except ParserError CreatedExpr
  createAssignable : List Nat → String → String → List CreatedExpr →
    Except ParserError CreatedExpr

variable (factories : Factories) (table : SymbolTable)

/-- The symbol of a lookup whose name is a literal. -/
def literalSymbol (name : ExprElement) : Option Symbol := name.literal.bind table.getLookup

mutual

/-- The type of an expression in the check pass. -/
def checkExpression (desiredType : ValueType) : ExprElement → Except ParserError ValueType
  | .stringValue _ => .ok .string
  | .lookup onChange name tolerance hasArguments arguments => do
    let nameType ← checkExpression .unknown name
    checkThat (nameType = .string || nameType = .unknown) .lookupName
    checkThat (tolerance.isEmpty || onChange) .toleranceNotAllowed
    let toleranceTypes ← checkExpressions tolerance
    checkThat (toleranceTypes.all fun type => type.isNumericType || type = .unknown) .toleranceType
    -- Without arguments nothing is compared with the declaration.
    if hasArguments then checkArguments (literalSymbol table name) 0 arguments
    return ((literalSymbol table name).map Symbol.returnType).getD .unknown
  | .other tag text children => do
    factories.check tag text (← checkExpressions children) desiredType

def checkExpressions : List ExprElement → Except ParserError (List ValueType)
  | [] => .ok []
  | expr :: rest => do return (← checkExpression .unknown expr) :: (← checkExpressions rest)

/-- The arguments from an index on. -/
def checkArguments (symbol : Option Symbol) (i : Nat) :
    List ExprElement → Except ParserError Unit
  | [] => checkThat (symbol.all fun symbol => symbol.parameterCount ≤ i) .notEnoughArguments
  | arg :: rest => do
    checkThat (symbol.all fun symbol => i < symbol.parameterCount || symbol.anyParameters)
      .tooManyArguments
    let type ← checkExpression .unknown arg
    checkThat (symbol.all fun symbol => symbol.parameterCount ≤ i ||
      ValueType.areTypesCompatible (symbol.parameterType i) type) (.argumentType i)
    checkArguments symbol (i + 1) rest

end

mutual

/-- Creates an expression for a node at a place in the plan. -/
def createExpression (path : List Nat) (returnType : ValueType) :
    ExprElement → Except ParserError CreatedExpr
  | .stringValue text => .ok ⟨.string, true, some text⟩
  | .lookup _ name tolerance _ arguments => do
    let stateName ← createExpression path .unknown name
    checkThat (stateName.valueType = .string || stateName.valueType = .unknown) .lookupName
    let symbol := if stateName.isConstant then stateName.stringValue.bind table.getLookup else none
    checkThat (symbol.all fun symbol => symbol.acceptsCount arguments.length) .argumentCount
    let _ ← createArguments path symbol 0 arguments
    let created ← createExpressions path tolerance
    checkThat (created.all fun expr => expr.valueType.isNumericType || expr.valueType = .unknown)
      .toleranceType
    return ⟨(symbol.map Symbol.returnType).getD returnType, false, none⟩
  | .other tag text children => do
    factories.allocate path tag text (← createExpressions path children) returnType

def createExpressions (path : List Nat) : List ExprElement → Except ParserError (List CreatedExpr)
  | [] => .ok []
  | expr :: rest => do
    return (← createExpression path .unknown expr) :: (← createExpressions path rest)

/-- The arguments from an index on. -/
def createArguments (path : List Nat) (symbol : Option Symbol) (i : Nat) :
    List ExprElement → Except ParserError (List CreatedExpr)
  | [] => .ok []
  | arg :: rest => do
    let created ← createExpression path .unknown arg
    checkThat (symbol.all fun symbol => symbol.parameterCount ≤ i ||
      ValueType.areTypesCompatible (symbol.parameterType i) created.valueType) (.argumentType i)
    return created :: (← createArguments path symbol (i + 1) rest)

end

/-! ### Declared parameters -/

/-- Arguments of these types are what the declaration says: as many as the parameters, or at least
as many when there may be any others, and of compatible types. -/
structure Symbol.Accepts (symbol : Symbol) (types : List ValueType) : Prop where
  count : types.length = symbol.parameterCount ∨
    symbol.anyParameters = true ∧ symbol.parameterCount ≤ types.length
  types : ∀ i type, i < symbol.parameterCount → types[i]? = some type →
    ValueType.areTypesCompatible (symbol.parameterType i) type = true

namespace ExprElement

mutual

/-- The names of the lookups in an expression, with their arguments. -/
def lookups : ExprElement → List (ExprElement × List ExprElement)
  | stringValue _ => []
  | lookup _ name tolerance _ arguments =>
    (name, arguments) :: (name.lookups ++ lookupsOfList tolerance ++ lookupsOfList arguments)
  | other _ _ children => lookupsOfList children

def lookupsOfList : List ExprElement → List (ExprElement × List ExprElement)
  | [] => []
  | expr :: rest => expr.lookups ++ lookupsOfList rest

end

end ExprElement

/-- The type of the expression which is created. -/
def createdType (path : List Nat) (expr : ExprElement) : ValueType :=
  match createExpression factories table path .unknown expr with
  | .ok created => created.valueType
  | .error _ => .unknown

/-- Where the name of a lookup is the literal name of a declared one, the declaration accepts the
arguments. -/
def LookupEnforced (path : List Nat) (lookup : ExprElement × List ExprElement) : Prop :=
  ∀ text symbol, lookup.1.literal = some text → table.getLookup text = some symbol →
    symbol.Accepts (lookup.2.map (createdType factories table path))

section

variable {factories : Factories} {table : SymbolTable} {path : List Nat}

theorem Symbol.acceptsCount_iff {symbol : Symbol} {n : Nat} :
  symbol.acceptsCount n = true ↔
    n = symbol.parameterCount ∨ symbol.anyParameters = true ∧ symbol.parameterCount ≤ n
  := by
  unfold Symbol.acceptsCount
  rw [Bool.or_eq_true, Bool.and_eq_true, decide_eq_true_iff, decide_eq_true_iff]
  constructor
  · rintro (h | ⟨hany, h⟩)
    · exact .inl h
    · exact .inr ⟨hany, h.le⟩
  · rintro (h | ⟨hany, h⟩)
    · exact .inl h
    · rcases h.eq_or_lt with h | h
      · exact .inl h.symm
      · exact .inr ⟨hany, h⟩

theorem createdType_eq {expr : ExprElement} {created : CreatedExpr}
    (h : createExpression factories table path .unknown expr = .ok created) :
  createdType factories table path expr = created.valueType
  := by
  unfold createdType
  rw [h]

/-- The arguments from an index on have the types which are declared. -/
theorem types_of_createArguments {symbol : Symbol} {i : Nat} {args : List ExprElement}
    {created : List CreatedExpr}
    (h : createArguments factories table path (some symbol) i args = .ok created) :
  ∀ j arg, i + j < symbol.parameterCount → args[j]? = some arg →
    ValueType.areTypesCompatible (symbol.parameterType (i + j))
      (createdType factories table path arg) = true
  := by
  induction args generalizing i created with
  | nil =>
    intro j arg _ harg
    contradiction
  | cons first rest ih =>
    rw [createArguments] at h
    obtain ⟨c, hcreate, h⟩ := Except.bind_eq_ok.mp h
    obtain ⟨_, hcheck, h⟩ := Except.bind_eq_ok.mp h
    obtain ⟨cs, hrest, -⟩ := Except.bind_eq_ok.mp h
    intro j arg hj harg
    cases j with
    | zero =>
      obtain rfl : first = arg := Option.some.inj harg
      rw [checkThat_eq_ok, Option.all_some, Bool.or_eq_true, decide_eq_true_iff] at hcheck
      rw [createdType_eq hcreate]
      exact hcheck.resolve_left (Nat.not_le.mpr hj)
    | succ j =>
      have hnext := ih hrest j arg (by omega) harg
      rwa [show i + 1 + j = i + (j + 1) by omega] at hnext

/-- Arguments which have been counted and created are accepted. -/
theorem accepts_of_createArguments {symbol : Symbol} {args : List ExprElement}
    {created : List CreatedExpr} (hcount : symbol.acceptsCount args.length = true)
    (h : createArguments factories table path (some symbol) 0 args = .ok created) :
  symbol.Accepts (args.map (createdType factories table path))
  := by
  constructor
  · rw [List.length_map]
    exact Symbol.acceptsCount_iff.mp hcount
  · intro i type hi htype
    rw [List.getElem?_map] at htype
    obtain ⟨arg, harg, rfl⟩ := Option.map_eq_some_iff.mp htype
    have htypes := types_of_createArguments h i arg (by omega) harg
    rwa [Nat.zero_add] at htypes

mutual

/-- The declarations accept the arguments of all lookups which are created. -/
theorem enforced_of_createExpression {returnType : ValueType} {expr : ExprElement}
    {created : CreatedExpr}
    (h : createExpression factories table path returnType expr = .ok created) :
  ∀ lookup ∈ expr.lookups, LookupEnforced factories table path lookup
  := by
  intro lookup hlookup
  cases expr with
  | stringValue text => contradiction
  | other tag text children =>
    rw [createExpression] at h
    obtain ⟨cs, hchildren, -⟩ := Except.bind_eq_ok.mp h
    exact enforced_of_createExpressions hchildren lookup hlookup
  | lookup onChange name tolerance hasArguments arguments =>
    rw [createExpression] at h
    obtain ⟨stateName, hname, h⟩ := Except.bind_eq_ok.mp h
    obtain ⟨_, -, h⟩ := Except.bind_eq_ok.mp h
    obtain ⟨_, hcount, h⟩ := Except.bind_eq_ok.mp h
    obtain ⟨cs, harguments, h⟩ := Except.bind_eq_ok.mp h
    obtain ⟨cs', htolerance, -⟩ := Except.bind_eq_ok.mp h
    rw [ExprElement.lookups, List.mem_cons, List.mem_append, List.mem_append] at hlookup
    rcases hlookup with rfl | (hlookup | hlookup) | hlookup
    · intro text symbol hliteral hsymbol
      cases name with
      | stringValue text' =>
        cases hliteral
        cases hname
        simp only [if_true, Option.bind_some, hsymbol, checkThat_eq_ok, Option.all_some]
          at hcount harguments
        exact accepts_of_createArguments hcount harguments
      | lookup _ _ _ _ _ => contradiction
      | other _ _ _ => contradiction
    · exact enforced_of_createExpression hname lookup hlookup
    · exact enforced_of_createExpressions htolerance lookup hlookup
    · exact enforced_of_createArguments harguments lookup hlookup

theorem enforced_of_createExpressions {exprs : List ExprElement} {created : List CreatedExpr}
    (h : createExpressions factories table path exprs = .ok created) :
  ∀ lookup ∈ ExprElement.lookupsOfList exprs, LookupEnforced factories table path lookup
  := by
  intro lookup hlookup
  cases exprs with
  | nil => contradiction
  | cons expr rest =>
    rw [createExpressions] at h
    obtain ⟨c, hexpr, h⟩ := Except.bind_eq_ok.mp h
    obtain ⟨cs, hrest, -⟩ := Except.bind_eq_ok.mp h
    rcases List.mem_append.mp hlookup with hlookup | hlookup
    · exact enforced_of_createExpression hexpr lookup hlookup
    · exact enforced_of_createExpressions hrest lookup hlookup

theorem enforced_of_createArguments {symbol : Option Symbol} {i : Nat} {args : List ExprElement}
    {created : List CreatedExpr}
    (h : createArguments factories table path symbol i args = .ok created) :
  ∀ lookup ∈ ExprElement.lookupsOfList args, LookupEnforced factories table path lookup
  := by
  intro lookup hlookup
  cases args with
  | nil => contradiction
  | cons arg rest =>
    rw [createArguments] at h
    obtain ⟨c, harg, h⟩ := Except.bind_eq_ok.mp h
    obtain ⟨_, -, h⟩ := Except.bind_eq_ok.mp h
    obtain ⟨cs, hrest, -⟩ := Except.bind_eq_ok.mp h
    rcases List.mem_append.mp hlookup with hlookup | hlookup
    · exact enforced_of_createExpression harg lookup hlookup
    · exact enforced_of_createArguments hrest lookup hlookup

end

end

end Document

end Xml

end Plexil

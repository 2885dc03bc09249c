import Plexil.Xml.CheckNode

/-!
# Declared interfaces

When a plan is finalized the expressions in it are created, and the commands and lookups whose
names are literals are compared with their declarations.  A library is finalized with its own
declarations.

The number of arguments of a lookup is always compared with the declaration, and that of a command
only when there is an `Arguments` element.
-/

namespace Plexil

namespace Xml

namespace Document

variable (factories : Factories) (table : SymbolTable)

/-! ### Finalization -/

/-- Only a variable or an element of an array is a target. -/
def createAssignable (path : List Nat) : ExprElement → Except ParserError CreatedExpr
  | .other tag text children => do
    factories.createAssignable path tag text (← createExpressions factories table path children)
  | .stringValue _ | .lookup _ _ _ _ _ => .error .notAssignable

/-- The type for an expression in a child of a `Resource` element. -/
def acceptsResource (tag : String) (type : ValueType) : Bool :=
  type = .unknown ||
    if tag = "ResourceName" then type = .string
    else if tag = "ResourcePriority" then type = .integer
    else if tag = "ResourceUpperBound" then type.isNumericType
    else type = .boolean

def finalizeResourceField (path : List Nat) (field : ResourceField) : Except ParserError Unit :=
  match field.expr with
  | none => .error .resourceEmpty
  | some expr => do
    let created ← createExpression factories table path .unknown expr
    checkThat (acceptsResource field.tag created.valueType) (.resourceType field.tag)

def createDestination (path : List Nat) :
    Option ExprElement → Except ParserError (Option CreatedExpr)
  | none => .ok none
  | some dest => do return some (← createAssignable factories table path dest)

/-- The arguments are only counted when there is an element for them. -/
def finalizeArguments (path : List Nat) (symbol : Option Symbol) :
    Option (List ExprElement) → Except ParserError Unit
  | none => .ok ()
  | some arguments => do
    checkThat (symbol.all fun symbol => symbol.acceptsCount arguments.length) .argumentCount
    let _ ← createArguments factories table path symbol 0 arguments

/-- The symbol of a command whose name is a constant; a constant without a value has a text too. -/
def constantSymbol (name : CreatedExpr) : Option Symbol :=
  if name.isConstant && name.valueType = .string then
    table.getCommand (name.stringValue.getD "[unknown_value]")
  else none

def finalizeCommand (path : List Nat) (command : CommandElement) : Except ParserError Unit := do
  command.resources.flatten.forM (finalizeResourceField factories table path)
  let dest ← createDestination factories table path command.destination
  let name ← createExpression factories table path .unknown command.name
  checkThat (name.valueType = .string || name.valueType = .unknown) .commandName
  checkThat ((constantSymbol table name).all fun symbol =>
    dest.all fun dest => ValueType.areTypesCompatible dest.valueType symbol.returnType) .resultType
  finalizeArguments factories table path (constantSymbol table name) command.arguments

def finalizeAssignment (path : List Nat) (target rhs : ExprElement) :
    Except ParserError Unit := do
  let var ← createAssignable factories table path target
  let value ← createExpression factories table path var.valueType rhs
  checkThat (ValueType.areTypesCompatible var.valueType value.valueType) .assignmentType

/-- Creates the expressions of which nothing is asked. -/
def finalizeValues (path : List Nat) (values : List ExprElement) : Except ParserError Unit := do
  let _ ← createExpressions factories table path values

def createCondition (path : List Nat) : NodeChild → Except ParserError Unit
  | .condition tag expr => do
    let created ← createExpression factories table path .unknown expr
    checkThat (created.valueType = .boolean || created.valueType = .unknown) (.conditionType tag)
  | _ => .ok ()

def createConditions (path : List Nat) (children : List NodeChild) : Except ParserError Unit :=
  children.forM (createCondition factories table path)

namespace NodeElement

mutual

/-- Finalizes a node at a place in the plan.  Interface variables and initial values are left out,
as no command or lookup is in them. -/
def finalizeNode (table : SymbolTable) (path : List Nat) : NodeElement → Except ParserError Unit
  | empty children => createConditions factories table path children
  | assignment children target rhs => do
    createConditions factories table path children
    finalizeAssignment factories table path target rhs
  | command children cmd => do
    createConditions factories table path children
    finalizeCommand factories table path cmd
  | update children pairs => do
    createConditions factories table path children
    finalizeValues factories table path (pairs.map Prod.snd).reverse
  | nodeList children kids => do
    createConditions factories table path children
    finalizeListNode table path 0 kids
  | libraryNodeCall children _ aliases declarations root => do
    createConditions factories table path children
    finalizeValues factories table path (aliases.map Prod.snd)
    -- The symbol table was made when the library was checked.
    let libraryTable ← parseGlobalDeclarations declarations
    finalizeNode libraryTable (0 :: path) root

def finalizeListNode (table : SymbolTable) (path : List Nat) (i : Nat) :
    List NodeElement → Except ParserError Unit
  | [] => .ok ()
  | kid :: rest => do
    finalizeNode table (i :: path) kid
    finalizeListNode table path (i + 1) rest

end

mutual

/-- The libraries which a node calls are loaded and checked while it is constructed. -/
def loadLibraries : NodeElement → Except ParserError Unit
  | empty _ | assignment _ _ _ | command _ _ | update _ _ => .ok ()
  | nodeList _ kids => loadLibrariesOfList kids
  | libraryNodeCall _ _ _ declarations root => do
    let _ ← checkPlan factories declarations root
    loadLibraries root

def loadLibrariesOfList : List NodeElement → Except ParserError Unit
  | [] => .ok ()
  | kid :: rest => do
    loadLibraries kid
    loadLibrariesOfList rest

end

end NodeElement

def parsePlan (declarations : List GlobalDeclaration) (root : NodeElement) :
    Except ParserError Unit := do
  let table ← checkPlan factories declarations root
  root.loadLibraries factories
  root.finalizeNode factories table []

/-! ### Commands and lookups -/

/-- A command or a lookup, with the declarations of its document and the place of its node. -/
inductive Use where
  | command (table : SymbolTable) (path : List Nat) (command : CommandElement)
  | lookup (table : SymbolTable) (path : List Nat) (lookup : ExprElement × List ExprElement)

/-- The lookups in expressions. -/
def lookupUses (path : List Nat) (exprs : List ExprElement) : List Use :=
  (exprs.flatMap ExprElement.lookups).map (.lookup table path)

def conditionExprs (children : List NodeChild) : List ExprElement :=
  children.filterMap fun | .condition _ expr => some expr | _ => none

def CommandElement.exprs (command : CommandElement) : List ExprElement :=
  command.resources.flatten.filterMap ResourceField.expr ++ command.destination.toList ++
    command.name :: command.arguments.getD []

namespace NodeElement

mutual

/-- The commands and lookups in a node and its descendants. -/
def uses (table : SymbolTable) (path : List Nat) : NodeElement → List Use
  | empty children => lookupUses table path (conditionExprs children)
  | assignment children target rhs =>
    lookupUses table path (conditionExprs children) ++ lookupUses table path [target, rhs]
  | command children cmd =>
    .command table path cmd :: (lookupUses table path (conditionExprs children) ++
      lookupUses table path cmd.exprs)
  | update children pairs =>
    lookupUses table path (conditionExprs children) ++
      lookupUses table path (pairs.map Prod.snd)
  | nodeList children kids =>
    lookupUses table path (conditionExprs children) ++ usesOfList table path 0 kids
  | libraryNodeCall children _ aliases declarations root =>
    lookupUses table path (conditionExprs children) ++
      lookupUses table path (aliases.map Prod.snd) ++
      match parseGlobalDeclarations declarations with
      | .ok libraryTable => root.uses libraryTable (0 :: path)
      | .error _ => []

def usesOfList (table : SymbolTable) (path : List Nat) (i : Nat) : List NodeElement → List Use
  | [] => []
  | kid :: rest => kid.uses table (i :: path) ++ usesOfList table path (i + 1) rest

end

end NodeElement

/-- The commands and lookups in a plan. -/
def planUses (declarations : List GlobalDeclaration) (root : NodeElement) : List Use :=
  match parseGlobalDeclarations declarations with
  | .ok table => root.uses table []
  | .error _ => []

/-- The type of the variable which is created for a destination. -/
def assignableType (path : List Nat) (dest : ExprElement) : ValueType :=
  match createAssignable factories table path dest with
  | .ok created => created.valueType
  | .error _ => .unknown

/-- Where the name is the literal name of a declared command or lookup, the declaration accepts the
arguments, and the result can be given to the destination. -/
def Use.Enforced : Use → Prop
  | command table path cmd => ∀ symbol, commandSymbol table cmd = some symbol →
    symbol.Accepts ((cmd.arguments.getD []).map (createdType factories table path)) ∧
      ∀ dest, cmd.destination = some dest →
        ValueType.areTypesCompatible (assignableType factories table path dest)
          symbol.returnType = true
  | lookup table path use => LookupEnforced factories table path use

/-- A command which has declared parameters has an `Arguments` element. -/
def Use.ArgumentsGiven : Use → Prop
  | command table _ cmd => ∀ symbol, commandSymbol table cmd = some symbol →
    cmd.arguments.isSome ∨ symbol.parameterCount = 0
  | lookup _ _ _ => True

/-! ### What is created -/

section

variable {factories : Factories} {table : SymbolTable} {path : List Nat}

theorem ExprElement.mem_lookupsOfList {exprs : List ExprElement}
    {lookup : ExprElement × List ExprElement} :
  lookup ∈ ExprElement.lookupsOfList exprs ↔ ∃ expr ∈ exprs, lookup ∈ expr.lookups
  := by
  induction exprs with
  | nil => simp [ExprElement.lookupsOfList]
  | cons expr rest ih => simp [ExprElement.lookupsOfList, ih]

/-- The declarations accept the arguments of all lookups in an expression. -/
def LookupsEnforced (factories : Factories) (table : SymbolTable) (path : List Nat)
    (expr : ExprElement) : Prop :=
  ∀ lookup ∈ expr.lookups, LookupEnforced factories table path lookup

theorem forall_enforced_of_createExpressions {exprs : List ExprElement}
    {created : List CreatedExpr}
    (h : createExpressions factories table path exprs = .ok created) :
  ∀ expr ∈ exprs, LookupsEnforced factories table path expr
  := by
  intro expr hexpr lookup hlookup
  apply enforced_of_createExpressions h
  exact ExprElement.mem_lookupsOfList.mpr ⟨expr, hexpr, hlookup⟩

theorem forall_enforced_of_createArguments {symbol : Option Symbol} {i : Nat}
    {args : List ExprElement} {created : List CreatedExpr}
    (h : createArguments factories table path symbol i args = .ok created) :
  ∀ arg ∈ args, LookupsEnforced factories table path arg
  := by
  intro arg harg lookup hlookup
  apply enforced_of_createArguments h
  exact ExprElement.mem_lookupsOfList.mpr ⟨arg, harg, hlookup⟩

theorem enforced_of_createAssignable {target : ExprElement} {created : CreatedExpr}
    (h : createAssignable factories table path target = .ok created) :
  LookupsEnforced factories table path target
  := by
  cases target with
  | stringValue text => contradiction
  | lookup onChange name tolerance hasArguments arguments => contradiction
  | other tag text children =>
    rw [createAssignable] at h
    obtain ⟨cs, hchildren, -⟩ := Except.bind_eq_ok.mp h
    exact enforced_of_createExpressions hchildren

theorem assignableType_eq {dest : ExprElement} {created : CreatedExpr}
    (h : createAssignable factories table path dest = .ok created) :
  assignableType factories table path dest = created.valueType
  := by
  unfold assignableType
  rw [h]

theorem enforced_of_createConditions {children : List NodeChild}
    (h : createConditions factories table path children = .ok ()) :
  ∀ expr ∈ conditionExprs children, LookupsEnforced factories table path expr
  := by
  intro expr hexpr
  obtain ⟨child, hchild, hcondition⟩ := List.mem_filterMap.mp hexpr
  have hcreate := Except.forM_ok h child hchild
  cases child with
  | condition tag expr' =>
    cases hcondition
    obtain ⟨created, hcreated, -⟩ := Except.bind_eq_ok.mp hcreate
    exact enforced_of_createExpression hcreated
  | nodeId _ => contradiction
  | interface _ => contradiction
  | variableDeclarations _ => contradiction
  | usingMutex _ => contradiction
  | priority _ => contradiction
  | nodeBody => contradiction
  | other _ => contradiction

/-! ### Commands -/

theorem enforced_of_finalizeResources {fields : List ResourceField}
    (h : fields.forM (finalizeResourceField factories table path) = .ok ()) :
  ∀ expr ∈ fields.filterMap ResourceField.expr, LookupsEnforced factories table path expr
  := by
  intro expr hexpr
  obtain ⟨field, hfield, heq⟩ := List.mem_filterMap.mp hexpr
  have hfinalize := Except.forM_ok h field hfield
  rw [finalizeResourceField, heq] at hfinalize
  obtain ⟨created, hcreated, -⟩ := Except.bind_eq_ok.mp hfinalize
  exact enforced_of_createExpression hcreated

theorem enforced_of_createDestination {dest : Option ExprElement} {created : Option CreatedExpr}
    (h : createDestination factories table path dest = .ok created) :
  ∀ expr ∈ dest.toList, LookupsEnforced factories table path expr
  := by
  intro expr hexpr
  cases dest with
  | none => contradiction
  | some target =>
    rw [Option.toList_some, List.mem_singleton] at hexpr
    subst hexpr
    rw [createDestination] at h
    obtain ⟨c, hcreate, -⟩ := Except.bind_eq_ok.mp h
    exact enforced_of_createAssignable hcreate

theorem enforced_of_finalizeArguments {symbol : Option Symbol}
    {arguments : Option (List ExprElement)}
    (h : finalizeArguments factories table path symbol arguments = .ok ()) :
  ∀ arg ∈ arguments.getD [], LookupsEnforced factories table path arg
  := by
  cases arguments with
  | none =>
    intro arg harg
    contradiction
  | some args =>
    rw [finalizeArguments] at h
    obtain ⟨_, -, h⟩ := Except.bind_eq_ok.mp h
    obtain ⟨created, hcreated, -⟩ := Except.bind_eq_ok.mp h
    exact forall_enforced_of_createArguments hcreated

theorem enforced_of_finalizeCommand {command : CommandElement}
    (h : finalizeCommand factories table path command = .ok ()) :
  ∀ expr ∈ command.exprs, LookupsEnforced factories table path expr
  := by
  unfold finalizeCommand at h
  obtain ⟨_, hresources, h⟩ := Except.bind_eq_ok.mp h
  obtain ⟨dest, hdest, h⟩ := Except.bind_eq_ok.mp h
  obtain ⟨name, hname, h⟩ := Except.bind_eq_ok.mp h
  obtain ⟨_, -, h⟩ := Except.bind_eq_ok.mp h
  obtain ⟨_, -, harguments⟩ := Except.bind_eq_ok.mp h
  intro expr hexpr
  rw [CommandElement.exprs, List.mem_append, List.mem_append, List.mem_cons] at hexpr
  rcases hexpr with (hexpr | hexpr) | rfl | hexpr
  · exact enforced_of_finalizeResources hresources expr hexpr
  · exact enforced_of_createDestination hdest expr hexpr
  · exact enforced_of_createExpression hname
  · exact enforced_of_finalizeArguments harguments expr hexpr

/-- No arguments are accepted exactly when no parameters are declared. -/
theorem Symbol.accepts_nil_iff {symbol : Symbol} :
  symbol.Accepts [] ↔ symbol.parameterCount = 0
  := by
  constructor
  · intro h
    rcases h.count with hcount | ⟨-, hcount⟩
    · exact hcount.symm
    · exact Nat.le_zero.mp hcount
  · intro h
    exact ⟨.inl h.symm, fun i type hi => absurd hi (by omega)⟩

/-- A literal name is a constant with its text as value. -/
theorem constantSymbol_eq {command : CommandElement} {name : CreatedExpr} {symbol : Symbol}
    (hname : createExpression factories table path .unknown command.name = .ok name)
    (hsymbol : commandSymbol table command = some symbol) :
  constantSymbol table name = some symbol
  := by
  unfold commandSymbol at hsymbol
  cases hcommand : command.name with
  | stringValue text =>
    rw [hcommand] at hname hsymbol
    cases hname
    exact hsymbol
  | lookup _ _ _ _ _ =>
    rw [hcommand] at hsymbol
    contradiction
  | other _ _ _ =>
    rw [hcommand] at hsymbol
    contradiction

/-- A finalized command is as declared exactly when its arguments are given. -/
theorem command_enforced_iff {command : CommandElement}
    (h : finalizeCommand factories table path command = .ok ()) :
  (Use.command table path command).Enforced factories ↔
    (Use.command table path command).ArgumentsGiven
  := by
  unfold finalizeCommand at h
  obtain ⟨_, -, h⟩ := Except.bind_eq_ok.mp h
  obtain ⟨dest, hdest, h⟩ := Except.bind_eq_ok.mp h
  obtain ⟨name, hname, h⟩ := Except.bind_eq_ok.mp h
  obtain ⟨_, -, h⟩ := Except.bind_eq_ok.mp h
  obtain ⟨_, hresult, harguments⟩ := Except.bind_eq_ok.mp h
  unfold Use.Enforced Use.ArgumentsGiven
  apply forall₂_congr
  intro symbol hsymbol
  rw [constantSymbol_eq hname hsymbol] at hresult harguments
  rw [checkThat_eq_ok, Option.all_some] at hresult
  have hdestination : ∀ target, command.destination = some target →
      ValueType.areTypesCompatible (assignableType factories table path target)
        symbol.returnType = true := by
    intro target htarget
    rw [htarget, createDestination] at hdest
    obtain ⟨created, hcreated, hdest⟩ := Except.bind_eq_ok.mp hdest
    cases hdest
    rw [assignableType_eq hcreated]
    exact hresult
  cases hargs : command.arguments with
  | none =>
    rw [Option.getD_none, List.map_nil, Symbol.accepts_nil_iff]
    simpa using fun _ => hdestination
  | some args =>
    rw [hargs, finalizeArguments] at harguments
    obtain ⟨_, hcount, harguments⟩ := Except.bind_eq_ok.mp harguments
    obtain ⟨created, hcreated, -⟩ := Except.bind_eq_ok.mp harguments
    rw [checkThat_eq_ok, Option.all_some] at hcount
    have haccepts := accepts_of_createArguments hcount hcreated
    exact iff_of_true ⟨haccepts, hdestination⟩ (.inl rfl)

/-! ### Plans -/

theorem enforced_lookupUses {exprs : List ExprElement}
    (h : ∀ expr ∈ exprs, LookupsEnforced factories table path expr) :
  ∀ use ∈ lookupUses table path exprs, use.Enforced factories ↔ use.ArgumentsGiven
  := by
  intro use huse
  obtain ⟨lookup, hlookup, rfl⟩ := List.mem_map.mp huse
  obtain ⟨expr, hexpr, hlookup⟩ := List.mem_flatMap.mp hlookup
  exact iff_of_true (h expr hexpr lookup hlookup) trivial

end

variable {factories : Factories}

mutual

theorem enforced_of_finalizeNode {table : SymbolTable} {path : List Nat} {node : NodeElement}
    (h : node.finalizeNode factories table path = .ok ()) :
  ∀ use ∈ node.uses table path, use.Enforced factories ↔ use.ArgumentsGiven
  := by
  intro use huse
  cases node with
  | empty children =>
    rw [NodeElement.finalizeNode] at h
    exact enforced_lookupUses (enforced_of_createConditions h) use huse
  | assignment children target rhs =>
    rw [NodeElement.finalizeNode] at h
    obtain ⟨_, hconditions, h⟩ := Except.bind_eq_ok.mp h
    obtain ⟨var, hvar, h⟩ := Except.bind_eq_ok.mp h
    obtain ⟨value, hvalue, -⟩ := Except.bind_eq_ok.mp h
    rcases List.mem_append.mp huse with huse | huse
    · exact enforced_lookupUses (enforced_of_createConditions hconditions) use huse
    · apply enforced_lookupUses _ use huse
      rw [List.forall_mem_cons, List.forall_mem_singleton]
      exact ⟨enforced_of_createAssignable hvar, enforced_of_createExpression hvalue⟩
  | command children command =>
    rw [NodeElement.finalizeNode] at h
    obtain ⟨_, hconditions, hcommand⟩ := Except.bind_eq_ok.mp h
    rw [NodeElement.uses, List.mem_cons, List.mem_append] at huse
    rcases huse with rfl | huse | huse
    · exact command_enforced_iff hcommand
    · exact enforced_lookupUses (enforced_of_createConditions hconditions) use huse
    · exact enforced_lookupUses (enforced_of_finalizeCommand hcommand) use huse
  | update children pairs =>
    rw [NodeElement.finalizeNode] at h
    obtain ⟨_, hconditions, h⟩ := Except.bind_eq_ok.mp h
    obtain ⟨created, hvalues, -⟩ := Except.bind_eq_ok.mp h
    rcases List.mem_append.mp huse with huse | huse
    · exact enforced_lookupUses (enforced_of_createConditions hconditions) use huse
    · apply enforced_lookupUses _ use huse
      intro expr hexpr
      exact forall_enforced_of_createExpressions hvalues expr (List.mem_reverse.mpr hexpr)
  | nodeList children kids =>
    rw [NodeElement.finalizeNode] at h
    obtain ⟨_, hconditions, hkids⟩ := Except.bind_eq_ok.mp h
    rcases List.mem_append.mp huse with huse | huse
    · exact enforced_lookupUses (enforced_of_createConditions hconditions) use huse
    · exact enforced_of_finalizeListNode hkids use huse
  | libraryNodeCall children callee aliases declarations root =>
    rw [NodeElement.finalizeNode] at h
    obtain ⟨_, hconditions, h⟩ := Except.bind_eq_ok.mp h
    obtain ⟨_, haliases, h⟩ := Except.bind_eq_ok.mp h
    obtain ⟨created, haliases, -⟩ := Except.bind_eq_ok.mp haliases
    obtain ⟨libraryTable, hdeclarations, hroot⟩ := Except.bind_eq_ok.mp h
    rw [NodeElement.uses, hdeclarations, List.mem_append, List.mem_append] at huse
    rcases huse with (huse | huse) | huse
    · exact enforced_lookupUses (enforced_of_createConditions hconditions) use huse
    · exact enforced_lookupUses (forall_enforced_of_createExpressions haliases) use huse
    · exact enforced_of_finalizeNode hroot use huse

theorem enforced_of_finalizeListNode {table : SymbolTable} {path : List Nat} {i : Nat}
    {kids : List NodeElement}
    (h : NodeElement.finalizeListNode factories table path i kids = .ok ()) :
  ∀ use ∈ NodeElement.usesOfList table path i kids, use.Enforced factories ↔ use.ArgumentsGiven
  := by
  intro use huse
  cases kids with
  | nil => contradiction
  | cons kid rest =>
    rw [NodeElement.finalizeListNode] at h
    obtain ⟨_, hkid, hrest⟩ := Except.bind_eq_ok.mp h
    rcases List.mem_append.mp huse with huse | huse
    · exact enforced_of_finalizeNode hkid use huse
    · exact enforced_of_finalizeListNode hrest use huse

end

/-- In an accepted plan a command or lookup is as declared exactly when it is not a command without
arguments whose declaration has parameters. -/
theorem enforced_iff_argumentsGiven {declarations : List GlobalDeclaration} {root : NodeElement}
    (h : parsePlan factories declarations root = .ok ()) :
  ∀ use ∈ planUses declarations root, use.Enforced factories ↔ use.ArgumentsGiven
  := by
  unfold parsePlan checkPlan at h
  obtain ⟨table, hcheck, h⟩ := Except.bind_eq_ok.mp h
  obtain ⟨table', htable, hcheck⟩ := Except.bind_eq_ok.mp hcheck
  obtain ⟨_, -, hcheck⟩ := Except.bind_eq_ok.mp hcheck
  cases hcheck
  obtain ⟨_, -, hfinalize⟩ := Except.bind_eq_ok.mp h
  unfold planUses
  rw [htable]
  exact enforced_of_finalizeNode hfinalize

/-- All that is not a literal string is a real number. -/
def realFactories : Factories where
  checkDeclaration _ := .ok .real
  check _ _ _ _ := .ok .real
  allocate _ _ _ _ _ := .ok ⟨.real, false, none⟩
  createAssignable _ _ _ _ := .ok ⟨.real, false, none⟩

/-- The command `move` has a parameter. -/
def moveDeclaration : GlobalDeclaration := .command "move" none [⟨.real, false⟩] false

def moveSymbol : Symbol := ⟨"move", [.real], .unknown, false⟩

def moveNode (arguments : Option (List ExprElement)) : NodeElement :=
  .command [.nodeId "Move", .nodeBody] { name := .stringValue "move", arguments := arguments }

/-- With an argument the command is as declared. -/
theorem enforced_iff_argumentsGiven_move :
  (Use.command ⟨[moveSymbol], [], []⟩ []
    { name := .stringValue "move", arguments := some [.other "RealValue" "1.5" []] }).Enforced
    realFactories
  := by
  have h : parsePlan realFactories [moveDeclaration]
      (moveNode (some [.other "RealValue" "1.5" []])) = .ok () := rfl
  apply (enforced_iff_argumentsGiven h _ (List.mem_singleton_self _)).mpr
  intro symbol _
  exact .inl rfl

/-- Without an `Arguments` element the command is accepted as well. -/
theorem not_enforced :
  ¬ ∀ (factories : Factories) (declarations : List GlobalDeclaration) (root : NodeElement),
      parsePlan factories declarations root = .ok () →
        ∀ use ∈ planUses declarations root, use.Enforced factories
  := by
  intro h
  have haccepts := h realFactories [moveDeclaration] (moveNode none) rfl _
    (List.mem_singleton_self _) moveSymbol rfl
  rcases haccepts.1.count with hcount | ⟨hany, -⟩
  · contradiction
  · contradiction

end Document

end Xml

end Plexil

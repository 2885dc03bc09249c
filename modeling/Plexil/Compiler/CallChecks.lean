import Plexil.Compiler.ArrayLiteralNode

/-!
# Calls and their declarations

Calls of commands, lookups and library nodes are checked against what is declared.  An early check
counts the arguments; the types are looked at when the arguments have been checked themselves.
-/

namespace Plexil.Compiler

/-! ### Arguments -/

/-- An argument behind its own checks. -/
inductive Argument where
  | literal (node : LiteralNode)
  /-- The check of an empty array literal throws. -/
  | arrayLiteral (node : ArrayLiteralNode) (elements_ne : node.elements ≠ [])
  /-- An expression of another class: a variable, for example, or an operation.  Literals of the
  internal types answer alike. -/
  | expression (m_dataType : PlexilDataType) (assignable : Bool)
  /-- An element of the array which a lookup returns. -/
  | lookupElement (m_dataType : PlexilDataType)

/-- The answer of `assumeType`, and whether it has reported a diagnostic. -/
structure Assumption where
  success : Bool
  reported : Bool

/-- `ExpressionNode.assumeType`; for an expression of type `Any` there is a warning. -/
def ExpressionNode.assumeType (m_dataType t : PlexilDataType) : Assumption :=
  if !m_dataType.isValid then ⟨false, false⟩
  else if !t.isValid then ⟨false, true⟩
  else if t = .any || m_dataType = .any then ⟨true, false⟩
  else ⟨m_dataType = t || (t.isNumeric && m_dataType.isNumeric), false⟩

namespace Argument

/-- `none` is an exception. -/
def assumeType (arg : Argument) (t : PlexilDataType) : Option Assumption :=
  match arg with
  | literal node =>
    (node.assumeType t).map fun (answer, _) => ⟨answer = .accepted, answer = .invalid⟩
  | arrayLiteral node _ =>
    (ArrayLiteralNode.assumeType { node with reported := false } (some t)).map
      fun (success, node) => ⟨success, node.reported⟩
  | expression m_dataType _ | lookupElement m_dataType =>
    some (ExpressionNode.assumeType m_dataType t)

/-- A reference to an element of an array asks the array as if it were a variable; `none` is a
`ClassCastException`. -/
def isAssignable : Argument → Option Bool
  | literal _ | arrayLiteral _ _ => some false
  | expression _ assignable => some assignable
  | lookupElement _ => none

end Argument

/-! ### Arguments by position -/

/-- `VariableName`, and its class `WildcardVariableName`, as commands and lookups use them. -/
inductive ParameterSpec where
  | parameter (type : PlexilDataType)
  | wildcard

/-- The declaration of a command or of a lookup. -/
structure GlobalDeclaration where
  types : List PlexilDataType
  wildcard : Bool
  isValid : ∀ t ∈ types, t.isValid = true

/-- `getParameterVariables`, which is null instead of empty. -/
def GlobalDeclaration.paramSpecs (decl : GlobalDeclaration) : List ParameterSpec :=
  decl.types.map .parameter ++ if decl.wildcard then [.wildcard] else []

namespace ArgumentListNode

/-- The loop of `earlyCheckArgumentList`, and whether it reports a diagnostic. -/
def earlyCheckLoop (size childCount : Nat) : List Argument → List ParameterSpec → Bool
  | [], _ => false
  | _ :: _, [] => true
  | _ :: _, .wildcard :: _ => false
  | _ :: args, .parameter _ :: specs =>
    if size < childCount then true else earlyCheckLoop size childCount args specs

def earlyCheckArgumentList (args : List Argument) (paramSpec : List ParameterSpec) : Bool :=
  earlyCheckLoop paramSpec.length args.length args paramSpec

def checkArgumentList : List Argument → List ParameterSpec → Option Bool
  | [], _ => some false
  | _ :: _, [] => some false
  | _ :: _, .wildcard :: _ => some false
  | arg :: args, .parameter reqdType :: specs => do
    let assumption ← arg.assumeType reqdType
    let reported ← checkArgumentList args specs
    some (!assumption.success || assumption.reported || reported)

end ArgumentListNode

/-- The checks of a command and of a lookup against its declaration; a list without arguments is
null. -/
def checkArguments (decl : GlobalDeclaration) (args : List Argument) : Option Bool :=
  let early :=
    if decl.paramSpecs.isEmpty then !args.isEmpty
    else if args.isEmpty then
      match decl.paramSpecs with
      | [.wildcard] => false
      | _ => true
    else ArgumentListNode.earlyCheckArgumentList args decl.paramSpecs
  let check :=
    if decl.paramSpecs.isEmpty || args.isEmpty then some false
    else ArgumentListNode.checkArgumentList args decl.paramSpecs
  check.map (early || ·)

def CommandNode.semanticCheck (decl : GlobalDeclaration) (args : List Argument) : Option Bool :=
  checkArguments decl args

/-- A tolerance has checks of its own. -/
def LookupNode.semanticCheck (decl : GlobalDeclaration) (args : List Argument) : Option Bool :=
  checkArguments decl args

/-! ### Arguments by name -/

structure InterfaceVariableName where
  m_name : String
  m_variableType : PlexilDataType
  /-- There is a default. -/
  hasInitialValue : Bool
  isInOut : Bool

/-- The alias of an InOut parameter is asked whether it can be assigned. -/
def InterfaceVariableName.checkAssignable (param : InterfaceVariableName) (arg : Argument) :
    Option Bool :=
  if param.isInOut then arg.isAssignable else some true

/-- The declaration of a library node; two parameters of one name are reported there. -/
structure LibraryDeclaration where
  parameters : List InterfaceVariableName
  nodup : (parameters.map (·.m_name)).Nodup
  isValid : ∀ param ∈ parameters, param.m_variableType.isValid = true

def LibraryDeclaration.getParameterByName (decl : LibraryDeclaration) (name : String) :
    Option InterfaceVariableName :=
  decl.parameters.find? fun candidate => candidate.m_name = name

structure Alias where
  name : String
  expression : Argument

namespace LibraryCallNode

/-- A name occurs multiple times. -/
def duplicateNames (aliasNames : List String) : List Alias → Bool
  | [] => false
  | a :: aliases =>
    if a.name ∈ aliasNames then true else duplicateNames (a.name :: aliasNames) aliases

/-- The loop of `earlyCheckParameters`: whether it reports a diagnostic, and the names in use. -/
def matchAliases (decl : LibraryDeclaration) : List Alias → Option (Bool × List String)
  | [] => some (false, [])
  | a :: aliases =>
    match decl.getParameterByName a.name with
    | none => do
      let (_, used) ← matchAliases decl aliases
      some (true, used)
    | some param => do
      let assignable ← param.checkAssignable a.expression
      let (reported, used) ← matchAliases decl aliases
      some (!assignable || reported, a.name :: used)

def earlyCheckParameters (decl : LibraryDeclaration) (aliases : List Alias) : Option Bool :=
  if decl.parameters.isEmpty then some !aliases.isEmpty
  else if aliases.isEmpty then some (decl.parameters.any fun v => !v.hasInitialValue)
  else do
    let (reported, used) ← matchAliases decl aliases
    let missing := decl.parameters.any fun v => decide (v.m_name ∉ used) && v.hasInitialValue
    some (reported || missing)

/-- The types of the aliases; the answers are not looked at. -/
def checkAliases (decl : LibraryDeclaration) : List Alias → Option Bool
  | [] => some false
  | a :: aliases =>
    match decl.getParameterByName a.name with
    | none => checkAliases decl aliases
    | some param => do
      let assumption ← a.expression.assumeType param.m_variableType
      let reported ← checkAliases decl aliases
      some (assumption.reported || reported)

def semanticCheck (decl : LibraryDeclaration) (aliases : List Alias) : Option Bool := do
  let early ← earlyCheckParameters decl aliases
  let check :=
    if decl.parameters.isEmpty || aliases.isEmpty then some false else checkAliases decl aliases
  check.map (duplicateNames [] aliases || early || ·)

end LibraryCallNode

/-! ### Calls -/

inductive Call where
  | command (decl : GlobalDeclaration) (args : List Argument)
  | lookup (decl : GlobalDeclaration) (args : List Argument)
  | library (decl : LibraryDeclaration) (aliases : List Alias)

/-- The check of a call: whether it reports a diagnostic, or `none` for an exception. -/
def Call.semanticCheck : Call → Option Bool
  | command decl args => CommandNode.semanticCheck decl args
  | lookup decl args => LookupNode.semanticCheck decl args
  | library decl aliases => LibraryCallNode.semanticCheck decl aliases

/-- The literal can be a value of a type. -/
def LiteralNode.IsReceivedBy (t : PlexilDataType) (node : LiteralNode) : Prop :=
  node.m_dataType.isValid = true ∧
    (t = .any ∨ node.m_dataType = t ∨
      if node.token.isTemporal then t = .real
      else
        node.m_dataType.isNumeric = true ∧ t = .real ∨
          t = .boolean ∧ node.m_dataType = .integer ∧
            (parseIntegerValue node.token.getText = some 0 ∨
              parseIntegerValue node.token.getText = some 1))

/-- The argument can be received by a parameter of a type. -/
def Argument.IsReceivedBy (t : PlexilDataType) : Argument → Prop
  | literal node => node.IsReceivedBy t
  | arrayLiteral node _ =>
    t = .any ∨ node.m_dataType = some t ∨
      ∃ eltType, t.arrayElementType = some eltType ∧
        ∀ elt ∈ node.elements, elt.IsReceivedBy eltType
  | expression m_dataType _ | lookupElement m_dataType =>
    m_dataType.isValid = true ∧
      (t = .any ∨ m_dataType = .any ∨ m_dataType = t ∨
        t.isNumeric = true ∧ m_dataType.isNumeric = true)

/-- There are as many arguments as the declaration says. -/
def GlobalDeclaration.Counts (decl : GlobalDeclaration) (args : List Argument) : Prop :=
  if decl.wildcard then decl.types.length ≤ args.length else args.length = decl.types.length

/-- The arguments can be received by the parameters they stand for. -/
def GlobalDeclaration.Receives (decl : GlobalDeclaration) (args : List Argument) : Prop :=
  ∀ p ∈ args.zip decl.types, p.1.IsReceivedBy p.2

/-- A parameter, and the alias for it. -/
def LibraryDeclaration.Pairs (decl : LibraryDeclaration) (aliases : List Alias)
    (P : InterfaceVariableName → Argument → Prop) : Prop :=
  ∀ a ∈ aliases, ∀ param ∈ decl.parameters, param.m_name = a.name → P param a.expression

/-- The parameters with a default, or those without one, are supplied. -/
def LibraryDeclaration.Supplies (decl : LibraryDeclaration) (aliases : List Alias)
    (hasInitialValue : Bool) : Prop :=
  ∀ param ∈ decl.parameters, param.hasInitialValue = hasInitialValue →
    param.m_name ∈ aliases.map (·.name)

/-- The rules about aliases which a call of a library node is checked for. -/
structure LibraryDeclaration.Matches (decl : LibraryDeclaration) (aliases : List Alias) : Prop where
  once : (aliases.map (·.name)).Nodup
  declared : ∀ a ∈ aliases, a.name ∈ decl.parameters.map (·.m_name)
  writable : decl.Pairs aliases fun param arg => param.isInOut = true → arg.isAssignable = some true

/-- The types of the aliases are those of the parameters. -/
def LibraryDeclaration.Receives (decl : LibraryDeclaration) (aliases : List Alias) : Prop :=
  decl.Pairs aliases fun param arg => arg.IsReceivedBy param.m_variableType

/-- The call agrees with the declaration. -/
def Call.Agrees : Call → Prop
  | command decl args | lookup decl args => decl.Counts args ∧ decl.Receives args
  | library decl aliases =>
    decl.Matches aliases ∧ decl.Supplies aliases false ∧ decl.Receives aliases

/-- No argument throws when it is asked for the type of its parameter, and the number of arguments
is not one which the loop gets wrong, unless there is an error in the types. -/
structure GlobalDeclaration.Covers (decl : GlobalDeclaration) (args : List Argument) : Prop where
  assumeType_ne : ∀ p ∈ args.zip decl.types, p.1.assumeType p.2 ≠ none
  few : decl.Receives args → args ≠ [] → decl.types.length ≤ args.length
  many : decl.Receives args → decl.wildcard = true → decl.types ≠ [] →
    args.length ≤ decl.types.length + 1

/-- Only array literals report that they cannot be received. -/
def Argument.IsArrayLiteral : Argument → Prop
  | arrayLiteral _ _ => True
  | _ => False

/-- No alias throws, and where the other rules are kept, what is checked in place of the missing
parameters and of the types has the same result. -/
structure LibraryDeclaration.Covers (decl : LibraryDeclaration) (aliases : List Alias) : Prop where
  isAssignable_ne : decl.Pairs aliases fun param arg =>
    param.isInOut = true → arg.isAssignable ≠ none
  assumeType_ne : decl.Pairs aliases fun param arg => arg.assumeType param.m_variableType ≠ none
  decided : aliases ≠ [] → decl.Matches aliases →
    ((decl.Supplies aliases true ∧ decl.Pairs aliases fun param arg =>
        arg.IsArrayLiteral → arg.IsReceivedBy param.m_variableType) ↔
      (decl.Supplies aliases false ∧ decl.Receives aliases))

def Call.Covered : Call → Prop
  | command decl args | lookup decl args => decl.Covers args
  | library decl aliases => decl.Covers aliases

/-! ### The answers of arguments -/

theorem LiteralNode.assumeType_spec {node node' : LiteralNode} {t : PlexilDataType}
    (ht : t.isValid = true) {answer : Answer} (h : node.assumeType t = some (answer, node')) :
  (answer = .accepted ↔ node.IsReceivedBy t) ∧ answer ≠ .invalid
  := by
  unfold assumeType at h
  unfold IsReceivedBy
  by_cases hself : node.m_dataType.isValid = true
  swap
  · rw [if_pos (by simpa using hself)] at h
    cases h
    exact ⟨⟨nofun, fun h => absurd h.1 hself⟩, nofun⟩
  rw [if_neg (by simpa using hself), if_neg (by simpa using ht)] at h
  by_cases hsame : t = .any ∨ node.m_dataType = t
  · rw [if_pos (by simpa using hsame)] at h
    cases h
    exact ⟨⟨fun _ => ⟨hself, hsame.imp_right .inl⟩, fun _ => rfl⟩, nofun⟩
  rw [if_neg (by simpa using hsame)] at h
  obtain ⟨hany, hother⟩ := not_or.mp hsame
  simp only [hself, hany, hother, true_and, false_or]
  by_cases htemporal : node.token.isTemporal = true
  · rw [if_pos htemporal] at h
    rw [if_pos htemporal]
    by_cases hreal : t = .real
    · rw [if_pos hreal] at h
      cases h
      exact ⟨⟨fun _ => hreal, fun _ => rfl⟩, nofun⟩
    · rw [if_neg hreal] at h
      cases h
      exact ⟨⟨nofun, fun h => absurd h hreal⟩, nofun⟩
  rw [if_neg htemporal] at h
  rw [if_neg htemporal]
  by_cases hreal : node.m_dataType.isNumeric = true ∧ t = .real
  · rw [if_pos (by simpa using hreal)] at h
    cases h
    exact ⟨⟨fun _ => .inl hreal, fun _ => rfl⟩, nofun⟩
  rw [if_neg (by simpa using hreal)] at h
  by_cases hboolean : t = .boolean ∧ node.m_dataType = .integer
  · rw [if_pos (by simpa using hboolean)] at h
    cases hvalue : parseIntegerValue node.token.getText with
    | none =>
      rw [hvalue] at h
      cases h
    | some value =>
      rw [hvalue] at h
      simp only [Option.bind_eq_bind, Option.bind_some] at h
      by_cases hbit : value = 0 ∨ value = 1
      · rw [if_pos hbit] at h
        cases h
        have hbit' : some value = some 0 ∨ some value = some 1 :=
          hbit.imp (congrArg some) (congrArg some)
        exact ⟨⟨fun _ => .inr ⟨hboolean.1, hboolean.2, hbit'⟩, fun _ => rfl⟩, nofun⟩
      · rw [if_neg hbit] at h
        cases h
        refine ⟨⟨nofun, ?_⟩, nofun⟩
        rintro (h | ⟨-, -, h⟩)
        · exact absurd h hreal
        · exact absurd (h.imp Option.some.inj Option.some.inj) hbit
  · rw [if_neg (by simpa using hboolean)] at h
    cases h
    refine ⟨⟨nofun, ?_⟩, nofun⟩
    rintro (h | ⟨h, h', -⟩)
    · exact absurd h hreal
    · exact absurd ⟨h, h'⟩ hboolean

theorem assumeElements_spec {t : PlexilDataType} (ht : t.isValid = true)
    {elts elts' : List LiteralNode} {success : Bool}
    (h : assumeElements t elts = some (success, elts')) :
  success = true ↔ ∀ elt ∈ elts, elt.IsReceivedBy t
  := by
  induction elts generalizing success elts' with
  | nil =>
    cases h
    simp
  | cons elt elts ih =>
    obtain ⟨⟨answer, elt'⟩, hassume, h⟩ := Option.bind_eq_some_iff.mp h
    have hreceived := (LiteralNode.assumeType_spec ht hassume).1
    by_cases hanswer : answer = .accepted
    · simp only [hanswer, if_true] at h
      obtain ⟨⟨success', elts''⟩, helts, h⟩ := Option.bind_eq_some_iff.mp h
      cases h
      rw [ih helts, List.forall_mem_cons, and_iff_right (hreceived.mp hanswer)]
    · simp only [hanswer, if_false] at h
      cases h
      rw [List.forall_mem_cons]
      exact ⟨nofun, fun h => absurd (hreceived.mpr h.1) hanswer⟩

theorem PlexilDataType.isValid_arrayElementType {t eltType : PlexilDataType}
    (ht : t.isValid = true) (h : t.arrayElementType = some eltType) :
  eltType.isValid = true
  := by
  cases t <;> cases h <;> first | rfl | cases ht

/-- An array literal reports that it refuses. -/
theorem ArrayLiteralNode.assumeType_spec {node node' : ArrayLiteralNode} {t : PlexilDataType}
    (ht : t.isValid = true) (hne : node.elements ≠ []) (hreported : node.reported = false)
    {success : Bool} (h : node.assumeType (some t) = some (success, node')) :
  (success = true ↔ (Argument.arrayLiteral node hne).IsReceivedBy t) ∧
    (node'.reported = true ↔ success = false)
  := by
  unfold assumeType at h
  unfold Argument.IsReceivedBy
  dsimp only at h ⊢
  rw [if_neg (by simpa using ht)] at h
  by_cases hany : t = .any
  · rw [if_pos hany] at h
    cases h
    simp [hany, hreported]
  rw [if_neg hany] at h
  by_cases hsame : node.m_dataType = some t
  · rw [if_pos hsame] at h
    cases h
    simp [hsame, hreported]
  rw [if_neg hsame] at h
  cases helt : t.arrayElementType with
  | none =>
    rw [helt] at h
    dsimp only at h
    rw [if_neg hne] at h
    cases h
  | some eltType =>
    rw [helt] at h
    dsimp only at h
    obtain ⟨⟨success', elements⟩, helements, h⟩ := Option.bind_eq_some_iff.mp h
    have hspec := assumeElements_spec (PlexilDataType.isValid_arrayElementType ht helt) helements
    have hreceived : (t = .any ∨ node.m_dataType = some t ∨
        ∃ e, some eltType = some e ∧ ∀ elt ∈ node.elements, elt.IsReceivedBy e) ↔
        success' = true := by
      rw [hspec]
      simp [hany, hsame]
    cases success' with
    | true =>
      cases h
      exact ⟨hreceived.symm, by simp [hreported]⟩
    | false =>
      cases h
      exact ⟨hreceived.symm, by simp⟩

/-- What the answer of an argument says. -/
theorem Argument.assumeType_spec {arg : Argument} {t : PlexilDataType} (ht : t.isValid = true)
    {assumption : Assumption} (h : arg.assumeType t = some assumption) :
  (assumption.success = true ↔ arg.IsReceivedBy t) ∧
    (assumption.reported = true ↔ arg.IsArrayLiteral ∧ ¬arg.IsReceivedBy t)
  := by
  have hexpression : ∀ m_dataType : PlexilDataType,
      ((ExpressionNode.assumeType m_dataType t).success = true ↔
        m_dataType.isValid = true ∧ (t = .any ∨ m_dataType = .any ∨ m_dataType = t ∨
          t.isNumeric = true ∧ m_dataType.isNumeric = true)) ∧
      (ExpressionNode.assumeType m_dataType t).reported = false := by
    intro m_dataType
    unfold ExpressionNode.assumeType
    by_cases hself : m_dataType.isValid = true
    swap
    · rw [if_pos (by simpa using hself)]
      simp [hself]
    rw [if_neg (by simpa using hself), if_neg (by simpa using ht)]
    by_cases hany : t = .any ∨ m_dataType = .any
    · rw [if_pos (by simpa using hany)]
      exact ⟨⟨fun _ => ⟨hself, hany.imp_right .inl⟩, fun _ => rfl⟩, rfl⟩
    · rw [if_neg (by simpa using hany)]
      obtain ⟨hany, hany'⟩ := not_or.mp hany
      simp [hself, hany, hany']
  cases arg with
  | literal node =>
    obtain ⟨⟨answer, node'⟩, hassume, rfl⟩ := Option.map_eq_some_iff.mp h
    obtain ⟨hreceived, hinvalid⟩ := LiteralNode.assumeType_spec ht hassume
    exact ⟨decide_eq_true_iff.trans hreceived, by simp [hinvalid, IsArrayLiteral]⟩
  | arrayLiteral node elements_ne =>
    obtain ⟨⟨success, node'⟩, hassume, rfl⟩ := Option.map_eq_some_iff.mp h
    obtain ⟨hreceived, hreported⟩ := @ArrayLiteralNode.assumeType_spec
      { node with reported := false } node' t ht elements_ne rfl success hassume
    refine ⟨hreceived, hreported.trans ?_⟩
    have hnot : (arrayLiteral node elements_ne).IsReceivedBy t ↔ success = true := hreceived.symm
    simp [IsArrayLiteral, hnot]
  | expression m_dataType assignable =>
    cases h
    exact ⟨(hexpression m_dataType).1, by simp [hexpression m_dataType, IsArrayLiteral]⟩
  | lookupElement m_dataType =>
    cases h
    exact ⟨(hexpression m_dataType).1, by simp [hexpression m_dataType, IsArrayLiteral]⟩

namespace ArgumentListNode

end ArgumentListNode

namespace GlobalDeclaration

variable (decl : GlobalDeclaration) (args : List Argument)

end GlobalDeclaration

/-! ### Arguments by name -/

namespace LibraryDeclaration

variable (decl : LibraryDeclaration)

variable {P : InterfaceVariableName → Argument → Prop}

end LibraryDeclaration

namespace LibraryCallNode

variable (decl : LibraryDeclaration)

end LibraryCallNode

/-! ### Calls -/

end Plexil.Compiler

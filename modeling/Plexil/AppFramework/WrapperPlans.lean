import Plexil.AppFramework.Launcher
import Plexil.Xml.CalledNodes

/-!
# Wrapper plans

The literal which is printed for a known Boolean, an Integer or a string is read as the same value;
what is read for another value has at least its type.  A wrapper plan is accepted when the library
is found, the names of its aliases differ, their literals are read, and the library accepts a call
with constants of these types.
-/

namespace Plexil.Launcher

open Xml

/-! ### Texts -/

theorem charOf_toNat (b : Byte) :
  (charOf b).toNat = b.toNat
  := by
  have hb := b.isLt
  have hvalid : b.toNat.isValidChar := .inl (by omega)
  unfold charOf Char.ofNat
  rw [dif_pos hvalid]
  rfl

theorem byteOf_charOf (b : Byte) :
  byteOf (charOf b) = b
  := by
  unfold byteOf
  rw [charOf_toNat, BitVec.ofNat_toNat, BitVec.setWidth_eq]

theorem bytes_chars (s : StringValue) :
  bytes (chars s) = s
  := by
  unfold bytes chars
  rw [List.map_map]
  apply List.map_id''
  apply byteOf_charOf

theorem chars_injective : Function.Injective chars := Function.LeftInverse.injective bytes_chars

/-- No character is NUL, the end of a C string. -/
def NulFree (s : StringValue) : Prop := ∀ b ∈ s, b ≠ 0

theorem cString_eq_self {text : List Char} (h : ∀ c ∈ text, c ≠ '\x00') :
  cString text = text
  := by
  unfold cString
  rw [List.takeWhile_eq_self_iff]
  intro c hc
  apply decide_eq_true (h c hc)

theorem cString_append {s t : List Char} (h : ∀ c ∈ s, c ≠ '\x00') :
  cString (s ++ t) = s ++ cString t
  := by
  unfold cString
  apply List.takeWhile_append_of_pos
  intro c hc
  apply decide_eq_true (h c hc)

@[simp] theorem cString_cString (text : List Char) :
  cString (cString text) = cString text
  := by
  unfold cString
  rw [List.takeWhile_takeWhile]
  simp

theorem chars_ne_nul {s : StringValue} (h : NulFree s) :
  ∀ c ∈ chars s, c ≠ '\x00'
  := by
  intro c hc hnul
  obtain ⟨b, hb, rfl⟩ := List.mem_map.mp hc
  apply h b hb
  rw [← byteOf_charOf b, hnul]
  rfl

theorem cString_chars {s : StringValue} (h : NulFree s) :
  cString (chars s) = chars s
  := cString_eq_self (chars_ne_nul h)

theorem nameOf_eq {s : StringValue} (h : NulFree s) :
  nameOf s = String.ofList (chars s)
  := by
  unfold nameOf
  rw [cString_chars h]

theorem digits_ne_nul (n : Nat) :
  ∀ c ∈ Nat.toDigits 10 n, c ≠ '\x00'
  := by
  rintro c hc rfl
  have hdigit := Strtol.isDigit_toDigits n _ hc
  exact absurd hdigit (by decide)

theorem numeral_ne_nul (negative : Bool) (n : Nat) :
  ∀ c ∈ Strtol.numeral negative n, c ≠ '\x00'
  := by
  intro c hc
  cases negative with
  | true =>
    rcases List.mem_cons.mp hc with rfl | hc
    · decide
    · apply digits_ne_nul n c hc
  | false => apply digits_ne_nul n c hc

/-! ### Literals -/

/-- The values which are passed as they are. -/
inductive Plain : Intfc.Value → Prop where
  | boolean (value : Boolean) : Plain (.boolean value)
  | integer (value : Integer) : Plain (.integer value)
  | string {value : StringValue} (h : NulFree value) : Plain (.string value)

theorem parseBoolean_print (value : Boolean) :
  parseBoolean (cString (printBoolean value)) = .ok (some value)
  := by
  cases value <;> decide

theorem parseInteger32_print (value : Integer) :
  parseInteger32 (cString (printInteger value)) = .ok (some value)
  := by
  have hsigned : Strtol.signed (value.toInt < 0) value.toInt.natAbs = value.toInt := by
    unfold Strtol.signed
    split
    · rename_i hneg
      have := of_decide_eq_true hneg
      omega
    · rename_i hneg
      have : ¬ value.toInt < 0 := by simpa using hneg
      omega
  have hlow := BitVec.le_toInt value
  have hhigh := BitVec.toInt_lt (x := value)
  unfold parseInteger32 printInteger
  rw [cString_eq_self (numeral_ne_nul _ _),
    parseInteger_numeral _ (by rw [hsigned]; simpa using hlow) (by rw [hsigned]; simpa using hhigh),
    hsigned]
  simp [Except.map]

variable {reals : RealFormat} {factories : Document.Factories} {libraries : Libraries}

/-- The literal of a value is read as the value. -/
theorem createExpression_plain {v : Intfc.Value} (h : Plain v) :
  createExpression reals (valueToExprXml reals v) = .ok v
  := by
  cases h with
  | boolean value =>
    simp only [valueToExprXml, scalarXml, typeNameAsValue, createExpression, parseBoolean_print]
    rfl
  | integer value =>
    simp only [valueToExprXml, scalarXml, typeNameAsValue, createExpression, parseInteger32_print]
    rfl
  | string hvalue =>
    simp only [valueToExprXml, scalarXml, typeNameAsValue, createExpression, parseString,
      cString_chars hvalue, bytes_chars]
    rfl

theorem valueType_constant {α : Type} {type : ValueType} {known : α → Intfc.Value}
    {read : Except ParseValueError (Option α)} {v : Intfc.Value} (h : constant type known read = .ok v)
    (hknown : ∀ x, (known x).valueType = type) :
  v.valueType = type
  := by
  rcases read with e | _ | x <;> cases h
  · rfl
  · apply hknown

theorem valueType_namedConstant {α : Type} {type : ValueType} {known : α → Intfc.Value}
    {read : Option α} {v : Intfc.Value} (h : namedConstant known read = .ok v)
    (hknown : ∀ x, (known x).valueType = type) :
  v.valueType = type
  := by
  rcases read with _ | x <;> cases h
  apply hknown

/-- An array is not read again: the type name of its elements is the tag of a literal. -/
theorem createExpression_array {α : Type} {eltType : ValueType} {print : α → List Char}
    {ary : ArrayImpl α} {v : Intfc.Value} :
  createExpression reals (arrayXml eltType print ary) ≠ .ok v
  := by
  intro h
  cases eltType <;> cases h

/-- What is read for a value has its type. -/
theorem valueType_createExpression {v w : Intfc.Value} (hknown : v.isKnown = true)
    (h : createExpression reals (valueToExprXml reals v) = .ok w) :
  w.valueType = v.valueType
  := by
  cases v with
  | unknown type => contradiction
  | boolean value => apply valueType_constant h fun _ => rfl
  | integer value => apply valueType_constant h fun _ => rfl
  | real value => apply valueType_constant h fun _ => rfl
  | string value =>
    cases h
    rfl
  | booleanArray ary => exact absurd h createExpression_array
  | integerArray ary => exact absurd h createExpression_array
  | realArray ary => exact absurd h createExpression_array
  | stringArray ary => exact absurd h createExpression_array
  | nodeState value => apply valueType_namedConstant h fun _ => rfl
  | outcome value => apply valueType_namedConstant h fun _ => rfl
  | failure value => apply valueType_namedConstant h fun _ => rfl
  | commandHandle value => apply valueType_namedConstant h fun _ => rfl

/-! ### Checks -/

theorem checkDuplicates_eq_ok {error : String → Document.ParserError} {names : List String}
    {u : Unit} :
  Document.checkDuplicates error names = .ok u ↔ names.Nodup
  := by
  induction names with
  | nil => simp [Document.checkDuplicates]
  | cons name rest ih =>
    rw [Document.checkDuplicates, Except.bind_eq_ok, List.nodup_cons, ← ih]
    simp

theorem checkLibraryCall_eq_ok {callee : String} {aliases : List (String × Document.ExprElement)}
    {u : Unit} :
  Document.checkLibraryCall callee aliases = .ok u ↔
    callee ≠ "" ∧ (∀ a ∈ aliases, a.1 ≠ "") ∧ (aliases.map Prod.fst).Nodup
  := by
  rw [Document.checkLibraryCall, Except.bind_eq_ok]
  simp only [Except.bind_eq_ok, checkDuplicates_eq_ok, Document.checkThat_eq_ok,
    decide_eq_true_eq, exists_and_left, exists_const, Except.forM_eq_ok]

theorem ofList_ne_empty {text : List Char} (h : text ≠ []) :
  String.ofList text ≠ ""
  := by
  intro hempty
  apply h
  have hlist := congrArg String.toList hempty
  rwa [String.toList_ofList] at hlist

theorem checkExitLookup (plan : WrapperPlan) :
  Document.checkExpression factories {} .unknown plan.exitLookup = .ok .unknown
  := by
  simp [WrapperPlan.exitLookup, Document.checkExpression, Document.checkExpressions,
    Document.checkArguments, Document.checkThat, Document.literalSymbol,
    Document.ExprElement.literal, Document.SymbolTable.getLookup, bind, Except.bind, pure,
    Except.pure]

theorem checkChildren_wrapper {plan : WrapperPlan} (h : plan.callerName ≠ []) :
  Document.checkChildren factories {} [] false true plan.children = .ok ()
  := by
  have hname := ofList_ne_empty h
  have hscan : Document.scanChildren factories {} false [] plan.children = .ok () := by
    simp [WrapperPlan.children, Document.scanChildren, Document.scanChild, checkExitLookup,
      Document.checkThat, hname, Document.NodeChild.tag, Document.NodeChild.conditionTags,
      ValueType.areTypesCompatible, bind, Except.bind]
  rw [Document.checkChildren, hscan]
  rfl

/-! ### Calls of a library -/

/-- A call of the library with constants of these types is accepted. -/
def Library.Accepts (library : Library) (types : List (String × ValueType)) : Prop :=
  ∃ callerName nodes, Xml.parsePlan [] (callNode callerName types library) = .ok nodes

/-- The variables of the called node which are aliases. -/
def aliasMap (types : List (String × ValueType)) : VariableMap :=
  types.map fun a => (a.1, .other a.2)

theorem lookup_map_of_mem {α β : Type} {key : α → String} {value : α → β} {xs : List α} {x : α}
    (hnodup : (xs.map key).Nodup) (hx : x ∈ xs) :
  (xs.map fun x => (key x, value x)).lookup (key x) = some (value x)
  := by
  induction xs with
  | nil => contradiction
  | cons first rest ih =>
    rw [List.map_cons, List.nodup_cons] at hnodup
    rw [List.map_cons]
    rcases List.mem_cons.mp hx with rfl | hx
    · rw [List.lookup_cons, beq_self_eq_true]
    · have hne : key x ≠ key first := by
        intro heq
        apply hnodup.1
        rw [← heq]
        apply List.mem_map_of_mem hx
      rw [List.lookup_cons, beq_false_of_ne hne]
      apply ih hnodup.2 hx

theorem lookup_aliasMap (types : List (String × ValueType)) (name : String) :
  (aliasMap types).lookup name = (types.lookup name).map .other
  := by
  induction types with
  | nil => rfl
  | cons a rest ih =>
    unfold aliasMap at ih ⊢
    rw [List.map_cons, List.lookup_cons, List.lookup_cons, ih]
    split <;> rfl

section

variable {library : Library} {types : List (String × ValueType)} {callerName : String}
variable {nodes : List FinalizedNode} {d : Declaration} {type : ValueType}

theorem finalizeAliases_constants (scope : Scope) (types : List (String × ValueType)) :
  Xml.finalizeAliases scope (types.map fun a => (a.1, .other a.2 true)) = .ok (aliasMap types)
  := by
  induction types with
  | nil => rfl
  | cons a rest ih =>
    unfold Xml.finalizeAliases at ih ⊢
    rw [List.map_cons, List.mapM_cons, ih]
    rfl

/-- The call comes first, and then the called node with the aliases. -/
theorem parsePlan_callNode (callerName : String) (types : List (String × ValueType))
    (library : Library) :
  ∃ around caller, Xml.parsePlan [] (callNode callerName types library) =
    (finalizeNode around [aliasMap types] [0] library.root).map fun rest => caller :: rest
  := by
  obtain ⟨own, hown⟩ : ∃ own, finalizeHeader ⟨[], [], [], []⟩ [] []
      (callNode callerName types library) = .ok own := ⟨_, rfl⟩
  refine ⟨⟨[], own.containing ++ own.callers,
    (types.map fun a => (a.1, Xml.Expr.other a.2 true)).map Prod.fst, library.globalMutexes⟩,
    own, ?_⟩
  unfold Xml.parsePlan callNode
  rw [finalizeNode]
  unfold callNode at hown
  rw [hown]
  simp only [bind, Except.bind, finalizeAliases_constants]
  cases finalizeNode _ [aliasMap types] [0] library.root <;> rfl

theorem accepts_iff (callerName : String) :
  library.Accepts types ↔
    ∃ nodes, Xml.parsePlan [] (callNode callerName types library) = .ok nodes
  := by
  constructor
  · rintro ⟨callerName', nodes, h⟩
    obtain ⟨around', caller', heq'⟩ := parsePlan_callNode callerName' types library
    obtain ⟨around, caller, heq⟩ := parsePlan_callNode callerName types library
    rw [heq', Except.map_eq_ok] at h
    obtain ⟨rest, hrest, -⟩ := h
    obtain ⟨rest', hrest'⟩ := finalizeNode_surroundings around' around _ _ _ _ hrest
    use caller :: rest'
    rw [heq, hrest']
    rfl
  · rintro ⟨nodes, h⟩
    exact ⟨callerName, nodes, h⟩

theorem Library.distinct_interface (library : Library) :
  (library.root.header.interface.map fun d => d.2.name).Nodup
  := by
  have hdistinct := library.distinct
  unfold Header.variables at hdistinct
  rw [List.map_append, List.map_map] at hdistinct
  apply (List.nodup_append.mp hdistinct).2.1

theorem Library.declarations_ne (library : Library) {d : InterfaceVar}
    (hd : d ∈ library.root.header.interface) :
  ∀ decl ∈ library.root.header.declarations, decl.name ≠ d.2.name
  := by
  have hdistinct := library.distinct
  unfold Header.variables at hdistinct
  rw [List.map_append, List.map_map] at hdistinct
  intro decl hdecl
  apply (List.nodup_append.mp hdistinct).2.2
  · apply List.mem_map_of_mem hdecl
  · exact List.mem_map_of_mem (f := Declaration.name ∘ Prod.snd) hd

/-- An alias with the name of an In parameter is that parameter. -/
theorem parameter_of_call (h : Xml.parsePlan [] (callNode callerName types library) = .ok nodes)
    (hd : (.in, d) ∈ library.root.header.interface) (htype : types.lookup d.name = some type) :
  d.type = type ∧ ∃ caller callee rest, nodes = caller :: callee :: rest ∧
    callee.scope.findLocalVariable d.name = none
  := by
  obtain ⟨around, caller, heq⟩ := parsePlan_callNode callerName types library
  rw [heq, Except.map_eq_ok] at h
  obtain ⟨rest, hrest, rfl⟩ := h
  obtain ⟨callee, others, hcallee, rfl⟩ := finalizeNode_head hrest
  obtain ⟨defaults, hlink, -⟩ := finalizeHeader_cases hcallee
  have hlocal : (localVariables [0] library.root.header).lookup d.name = none :=
    lookup_localVariables (library.declarations_ne hd)
  have halias : (aliasMap types).lookup d.name = some (.other type) := by
    rw [lookup_aliasMap, htype]
    rfl
  have hfound : Scope.findVariable ⟨localVariables [0] library.root.header, [aliasMap types]⟩
      d.name = some (.other type) := by
    rw [Scope.findVariable_eq, hlocal, Option.none_or, List.findSome?_cons, halias]
  obtain ⟨hsame, hown⟩ :=
    linkInterface_parameter hlink hd rfl library.distinct_interface hfound rfl
  refine ⟨hsame, caller, callee, others, rfl, ?_⟩
  rw [hown]
  exact hlocal

end

/-! ### Wrapper plans -/

/-- The wrapper plan for a library and names and values of parameters. -/
def wrapperPlan (reals : RealFormat) (callerName : List Char) (name : StringValue)
    (pairs : List (StringValue × Intfc.Value)) : WrapperPlan where
  callerName := cString callerName
  calleeName := cString (chars name)
  aliases := pairs.map fun p => (cString (chars p.1), valueToExprXml reals p.2)

theorem makeWrapperPlanXml_eq (callerName : List Char) (name : StringValue)
    (pairs : List (StringValue × Intfc.Value)) :
  makeWrapperPlanXml reals callerName (chars name) ((pairs.map Prod.fst).map chars)
    (pairs.map Prod.snd) = wrapperPlan reals callerName name pairs
  := by
  unfold makeWrapperPlanXml wrapperPlan
  rw [List.map_map, List.zip_map', List.map_map]
  rfl

theorem createConditions_eq_ok (plan : WrapperPlan) :
  createConditions factories plan = .ok ()
  := by
  have hlookup : ∃ cond, Document.createExpression factories {} [] .unknown plan.exitLookup =
      .ok cond ∧ (cond.valueType = .boolean ∨ cond.valueType = .unknown) := by
    simp [WrapperPlan.exitLookup, Document.createExpression, Document.createExpressions,
      Document.createArguments, Document.checkThat, Document.SymbolTable.getLookup, bind,
      Except.bind, pure, Except.pure]
  obtain ⟨cond, hcond, htype⟩ := hlookup
  rw [createConditions, hcond]
  exact if_pos htype

variable {plan : WrapperPlan} {loaded : LoadedPlan}

theorem checkPlan_eq_ok {u : Unit} :
  checkPlan factories plan = .ok u ↔
    Document.checkChildren factories {} [] false true plan.children = .ok () ∧
      Document.checkLibraryCall (String.ofList plan.calleeName) plan.aliasElements = .ok () ∧
      ∀ a ∈ plan.aliases, checkAliasValue a.2 = .ok ()
  := by
  unfold checkPlan
  simp only [Except.bind_eq_ok, Except.mapError_eq_ok, Except.forM_eq_ok]
  exact ⟨fun ⟨_, hchildren, _, hcall⟩ => ⟨hchildren, hcall⟩,
    fun ⟨hchildren, hcall⟩ => ⟨(), hchildren, (), hcall⟩⟩

/-- What a wrapper plan needs for being accepted. -/
theorem parsePlan_eq_ok :
  parsePlan reals factories libraries plan = .ok loaded ↔
    Document.checkChildren factories {} [] false true plan.children = .ok () ∧
      Document.checkLibraryCall (String.ofList plan.calleeName) plan.aliasElements = .ok () ∧
      (∀ a ∈ plan.aliases, checkAliasValue a.2 = .ok ()) ∧
      ∃ library aliases nodes,
        libraries.getLibraryNode (String.ofList plan.calleeName) = some library ∧
          finalizeAliases reals plan = .ok aliases ∧
          Xml.parsePlan [] (callNode (String.ofList plan.callerName)
            (aliases.map fun a => (a.1, a.2.valueType)) library) = .ok nodes ∧
          loaded = ⟨String.ofList plan.callerName, aliases, nodes⟩
  := by
  unfold parsePlan
  rw [Except.bind_eq_ok]
  simp only [checkPlan_eq_ok, exists_const]
  rw [and_assoc, and_assoc]
  refine and_congr_right fun _ => and_congr_right fun _ => and_congr_right fun _ => ?_
  cases hfound : libraries.getLibraryNode (String.ofList plan.calleeName) with
  | none => simp
  | some library =>
    simp only [createConditions_eq_ok, Except.bind_eq_ok, Except.mapError_eq_ok, exists_const,
      Option.some.injEq]
    constructor
    · rintro ⟨-, aliases, haliases, nodes, hnodes, heq⟩
      cases heq
      exact ⟨library, aliases, nodes, rfl, haliases, hnodes, rfl⟩
    · rintro ⟨_, aliases, nodes, rfl, haliases, hnodes, rfl⟩
      exact ⟨trivial, aliases, haliases, nodes, hnodes, rfl⟩

/-! ### Names and values -/

section

variable {callerName : List Char} {name : StringValue} {pairs : List (StringValue × Intfc.Value)}

theorem checkLibraryCall_wrapper {u : Unit} :
  Document.checkLibraryCall (String.ofList (wrapperPlan reals callerName name pairs).calleeName)
      (wrapperPlan reals callerName name pairs).aliasElements = .ok u ↔
    nameOf name ≠ "" ∧ (∀ p ∈ pairs, nameOf p.1 ≠ "") ∧ (pairs.map fun p => nameOf p.1).Nodup
  := by
  rw [checkLibraryCall_eq_ok]
  unfold WrapperPlan.aliasElements wrapperPlan
  simp only [List.map_map, List.forall_mem_map]
  rfl

/-- The values which are read have the types of the values which are given. -/
theorem types_of_finalizeAliases (hknown : ∀ p ∈ pairs, p.2.isKnown = true)
    {aliases : List (String × Intfc.Value)}
    (h : finalizeAliases reals (wrapperPlan reals callerName name pairs) = .ok aliases) :
  (aliases.map fun a => (a.1, a.2.valueType)) = pairs.map fun p => (nameOf p.1, p.2.valueType)
  := by
  unfold finalizeAliases wrapperPlan at h
  dsimp only at h
  induction pairs generalizing aliases with
  | nil =>
    cases h
    rfl
  | cons p rest ih =>
    rw [List.map_cons, List.mapM_cons] at h
    obtain ⟨a, ha, h⟩ := Except.bind_eq_ok.mp h
    obtain ⟨others, hothers, h⟩ := Except.bind_eq_ok.mp h
    cases h
    obtain ⟨v, hv, rfl⟩ := Except.map_eq_ok.mp ha
    rw [List.forall_mem_cons] at hknown
    rw [List.map_cons, List.map_cons, ih hknown.2 hothers,
      valueType_createExpression hknown.1 hv]
    rfl

theorem finalizeAliases_plain (hplain : ∀ p ∈ pairs, Plain p.2) :
  finalizeAliases reals (wrapperPlan reals callerName name pairs) =
    .ok (pairs.map fun p => (nameOf p.1, p.2))
  := by
  unfold finalizeAliases wrapperPlan
  dsimp only
  induction pairs with
  | nil => rfl
  | cons p rest ih =>
    rw [List.forall_mem_cons] at hplain
    rw [List.map_cons, List.mapM_cons, ih hplain.2, createExpression_plain hplain.1]
    rfl

theorem checkAliasValue_plain {v : Intfc.Value} (h : Plain v) :
  checkAliasValue (valueToExprXml reals v) = .ok ()
  := by
  cases h <;> rfl

end

end Plexil.Launcher

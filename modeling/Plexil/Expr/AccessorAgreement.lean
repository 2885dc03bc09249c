import Plexil.Expr.Accessors

/-!
# Agreement of the accessors

The accessors of an expression tell the same about its value, whatever its parts are: strings are
the same by value and by pointer, and the arrays which an expression has are of its own type.
The functions of three operators cannot be read as Reals.
-/

namespace Plexil.Expr

/-! ### What the accessors are to tell -/

namespace Expression

/-- The answer of the accessor for the type which the expression has. -/
def own (e : Expression) : Read (Option Intfc.Value) :=
  match e.valueType with
  | .boolean => (e.getValue .boolean).map (Option.map .boolean)
  | .integer => (e.getValue .integer).map (Option.map .integer)
  | .real | .date | .duration => (e.getValue .real).map (Option.map .real)
  | .string => (e.getValuePointer .string).map (Option.map .string)
  | .booleanArray => (e.getValuePointer (.arrayOf .boolean)).map (Option.map .booleanArray)
  | .integerArray => (e.getValuePointer (.arrayOf .integer)).map (Option.map .integerArray)
  | .realArray => (e.getValuePointer (.arrayOf .real)).map (Option.map .realArray)
  | .stringArray => (e.getValuePointer (.arrayOf .string)).map (Option.map .stringArray)
  | .nodeState => (e.getValue .nodeState).map (Option.map .nodeState)
  | .outcome => (e.getValue .outcome).map (Option.map .outcome)
  | .failure => (e.getValue .failure).map (Option.map .failure)
  | .commandHandle => (e.getValue .commandHandle).map (Option.map .commandHandle)
  | _ => .ok none

/-- No error is raised when the expression is read. -/
def NoPlanError (e : Expression) : Prop := (∃ o, e.own = .ok o) ∧ ∃ b, e.isKnown = .ok b

/-- `isKnown`, `toValue` and the accessor for the type of the expression tell the same, strings are
the same by value and by pointer, and Integers are converted when they are read as Reals. -/
structure AccessorsAgree (e : Expression) : Prop where
  isKnown : ∀ o, e.own = .ok o → e.isKnown = .ok o.isSome
  toValue : ∀ o, e.own = .ok o →
    ∃ val, e.toValue = .ok val ∧ val.isKnown = o.isSome ∧ ∀ x ∈ o, val = x
  string : e.valueType = .string → e.getValue .string = e.getValuePointer .string
  real : e.valueType = .integer → e.getValue .real = toReal (e.getValue .integer)

end Expression

/-- The expression is a function of an operator on Integers which overrides `operator()`, or an
alias for one. -/
def ExprTree.overridesOperator : ExprTree → Bool
  | .inAlias m_exp => m_exp.overridesOperator
  | .stringLength _ | .arraySize _ | .arrayMaxSize _ => true
  | _ => false

/-! ### One answer for all accessors -/

/-- `isKnown`, `toValue` and the accessor for the type of the expression go back to one answer. -/
structure Reports {α : Type} (e : Expression) (answer : Read (Option α)) (value : α → Intfc.Value) :
    Prop where
  isKnown : e.isKnown = known answer
  toValue : ∃ type, e.toValue = valueOf type value answer
  own : e.own = answer.map (Option.map value)
  isKnown_value : ∀ a, (value a).isKnown = true

variable {α : Type} {e : Expression} {answer : Read (Option α)} {value : α → Intfc.Value}

theorem Reports.isKnown_eq (h : Reports e answer value) {o : Option Intfc.Value}
    (hown : e.own = .ok o) :
  e.isKnown = .ok o.isSome
  := by
  rw [h.own] at hown
  obtain ⟨a, rfl, rfl⟩ := Except.map_eq_ok.mp hown
  rw [h.isKnown]
  simp [known, Except.map]

theorem Reports.toValue_eq (h : Reports e answer value) {o : Option Intfc.Value}
    (hown : e.own = .ok o) :
  ∃ val, e.toValue = .ok val ∧ val.isKnown = o.isSome ∧ ∀ x ∈ o, val = x
  := by
  rw [h.own] at hown
  obtain ⟨a, rfl, rfl⟩ := Except.map_eq_ok.mp hown
  obtain ⟨type, htype⟩ := h.toValue
  rw [htype]
  cases a with
  | none => exact ⟨.unknown type, rfl, rfl, fun x hx => by contradiction⟩
  | some a =>
    refine ⟨value a, rfl, h.isKnown_value a, fun x hx => ?_⟩
    simpa using hx

/-- What holds of every expression which the parser makes, so that the expressions above it can
rely on it. -/
structure Coherent (e : Expression) : Prop where
  isKnown : e.NoPlanError → ∀ o, e.own = .ok o → e.isKnown = .ok o.isSome
  toValue : e.NoPlanError → ∀ o, e.own = .ok o →
    ∃ val, e.toValue = .ok val ∧ val.isKnown = o.isSome ∧ ∀ x ∈ o, val = x
  string : e.getValue .string = e.getValuePointer .string
  array : ∀ ary, e.getValuePointer .array = .ok (some ary) →
    e.valueType = ary.elementType.arrayType

theorem Reports.coherent (h : Reports e answer value)
    (hstring : e.getValue .string = e.getValuePointer .string)
    (harray : ∀ ary, e.getValuePointer .array = .ok (some ary) →
      e.valueType = ary.elementType.arrayType) :
  Coherent e
  where
  isKnown _ _ hown := h.isKnown_eq hown
  toValue _ _ hown := h.toValue_eq hown
  string := hstring
  array := harray

/-! ### Classes with a type of their own -/

theorem isKnown_value (T : ScalarType) (a : T.Carrier) :
  (T.value a).isKnown = true
  := by
  cases T <;> rfl

theorem reports_getValueImpl {T : ScalarType} (hT : T ≠ .string) (answer : Read (Option T.Carrier)) :
  Reports (getValueImpl T T.valueType answer) answer T.value
  where
  isKnown := rfl
  toValue := ⟨_, rfl⟩
  own := by cases T <;> first | rfl | contradiction
  isKnown_value := isKnown_value T

theorem coherent_getValueImpl {T : ScalarType} (hT : T ≠ .string)
    (answer : Read (Option T.Carrier)) :
  Coherent (getValueImpl T T.valueType answer)
  := by
  apply (reports_getValueImpl hT answer).coherent
  · cases T <;> first | rfl | contradiction
  · intro ary h
    cases h

theorem real_getValueImpl {T : ScalarType} (answer : Read (Option T.Carrier))
    (htype : T.valueType = .integer) :
  (getValueImpl T T.valueType answer).getValue .real =
    toReal ((getValueImpl T T.valueType answer).getValue .integer)
  := by
  cases T <;> first | rfl | cases htype

/-- A class whose `isKnown` looks at the value itself. -/
theorem isKnown_getValueImpl {T : ScalarType} (valueType : ValueType) (m_value : Option T.Carrier) :
  { getValueImpl T valueType (.ok m_value) with isKnown := .ok m_value.isSome } =
    getValueImpl T valueType (.ok m_value)
  := rfl

theorem coherent_userVariable (T : ScalarType) (m_value : Option T.Carrier) :
  Coherent (userVariable T m_value)
  := by
  by_cases hT : T = .string
  · subst hT
    have hreports : Reports (userVariable .string m_value) (.ok m_value) .string :=
      ⟨rfl, ⟨_, rfl⟩, rfl, fun _ => rfl⟩
    apply hreports.coherent rfl
    intro ary h
    cases h
  · have heq : userVariable T m_value = getValueImpl T T.valueType (.ok m_value) := by
      cases T <;> first | rfl | contradiction
    rw [heq]
    apply coherent_getValueImpl hT

theorem coherent_arrayVariable (T : ElementType) (m_value : Option (ArrayImpl T.Carrier)) :
  Coherent (arrayVariable T m_value)
  := by
  have hreports : Reports (arrayVariable T m_value) (.ok m_value) T.value := by
    constructor
    · rfl
    · exact ⟨_, rfl⟩
    · cases T <;> rfl
    · cases T <;> exact fun _ => rfl
  apply hreports.coherent
  · cases T <;> rfl
  · intro ary h
    have h : (Except.ok (m_value.map (AnyArray.mk T)) : Read (Option AnyArray)) = .ok (some ary) := h
    simp only [Except.ok.injEq, Option.map_eq_some_iff] at h
    obtain ⟨a, -, rfl⟩ := h
    rfl

theorem coherent_nodeTimepointValue (m_time : Option Real) :
  Coherent (nodeTimepointValue m_time)
  := by
  have hreports : Reports (nodeTimepointValue m_time) (.ok m_time) .real :=
    ⟨rfl, ⟨_, rfl⟩, rfl, fun _ => rfl⟩
  apply hreports.coherent rfl
  intro ary h
  cases h

theorem coherent_outcomeVariable (outcome : NodeOutcome) :
  Coherent (outcomeVariable outcome)
  := by
  have heq : outcomeVariable outcome = getValueImpl .outcome .outcome
      (.ok (if outcome = .noOutcome then none else some outcome)) := by
    cases outcome <;> rfl
  rw [heq]
  apply coherent_getValueImpl (T := .outcome) (by decide)

theorem coherent_failureVariable (ftype : FailureType) :
  Coherent (failureVariable ftype)
  := by
  have heq : failureVariable ftype = getValueImpl .failure .failure
      (.ok (if ftype = .noFailure then none else some ftype)) := by
    cases ftype <;> rfl
  rw [heq]
  apply coherent_getValueImpl (T := .failure) (by decide)

theorem coherent_commandHandleVariable (handle : CommandHandleValue) :
  Coherent (commandHandleVariable handle)
  := by
  have heq : commandHandleVariable handle = getValueImpl .commandHandle .commandHandle
      (.ok (if handle = .noCommandHandle then none else some handle)) := by
    cases handle <;> rfl
  rw [heq]
  apply coherent_getValueImpl (T := .commandHandle) (by decide)

/-! ### Lookups -/

/-- A cached value with a type of its own is read as it is. -/
theorem own_lookup_some (declaredType : ValueType) {c : Intfc.CachedValue}
    (h : c.valueType ≠ .unknown) :
  (lookup declaredType (some c)).own = .ok (if c.isKnown then some c.toValue else none)
  := by
  have htype : (lookup declaredType (some c)).valueType = c.valueType := if_pos h
  obtain ⟨val, hcached⟩ := c
  unfold Expression.own
  rw [htype]
  cases val with
  | unknown type =>
    cases type <;> first | rfl | cases hcached
  | _ => first | rfl | cases hcached

/-- Without a value, or with a `VoidCachedValue`, there is nothing to be read. -/
theorem own_lookup_void {declaredType : ValueType} {m_value : Option Intfc.CachedValue}
    (h : ∀ c ∈ m_value, c.valueType = .unknown) {o : Option Intfc.Value}
    (hown : (lookup declaredType m_value).own = .ok o) :
  o = none ∧ (lookup declaredType m_value).isKnown = .ok false ∧
    (lookup declaredType m_value).toValue = .ok (.unknown .unknown)
  := by
  cases m_value with
  | none =>
    refine ⟨?_, rfl, rfl⟩
    cases declaredType <;> cases hown <;> rfl
  | some c =>
    obtain ⟨val, hcached⟩ := c
    have hval : val = .unknown .unknown := by
      have hval := h ⟨val, hcached⟩ rfl
      cases val <;> cases hval
      rfl
    subst hval
    refine ⟨?_, rfl, rfl⟩
    cases declaredType <;> cases hown <;> rfl

theorem array_lookup {declaredType : ValueType} {m_value : Option Intfc.CachedValue}
    {ary : AnyArray} (h : (lookup declaredType m_value).getValuePointer .array = .ok (some ary)) :
  (lookup declaredType m_value).valueType = ary.elementType.arrayType
  := by
  obtain _ | ⟨val, hcached⟩ := m_value
  · cases h
  · cases val with
    | unknown type => cases type <;> cases h
    | _ => cases h <;> rfl

theorem coherent_lookup (declaredType : ValueType) (m_value : Option Intfc.CachedValue) :
  Coherent (lookup declaredType m_value)
  := by
  by_cases hvoid : ∀ c ∈ m_value, c.valueType = .unknown
  · constructor
    · intro _ o hown
      obtain ⟨rfl, hknown, -⟩ := own_lookup_void hvoid hown
      exact hknown
    · intro _ o hown
      obtain ⟨rfl, -, htoValue⟩ := own_lookup_void hvoid hown
      exact ⟨_, htoValue, rfl, fun x hx => by contradiction⟩
    · cases m_value <;> rfl
    · intro ary
      apply array_lookup
  · push Not at hvoid
    obtain ⟨c, rfl, htype⟩ := hvoid
    constructor
    · intro _ o hown
      rw [own_lookup_some declaredType htype] at hown
      cases hown
      show Except.ok c.isKnown = _
      cases c.isKnown <;> rfl
    · intro _ o hown
      rw [own_lookup_some declaredType htype] at hown
      cases hown
      refine ⟨c.toValue, rfl, ?_, ?_⟩
      · show c.isKnown = _
        cases c.isKnown <;> rfl
      · intro x hx
        cases hknown : c.isKnown <;> simp_all
    · rfl
    · intro ary
      apply array_lookup

theorem real_lookup {declaredType : ValueType} {m_value : Option Intfc.CachedValue}
    (htype : (lookup declaredType m_value).valueType = .integer) :
  (lookup declaredType m_value).getValue .real =
    toReal ((lookup declaredType m_value).getValue .integer)
  := by
  obtain _ | ⟨val, hcached⟩ := m_value
  · rfl
  · cases val with
    | unknown type => cases type <;> first | rfl | cases htype
    | _ => first | rfl | cases htype

/-! ### Array references -/

theorem element_of_known {ary : AnyArray} {idx : Nat}
    (h : ary.getKnownVector[idx]? = some true) :
  ∃ contents, ary.element idx = some contents
  := by
  simp only [AnyArray.getKnownVector, ArrayImpl.getKnownVector, List.getElem?_map,
    Option.map_eq_some_iff] at h
  obtain ⟨⟨known, contents⟩, helement, hknown⟩ := h
  cases hknown
  refine ⟨contents, ?_⟩
  simp [AnyArray.element, helement]

/-- What the check has found: an array of the type of `m_array`, with a known element. -/
theorem selfCheck_some {m_array m_index : Expression} (hcoherent : Coherent m_array)
    {ary : AnyArray} {idx : Nat}
    (h : ArrayReference.selfCheck m_array m_index = .ok (some (ary, idx))) :
  m_array.valueType = ary.elementType.arrayType ∧ ∃ contents, ary.element idx = some contents
  := by
  unfold ArrayReference.selfCheck at h
  obtain ⟨index, hindex, h⟩ := Except.bind_eq_ok.mp h
  cases index with
  | none => cases h
  | some idxTemp =>
    dsimp only at h
    split at h
    · cases h
    · obtain ⟨pointer, hpointer, h⟩ := Except.bind_eq_ok.mp h
      cases pointer with
      | none => cases h
      | some ary' =>
        dsimp only at h
        split at h
        · cases h
        · rename_i known hknown
          cases known with
          | false => cases h
          | true =>
            cases h
            refine ⟨hcoherent.array _ hpointer, element_of_known hknown⟩

section ArrayReference

variable {m_array m_index : Expression}

/-- There is nothing to be read when the check finds nothing. -/
theorem own_arrayReference_none (h : ArrayReference.selfCheck m_array m_index = .ok none) :
  (arrayReference m_array m_index).own = .ok none
  := by
  simp only [Expression.own, arrayReference, h]
  cases m_array.valueType <;> rfl

/-- The element is read as it is. -/
theorem own_arrayReference_some (hcoherent : Coherent m_array) {ary : AnyArray} {idx : Nat}
    (h : ArrayReference.selfCheck m_array m_index = .ok (some (ary, idx))) :
  (arrayReference m_array m_index).own = .ok (some (ary.getElementValue idx)) ∧
    (ary.getElementValue idx).isKnown = true
  := by
  obtain ⟨htype, contents, hcontents⟩ := selfCheck_some hcoherent h
  obtain ⟨T, elements⟩ := ary
  simp only [Expression.own, arrayReference, h, htype, AnyArray.getElementValue, hcontents]
  cases T <;>
    simp [ElementType.arrayType, arrayElementType, ArrayReference.getValue,
      ArrayReference.element, AnyArray.getElement, hcontents, Except.map, bind, Except.bind,
      ElementType.elementValue, Intfc.Value.isKnown, Function.update_self]

theorem coherent_arrayReference (hcoherent : Coherent m_array) :
  Coherent (arrayReference m_array m_index)
  := by
  cases hcheck : ArrayReference.selfCheck m_array m_index with
  | error e =>
    have herror : ¬(arrayReference m_array m_index).NoPlanError := by
      rintro ⟨-, b, hb⟩
      simp [arrayReference, hcheck, known, Except.map] at hb
    refine ⟨fun h => absurd h herror, fun h => absurd h herror, rfl, ?_⟩
    intro ary h
    cases h
  | ok found =>
    cases found with
    | none =>
      have hown := own_arrayReference_none hcheck
      refine ⟨?_, ?_, rfl, ?_⟩
      · intro _ o ho
        rw [hown] at ho
        cases ho
        simp [arrayReference, hcheck, known, Except.map]
      · intro _ o ho
        rw [hown] at ho
        cases ho
        refine ⟨.unknown .unknown, ?_, rfl, fun x hx => by contradiction⟩
        simp [arrayReference, hcheck, valueOf, Except.map]
      · intro ary h
        cases h
    | some found =>
      obtain ⟨ary, idx⟩ := found
      obtain ⟨hown, hknown⟩ := own_arrayReference_some hcoherent hcheck
      refine ⟨?_, ?_, rfl, ?_⟩
      · intro _ o ho
        rw [hown] at ho
        cases ho
        simp [arrayReference, hcheck, known, Except.map]
      · intro _ o ho
        rw [hown] at ho
        cases ho
        refine ⟨ary.getElementValue idx, ?_, hknown, ?_⟩
        · simp [arrayReference, hcheck, valueOf, Except.map]
        · intro x hx
          simpa using hx
      · intro ary h
        cases h

theorem real_arrayReference (hcoherent : Coherent m_array)
    (htype : (arrayReference m_array m_index).valueType = .integer) :
  (arrayReference m_array m_index).getValue .real =
    toReal ((arrayReference m_array m_index).getValue .integer)
  := by
  simp only [arrayReference, ArrayReference.getValue]
  cases hcheck : ArrayReference.selfCheck m_array m_index with
  | error e => rfl
  | ok found =>
    obtain _ | ⟨ary, idx⟩ := found
    · rfl
    · obtain ⟨harray, -⟩ := selfCheck_some hcoherent hcheck
      have helement : ary.elementType = .integer := by
        simp only [arrayReference, harray] at htype
        cases h : ary.elementType <;> rw [h] at htype <;> first | rfl | cases htype
      simp [ArrayReference.element, bind, Except.bind, helement]

end ArrayReference

/-! ### Functions -/

theorem convert_of_calc {methods : Methods Integer} {args : List Expression} :
  (Methods.map Integer.toReal methods).byArity args = toReal (methods.byArity args)
  := by
  unfold Methods.byArity
  split <;> rfl

section Function

variable {R : ScalarType} (m_op : OperatorImpl R) (args : List Expression)

theorem apply_self :
  m_op.apply R = m_op.operatorMethods
  := by
  simp [OperatorImpl.apply]

theorem coherent_function (hR : R ∈ [.boolean, .integer, .real]) :
  Coherent (function m_op args)
  := by
  have hreports : Reports (function m_op args) ((function m_op args).getValue R) R.value := by
    refine ⟨rfl, ⟨_, rfl⟩, ?_, isKnown_value R⟩
    simp only [List.mem_cons, List.not_mem_nil, or_false] at hR
    obtain rfl | rfl | rfl := hR <;> rfl
  apply hreports.coherent
  · simp only [List.mem_cons, List.not_mem_nil, or_false] at hR
    obtain rfl | rfl | rfl := hR <;> rfl
  · intro ary h
    cases h

end Function

/-- A function of an operator which implements `calc` is converted. -/
theorem real_function (methods : Methods Integer) (args : List Expression) :
  (function (R := .integer) ⟨methods, methods⟩ args).getValue .real =
    toReal ((function (R := .integer) ⟨methods, methods⟩ args).getValue .integer)
  := convert_of_calc

/-- A function of an operator which overrides `operator()` instead cannot be read as a Real. -/
theorem real_function_error {m_op : OperatorImpl .integer} (args : List Expression)
    (h : m_op.calcMethods = Methods.notImplemented) :
  (function m_op args).getValue .real = .error .planError
  := by
  have hmap : (function m_op args).getValue .real =
      (Methods.map Integer.toReal m_op.calcMethods).byArity args := rfl
  rw [hmap, h, convert_of_calc]
  unfold Methods.byArity
  split <;> rfl

/-- Whatever the number of the arguments, the string which is pointed to is the one which is
returned. -/
theorem coherent_cachedFunction (args : List Expression) :
  Coherent (cachedFunction stringConcat args)
  := by
  have hpointer : (cachedFunction stringConcat args).getValuePointer .string =
      (stringConcat.apply .string).byArity args := by
    simp only [cachedFunction, Function.update_self, ite_eq_right_iff]
    intro _
    rw [apply_self]
    rfl
  have hreports : Reports (cachedFunction stringConcat args)
      ((stringConcat.apply .string).byArity args) .string := by
    refine ⟨rfl, ⟨_, rfl⟩, ?_, fun _ => rfl⟩
    rw [← hpointer]
    rfl
  apply hreports.coherent
  · rw [hpointer]
    rfl
  · intro ary h
    cases h

/-! ### Trees -/

namespace ExprTree

theorem coherent_expression :
  (t : ExprTree) → Coherent t.expression
  | constant T m_value | userVariable T m_value => coherent_userVariable T m_value
  | array T m_value => coherent_arrayVariable T m_value
  | state nodeState => coherent_getValueImpl (T := .nodeState) (by decide) (.ok (some nodeState))
  | outcome nodeOutcome => coherent_outcomeVariable nodeOutcome
  | failure ftype => coherent_failureVariable ftype
  | commandHandle handle => coherent_commandHandleVariable handle
  | timepoint m_time => coherent_nodeTimepointValue m_time
  | nodeFunction computed => coherent_getValueImpl (T := .boolean) (by decide) computed
  | lookup declaredType m_value => coherent_lookup declaredType m_value
  | inAlias m_exp => coherent_expression m_exp
  | arrayReference m_array _ => coherent_arrayReference (coherent_expression m_array)
  | booleanFunction _ _ => coherent_function _ _ (by decide)
  | integerFunction _ _ => coherent_function _ _ (by decide)
  | realFunction _ _ => coherent_function _ _ (by decide)
  | stringLength _ => coherent_function _ _ (by decide)
  | arraySize _ => coherent_function _ _ (by decide)
  | arrayMaxSize _ => coherent_function _ _ (by decide)
  | concat _ => coherent_cachedFunction _

/-- An Integer expression is converted, unless it is a function of one of three operators. -/
theorem real_expression :
  (t : ExprTree) → t.overridesOperator = false → t.expression.valueType = .integer →
    t.expression.getValue .real = toReal (t.expression.getValue .integer)
  | constant T m_value, _, htype | userVariable T m_value, _, htype => by
    cases T <;> first | rfl | cases htype
  | array T m_value, _, htype => by cases T <;> cases htype
  | state _, _, htype => by cases htype
  | outcome _, _, htype => by cases htype
  | failure _, _, htype => by cases htype
  | commandHandle _, _, htype => by cases htype
  | timepoint _, _, htype => by cases htype
  | nodeFunction _, _, htype => by cases htype
  | lookup _ _, _, htype => real_lookup htype
  | inAlias m_exp, h, htype => real_expression m_exp h htype
  | arrayReference m_array _, _, htype =>
    real_arrayReference (coherent_expression m_array) htype
  | booleanFunction _ _, _, htype => by cases htype
  | integerFunction methods _, _, _ => real_function methods _
  | realFunction _ _, _, htype => by cases htype
  | concat _, _, htype => by cases htype

/-- Those functions have the type Integer, and cannot be read as Reals. -/
theorem real_expression_error :
  (t : ExprTree) → t.overridesOperator = true →
    t.expression.valueType = .integer ∧ t.expression.getValue .real = .error .planError
  | inAlias m_exp, h => real_expression_error m_exp h
  | stringLength _, _ => ⟨rfl, real_function_error _ rfl⟩
  | arraySize _, _ => ⟨rfl, real_function_error _ rfl⟩
  | arrayMaxSize _, _ => ⟨rfl, real_function_error _ rfl⟩

/-- The accessors of an expression which is read without an error agree, unless it is a function of
an operator on Integers which overrides `operator()`. -/
theorem accessorsAgree_iff (t : ExprTree) (h : t.expression.NoPlanError) :
  t.expression.AccessorsAgree ↔ t.overridesOperator = false
  := by
  have hcoherent := t.coherent_expression
  constructor
  · intro hagree
    by_contra hoverrides
    obtain ⟨htype, hreal⟩ := t.real_expression_error (by simpa using hoverrides)
    obtain ⟨⟨o, ho⟩, -⟩ := h
    have hown : t.expression.own = (t.expression.getValue .integer).map (Option.map .integer) := by
      simp only [Expression.own, htype]
    rw [hown] at ho
    obtain ⟨value, hvalue, -⟩ := Except.map_eq_ok.mp ho
    have hconverted := hagree.real htype
    rw [hreal, hvalue] at hconverted
    cases hconverted
  · intro hoverrides
    exact ⟨hcoherent.isKnown h, hcoherent.toValue h, fun _ => hcoherent.string,
      t.real_expression hoverrides⟩

/-- The sum of a variable and a constant. -/
theorem accessorsAgree_sum :
  (integerFunction
      { Methods.notImplemented with
        two := fun arg0 arg1 => do
          match ← arg0.getValue .integer, ← arg1.getValue .integer with
          | some temp0, some temp1 => return some (temp0 + temp1)
          | _, _ => return none }
      [userVariable .integer (some 2), constant .integer (some 3)]).expression.AccessorsAgree
  := (accessorsAgree_iff _ ⟨⟨some (.integer 5), rfl⟩, true, rfl⟩).mpr rfl

/-- The length of a string is known, and is no Real. -/
theorem not_accessorsAgree :
  ¬ ∀ t : ExprTree, t.expression.NoPlanError → t.expression.AccessorsAgree
  := by
  intro h
  have hagree := h (stringLength [constant .string (some [97])])
    ⟨⟨some (.integer 1), rfl⟩, true, rfl⟩
  have hreal := hagree.real rfl
  cases hreal

end ExprTree

end Plexil.Expr

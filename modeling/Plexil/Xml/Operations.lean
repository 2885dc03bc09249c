import Plexil.Intfc.CachedValue

/-!
# Arithmetic operations

An arithmetic operation has an operator on Integers and one on Reals.  Which one is taken is
decided by a type which is computed from the types of the operands, from the first one to the
last one.  An operand of unknown type counts as Real when it is the first one and no Integer is
desired, and as Integer when it is not the first one.
-/

namespace Plexil

/-- The types of Real values. -/
def ValueType.isRealType : ValueType → Bool
  | .real | .date | .duration => true
  | _ => false

namespace Xml

/-! ### The common type -/

/-- The type for the first operand; `none` is a return. -/
def firstOperandType (desiredType : ValueType) : ValueType → Option ValueType
  | .real | .date | .duration => some .real
  | .integer => some .integer
  | .unknown => some (if desiredType = .integer then .integer else .real)
  | _ => none

/-- The loop over the operands after the first one. -/
def otherOperandTypes (result : ValueType) : List ValueType → ValueType
  | [] => if result = .unknown then .real else result
  | .real :: rest | .date :: rest | .duration :: rest => otherOperandTypes .real rest
  | .unknown :: rest | .integer :: rest =>
    otherOperandTypes (if result ≠ .real then .integer else result) rest
  | _ :: _ => .unknown

/-- It is an error when there are no operands. -/
def arithmeticCommonType (types : List ValueType) (desiredType : ValueType) : Option ValueType :=
  match types with
  | [] => none
  | first :: rest =>
    match firstOperandType desiredType first with
    | none => some .unknown
    | some result => some (otherOperandTypes result rest)

/-! ### Operations -/

/-- The operators are pointers, which may be null. -/
structure ArithmeticOperation (Operator : Type) where
  name : String
  integerOperator : Option Operator
  realOperator : Option Operator
  minArgs : Nat := 1
  maxArgs : Nat := 2 ^ 64 - 1

namespace ArithmeticOperation

variable {Operator : Type}

def checkArgCount (op : ArithmeticOperation Operator) (count : Nat) : Bool :=
  op.minArgs ≤ count && count ≤ op.maxArgs

def checkArgTypes (_ : ArithmeticOperation Operator) (types : List ValueType) : Bool :=
  types.all fun type => type.isNumericType || type = .unknown

def getValueType (_ : ArithmeticOperation Operator) (types : List ValueType)
    (desiredType : ValueType) : Option ValueType :=
  arithmeticCommonType types desiredType

def getOperator (op : ArithmeticOperation Operator) (types : List ValueType)
    (desiredType : ValueType) : Option (Option Operator) :=
  (arithmeticCommonType types desiredType).map fun
    | .integer => op.integerOperator
    | .real => op.realOperator
    | _ => none

/-- `OperationFactory::check`, on the types of the operands. -/
def check (op : ArithmeticOperation Operator) (types : List ValueType) (desiredType : ValueType) :
    Option ValueType :=
  if op.checkArgCount types.length && op.checkArgTypes types then op.getValueType types desiredType
  else none

/-- The operator for which `OperationFactory::allocate` makes a function. -/
def allocate (op : ArithmeticOperation Operator) (types : List ValueType)
    (desiredType : ValueType) : Option Operator :=
  (op.getOperator types desiredType).join

end ArithmeticOperation

/-! ### The type of the operands -/

/-- The operands from the second one on, after one of type Integer or Real. -/
theorem otherOperandTypes_eq {result : ValueType} {types : List ValueType}
    (hresult : result = .integer ∨ result = .real)
    (htypes : types.all (fun type => type.isNumericType || type = .unknown) = true) :
  otherOperandTypes result types =
    if result = .real ∨ types.any ValueType.isRealType = true then .real else .integer
  := by
  induction types generalizing result with
  | nil =>
    rcases hresult with rfl | rfl <;> rfl
  | cons type rest ih =>
    rw [List.all_cons, Bool.and_eq_true] at htypes
    obtain ⟨htype, hrest⟩ := htypes
    cases type with
    | real | date | duration =>
      rw [otherOperandTypes, ih (.inr rfl) hrest]
      simp [ValueType.isRealType]
    | integer | unknown =>
      rcases hresult with rfl | rfl
      · rw [otherOperandTypes, if_pos (by decide), ih (.inl rfl) hrest]
        simp [ValueType.isRealType]
      · rw [otherOperandTypes, if_neg (by decide), ih (.inr rfl) hrest]
        simp
    | _ => contradiction

/-- An operand of unknown type in front counts as Real when no Integer is desired. -/
theorem arithmeticCommonType_cons {type : ValueType} {rest : List ValueType}
    (desiredType : ValueType)
    (htypes : (type :: rest).all (fun type => type.isNumericType || type = .unknown) = true) :
  arithmeticCommonType (type :: rest) desiredType =
    if (type :: rest).any ValueType.isRealType = true ∨ type = .unknown ∧ desiredType ≠ .integer
    then some .real else some .integer
  := by
  rw [List.all_cons, Bool.and_eq_true] at htypes
  obtain ⟨htype, hrest⟩ := htypes
  unfold arithmeticCommonType
  cases type with
  | real | date | duration =>
    simp [firstOperandType, otherOperandTypes_eq (.inr rfl) hrest, ValueType.isRealType]
  | integer =>
    dsimp only [firstOperandType]
    rw [otherOperandTypes_eq (.inl rfl) hrest]
    simp [ValueType.isRealType, apply_ite]
  | unknown =>
    dsimp only [firstOperandType]
    by_cases hdesired : desiredType = .integer
    · rw [if_pos hdesired, otherOperandTypes_eq (.inl rfl) hrest]
      simp [ValueType.isRealType, apply_ite, hdesired]
    · rw [if_neg hdesired, otherOperandTypes_eq (.inr rfl) hrest]
      simp [hdesired]
  | _ => contradiction

/-! ### The order of the operands -/

/-- The order of the operands decides neither the type nor the operator, and the type is Real
when an operand is Real, or its type is unknown while no Integer is desired. -/
structure ArithmeticOperation.OrderFree {Operator : Type} (op : ArithmeticOperation Operator)
    (types : List ValueType) (desiredType : ValueType) : Prop where
  commonType : ∀ types', types.Perm types' →
    arithmeticCommonType types' desiredType = arithmeticCommonType types desiredType
  valueType : ∀ types', types.Perm types' →
    op.getValueType types' desiredType = op.getValueType types desiredType
  operator : ∀ types', types.Perm types' →
    op.getOperator types' desiredType = op.getOperator types desiredType
  real : (∃ type ∈ types, type.isRealType = true ∨ type = .unknown ∧ desiredType ≠ .integer) →
    arithmeticCommonType types desiredType = some .real

/-- An Integer is desired, or an operand is Real, or there are no operands of unknown type
beside operands of type Integer. -/
def Unmixed (types : List ValueType) (desiredType : ValueType) : Prop :=
  desiredType = .integer ∨ types.any ValueType.isRealType = true ∨ .unknown ∉ types ∨
    .integer ∉ types

theorem operand_cases {type : ValueType}
    (h : (type.isNumericType || type = .unknown) = true) :
  type = .integer ∨ type = .unknown ∨ type.isRealType = true
  := by
  cases type <;> first | contradiction | decide

/-- The common type of unmixed operands, said without their order. -/
theorem arithmeticCommonType_of_unmixed {types : List ValueType} {desiredType : ValueType}
    (htypes : types.all (fun type => type.isNumericType || type = .unknown) = true)
    (hunmixed : Unmixed types desiredType) (hne : types ≠ []) :
  arithmeticCommonType types desiredType =
    if types.any ValueType.isRealType = true ∨ .unknown ∈ types ∧ desiredType ≠ .integer
    then some .real else some .integer
  := by
  cases types with
  | nil => contradiction
  | cons type rest =>
    rw [arithmeticCommonType_cons desiredType htypes]
    apply if_congr _ rfl rfl
    rcases hunmixed with rfl | hreal | hunknown | hinteger
    · simp
    · simp only [hreal, true_or]
    · have hne : type ≠ .unknown := fun h => hunknown (h ▸ List.mem_cons_self)
      simp only [hne, hunknown, false_and]
    · rw [List.all_cons, Bool.and_eq_true] at htypes
      have hne : type ≠ .integer := fun h => hinteger (h ▸ List.mem_cons_self)
      rcases operand_cases htypes.1 with h | h | h
      · exact absurd h hne
      · simp [h]
      · simp [h]

namespace ArithmeticOperation

variable {Operator : Type} {op : ArithmeticOperation Operator}
variable {types : List ValueType} {desiredType : ValueType}

/-- The type and the operator follow from the common type. -/
theorem OrderFree.of_commonType
    (hperm : ∀ types', types.Perm types' →
      arithmeticCommonType types' desiredType = arithmeticCommonType types desiredType)
    (hreal : (∃ type ∈ types,
        type.isRealType = true ∨ type = .unknown ∧ desiredType ≠ .integer) →
      arithmeticCommonType types desiredType = some .real) :
  op.OrderFree types desiredType
  where
  commonType := hperm
  valueType := hperm
  operator types' h := by
    unfold getOperator
    rw [hperm types' h]
  real := hreal

theorem orderFree_of_unmixed (htypes : op.checkArgTypes types = true)
    (hunmixed : Unmixed types desiredType) :
  op.OrderFree types desiredType
  := by
  by_cases hne : types = []
  · subst hne
    apply OrderFree.of_commonType
    · intro types' hperm
      rw [hperm.nil_eq]
    · rintro ⟨type, htype, -⟩
      contradiction
  · apply OrderFree.of_commonType
    · intro types' hperm
      have hmem (type : ValueType) : type ∈ types' ↔ type ∈ types := hperm.mem_iff.symm
      have hany : types'.any ValueType.isRealType = types.any ValueType.isRealType :=
        hperm.symm.any_eq
      have hunmixed' : Unmixed types' desiredType := by
        unfold Unmixed
        rw [hany, hmem, hmem]
        exact hunmixed
      have htypes' : types'.all (fun type => type.isNumericType || type = .unknown) = true := by
        rw [hperm.symm.all_eq]
        exact htypes
      have hne' : types' ≠ [] := by
        rintro rfl
        exact hne hperm.eq_nil
      rw [arithmeticCommonType_of_unmixed htypes' hunmixed' hne',
        arithmeticCommonType_of_unmixed htypes hunmixed hne, hany]
      apply if_congr _ rfl rfl
      rw [hmem]
    · rintro ⟨type, hmem, hreal⟩
      rw [arithmeticCommonType_of_unmixed htypes hunmixed hne]
      apply if_pos
      rcases hreal with hreal | ⟨rfl, hdesired⟩
      · left
        exact List.any_eq_true.mpr ⟨type, hmem, hreal⟩
      · right
        exact ⟨hmem, hdesired⟩

/-- The order of the operands does not decide the operator exactly when operands of unknown
type do not stand beside Integers alone, or an Integer is desired. -/
theorem orderFree_iff (op : ArithmeticOperation Operator) (types : List ValueType)
    (desiredType : ValueType) (htypes : op.checkArgTypes types = true) :
  op.OrderFree types desiredType ↔ Unmixed types desiredType
  := by
  constructor
  · intro h
    by_contra hmixed
    simp only [Unmixed, not_or, not_not] at hmixed
    obtain ⟨hdesired, hreal, hunknown, hinteger⟩ := hmixed
    -- The operand of unknown type in front, and an Integer in front.
    have hunknownFirst := h.commonType _ (List.perm_cons_erase hunknown)
    have hintegerFirst := h.commonType _ (List.perm_cons_erase hinteger)
    have hall {types' : List ValueType} (hperm : types.Perm types') :
        types'.all (fun type => type.isNumericType || type = .unknown) = true := by
      rw [hperm.symm.all_eq]
      exact htypes
    rw [arithmeticCommonType_cons _ (hall (List.perm_cons_erase hunknown)),
      if_pos (.inr ⟨rfl, hdesired⟩)] at hunknownFirst
    rw [arithmeticCommonType_cons _ (hall (List.perm_cons_erase hinteger)), if_neg,
      ← hunknownFirst] at hintegerFirst
    · contradiction
    · rw [(List.perm_cons_erase hinteger).symm.any_eq]
      simp [hreal]
  · exact orderFree_of_unmixed htypes

/-- What the two passes make of the operands does not depend on their order then. -/
theorem OrderFree.factory (h : op.OrderFree types desiredType) {types' : List ValueType}
    (hperm : types.Perm types') :
  op.check types' desiredType = op.check types desiredType ∧
    op.allocate types' desiredType = op.allocate types desiredType
  := by
  constructor
  · unfold check checkArgTypes
    rw [hperm.length_eq, hperm.symm.all_eq, h.valueType types' hperm]
  · unfold allocate
    rw [h.operator types' hperm]

/-- An Integer, a Lookup of an undeclared state and a Real. -/
theorem orderFree_iff_lookup :
  (⟨"ADD", some 0, some 1, 1, 3⟩ : ArithmeticOperation Nat).OrderFree
      [.integer, .unknown, .real] .unknown ↔
    Unmixed [.integer, .unknown, .real] .unknown
  := orderFree_iff _ _ _ rfl

/-- A Lookup of an undeclared state plus an Integer is Real, and the other way round Integer. -/
theorem not_orderFree :
  ¬ ∀ (op : ArithmeticOperation Nat) (types : List ValueType) (desiredType : ValueType),
    op.checkArgTypes types = true → op.OrderFree types desiredType
  := by
  intro h
  have hfree := h ⟨"ADD", some 0, some 1, 1, 3⟩ [.unknown, .integer] .unknown rfl
  have hswap := hfree.commonType [.integer, .unknown] (.swap _ _ _)
  exact absurd hswap (by decide)

end ArithmeticOperation

end Xml

end Plexil

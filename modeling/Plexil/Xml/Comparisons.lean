import Plexil.Expr.Comparisons
import Plexil.Value.EqualityKey

/-!
# Comparison operations

The types of the operands are checked twice: `check` looks at the document, and when the
expression is created an ordering is given the operator for the type at which the created
operands are compared.  The operators dispatch on types for a third time, when they are
evaluated.
-/

namespace Plexil

namespace Xml

/-! ### The types of the operands -/

def canBeEqual (typeA typeB : ValueType) : Bool :=
  if typeA = typeB then true
  else if typeA = .unknown || typeB = .unknown then true
  else typeA.isNumericType && typeB.isNumericType

def canBeCompared (typeA typeB : ValueType) : Bool :=
  if typeA = .unknown || typeB = .unknown then true
  else if typeA.isNumericType then typeB.isNumericType
  else if typeA = .string then typeB = .string
  else false

/-- `Date` and `Duration` are coerced to the underlying type. -/
def underlyingType : ValueType → ValueType
  | .date | .duration => .real
  | type => type

def comparisonType (typeA typeB : ValueType) : ValueType :=
  if underlyingType typeA = underlyingType typeB then underlyingType typeA
  else
    match underlyingType typeA, underlyingType typeB with
    | .unknown, .real => .real
    | .unknown, .integer => .integer
    | .unknown, .string => .string
    | .integer, .real | .integer, .unknown => .real
    | .real, .integer | .real, .unknown => .real
    | _, _ => .unknown

/-! ### Operations -/

/-- An operand with the type which `check` finds for it in the document. -/
structure Argument where
  checkedType : ValueType
  operand : Operand

abbrev BinaryOperator := Operand → Operand → Except ComparisonError (Option Boolean)

structure EqualityOperation where
  operator : BinaryOperator

namespace EqualityOperation

def checkArgTypes (_ : EqualityOperation) (typeA typeB : ValueType) : Bool :=
  canBeEqual typeA typeB

/-- The operator is the same for all types. -/
def apply (op : EqualityOperation) (a b : Argument) : Except ComparisonError (Option Boolean) :=
  op.operator a.operand b.operand

end EqualityOperation

structure ComparisonOperation where
  integerOperator : BinaryOperator
  realOperator : BinaryOperator
  stringOperator : BinaryOperator

namespace ComparisonOperation

def checkArgTypes (_ : ComparisonOperation) (typeA typeB : ValueType) : Bool :=
  canBeCompared typeA typeB

def getOperator (op : ComparisonOperation) (typeA typeB : ValueType) : Option BinaryOperator :=
  match comparisonType typeA typeB with
  | .integer => some op.integerOperator
  | .real => some op.realOperator
  | .string => some op.stringOperator
  | _ => none

/-- The operator is chosen by the types which the operands have before the plan runs. -/
def apply (op : ComparisonOperation) (a b : Argument) : Except ComparisonError (Option Boolean) :=
  match op.getOperator a.operand.staticType b.operand.staticType with
  | some operator => operator a.operand b.operand
  | none => .error .noOperator

end ComparisonOperation

/-- `EQNumeric`, `EQString`, `EQBoolean`, `EQArray` and `EQInternal` -/
def EQ : EqualityOperation := ⟨equal⟩

/-- `NENumeric`, `NEString`, `NEBoolean`, `NEArray` and `NEInternal` -/
def NE : EqualityOperation := ⟨notEqual⟩

def GT : ComparisonOperation :=
  ⟨greaterThan .integer, greaterThan .real, greaterThan .string⟩

def GE : ComparisonOperation :=
  ⟨greaterEqual .integer, greaterEqual .real, greaterEqual .string⟩

def LT : ComparisonOperation :=
  ⟨lessThan .integer, lessThan .real, lessThan .string⟩

def LE : ComparisonOperation :=
  ⟨lessEqual .integer, lessEqual .real, lessEqual .string⟩

end Xml

/-! ### What can be read -/

namespace Operand

open Intfc (CachedValue Value)

/-- There is a method which reads the operand as the type, and it does not fail. -/
def readable (type : ValueType) : Operand → Bool
  | typed val => type.readableAs val.val.valueType
  | nodeTimepoint _ => type = .real
  | lookup _ m_value => type.isExternal && m_value.all (fits type)
  | lookupOnChange _ change =>
    (type = .integer || type = .real) && change.m_cachedValue.isNone &&
        change.m_value.all (fun entry => !entry.isKnown) ||
      type.isExternal && change.m_value.all (fits type)
  | arrayReference _ val =>
    type.isElement && (!val.val.isKnown || type.readableAs val.val.valueType)
where
  /-- The value in the cache is of no type yet, or can be read. -/
  fits (type : ValueType) (c : CachedValue) : Bool :=
    c.valueType = .unknown || type.readableAs c.valueType

/-- Both operands can be read as the type, where the second one is not read when the first one
is unknown. -/
def Reads (type : ValueType) (argA argB : Operand) : Prop :=
  argA.readable type = true ∧ (argA.isKnown = true → argB.readable type = true)

instance (type : ValueType) (argA argB : Operand) : Decidable (Reads type argA argB) :=
  inferInstanceAs (Decidable (_ ∧ (_ → _)))

theorem readCached_eq (type : ValueType) (c : CachedValue) :
  readCached type c =
    if readable.fits type c = true then
      .ok (if c.isKnown then some (c.toValue.readAs type) else none)
    else .error .typeError
  := by
  unfold readCached readable.fits
  by_cases htype : c.valueType = .unknown
  · have hknown : c.isKnown = false := Intfc.not_isKnown_of_valueType htype
    simp [htype, hknown]
  · simp only [htype, decide_false, Bool.false_or, if_false]
    rfl

theorem readLookup_eq (type : ValueType) (m_value : Option CachedValue) :
  readLookup type m_value =
    if (type.isExternal && m_value.all (readable.fits type)) = true then
      .ok (if (Intfc.cachedValue m_value).isKnown then
        some ((Intfc.cachedValue m_value).readAs type) else none)
    else .error .typeError
  := by
  unfold readLookup
  cases m_value with
  | none => cases type.isExternal <;> rfl
  | some c =>
    dsimp only
    rw [readCached_eq]
    cases type.isExternal
    · rfl
    · simp only [Option.all_some, Bool.true_and, if_true]
      rfl

/-- A number in the cache is an Integer or a Real. -/
theorem fits_of_isNumericType {type ctyp : ValueType} (htype : ¬(type = .integer ∨ type = .real))
    (hnumeric : ctyp.isNumericType = true) (hcached : ctyp.isCached = true) :
  (ctyp = .unknown || type.readableAs ctyp) = false
  := by
  cases ctyp with
  | integer | real => cases type <;> simp_all [ValueType.readableAs]
  | _ => contradiction

/-- The value of a change lookup is its copy, which has the type of the entry. -/
theorem getValue_lookupOnChange (type : ValueType) (declaredType : ValueType)
    (change : ChangeLookup) :
  (lookupOnChange declaredType change).getValue type =
    if (lookupOnChange declaredType change).readable type = true then
      .ok (if (lookupOnChange declaredType change).isKnown then
        some ((lookupOnChange declaredType change).toValue.readAs type) else none)
    else .error .typeError
  := by
  obtain ⟨m_value, m_cachedValue, sameType⟩ := change
  simp only [getValue, readable, isKnown, toValue, readLookup_eq]
  by_cases htype : type = .integer ∨ type = .real
  · have hexternal : type.isExternal = true := by
      obtain rfl | rfl := htype <;> rfl
    rw [if_pos htype]
    cases m_cachedValue with
    | none =>
      cases m_value with
      | none => simp [hexternal, Intfc.cachedValue, Value.isKnown]
      | some entry =>
        -- without a copy an unknown entry is not read
        have hentry : (Intfc.cachedValue (some entry)).isKnown = entry.isKnown := rfl
        by_cases hknown : entry.isKnown = true
        · simp only [hexternal, hknown, hentry, readCached_eq, Option.none_or, Option.all_some,
            if_true, Bool.true_and, Bool.not_true, Bool.and_false, Bool.false_or]
          rfl
        · simp [htype, hknown, hentry]
    | some c =>
      obtain ⟨-, entry, rfl, hsame⟩ := sameType c rfl
      have hfits : readable.fits type entry = readable.fits type c := by
        simp only [readable.fits, hsame]
      simp only [hexternal, hfits, readCached_eq, Option.some_or, Option.all_some,
        Bool.true_and, Option.isNone_some, Bool.and_false, Bool.false_and, Bool.false_or]
      rfl
  · have htype' : (type = .integer || type = .real) = false := by simpa using htype
    rw [if_neg htype]
    cases m_cachedValue with
    | none =>
      simp only [htype', Option.none_or, Bool.false_and, Bool.false_or]
      rfl
    | some c =>
      -- a number cannot be read as another type
      obtain ⟨hnumeric, entry, rfl, hsame⟩ := sameType c rfl
      have hfits : readable.fits type entry = false := by
        rw [readable.fits, hsame]
        exact fits_of_isNumericType htype hnumeric c.cached
      simp [hfits, htype']

theorem getValue_eq (type : ValueType) (o : Operand) :
  o.getValue type =
    if o.readable type = true then
      .ok (if o.isKnown then some (o.toValue.readAs type) else none)
    else .error .typeError
  := by
  cases o with
  | typed val => rfl
  | nodeTimepoint time =>
    unfold getValue readable
    by_cases htype : type = .real
    · subst htype
      cases time <;> rfl
    · simp [htype]
  | lookup declaredType m_value => exact readLookup_eq type m_value
  | lookupOnChange declaredType change => exact getValue_lookupOnChange type declaredType change
  | arrayReference declaredType val =>
    simp only [getValue, readable, isKnown, toValue, readTyped]
    by_cases helement : type.isElement = true
    · by_cases hknown : val.val.isKnown = true
      · simp [helement, hknown]
      · simp [helement, hknown]
    · simp [helement]

theorem readableAs_of_fits {type : ValueType} {c : CachedValue}
    (h : readable.fits type c = true) (hknown : c.isKnown = true) :
  type.readableAs c.valueType = true
  := by
  rw [readable.fits, Bool.or_eq_true, decide_eq_true_eq] at h
  obtain hvoid | h := h
  · rw [CachedValue.isKnown, Intfc.not_isKnown_of_valueType hvoid] at hknown
    contradiction
  · exact h

theorem readableAs_of_cachedValue {type : ValueType} {m_value : Option CachedValue}
    (h : m_value.all (readable.fits type) = true)
    (hknown : (Intfc.cachedValue m_value).isKnown = true) :
  type.readableAs (Intfc.cachedValue m_value).valueType = true
  := by
  cases m_value with
  | none => contradiction
  | some c => exact readableAs_of_fits h hknown

/-- A known operand has a value of a type which can be read. -/
theorem readableAs_of_readable {type : ValueType} {o : Operand} (h : o.readable type = true)
    (hknown : o.isKnown = true) :
  type.readableAs o.toValue.valueType = true
  := by
  cases o with
  | typed val => exact h
  | nodeTimepoint time =>
    obtain rfl : type = .real := of_decide_eq_true h
    cases time with
    | none => contradiction
    | some time => rfl
  | lookup declaredType m_value =>
    rw [readable, Bool.and_eq_true] at h
    exact readableAs_of_cachedValue h.2 hknown
  | lookupOnChange declaredType change =>
    obtain ⟨m_value, m_cachedValue, sameType⟩ := change
    cases m_cachedValue with
    | none =>
      rw [readable, Bool.or_eq_true, Bool.and_eq_true, Bool.and_eq_true] at h
      obtain ⟨-, hunknown⟩ | h := h
      · cases m_value with
        | none => contradiction
        | some entry =>
          have hentry : entry.isKnown = true := hknown
          simp [hentry] at hunknown
      · exact readableAs_of_cachedValue (Bool.and_eq_true_iff.mp h).2 hknown
    | some c =>
      obtain ⟨-, entry, rfl, hsame⟩ := sameType c rfl
      simp only [readable, Option.isNone_some, Bool.and_false, Bool.false_and, Bool.false_or,
        Option.all_some, Bool.and_eq_true] at h
      apply readableAs_of_fits (c := c)
      · rw [readable.fits, ← hsame]
        exact h.2
      · exact hknown
  | arrayReference declaredType val =>
    rw [readable, Bool.and_eq_true, Bool.or_eq_true] at h
    obtain ⟨-, hunknown | h⟩ := h
    · have hknown : val.val.isKnown = true := hknown
      simp [hknown] at hunknown
    · exact h

theorem lookupType_unknown {declaredType : ValueType} {m_value : Option CachedValue}
    (h : lookupType declaredType m_value = .unknown) :
  ∀ c ∈ m_value, c.valueType = .unknown
  := by
  rintro c rfl
  by_contra hc
  have hlookup : lookupType declaredType (some c) = c.valueType := if_pos hc
  exact hc (hlookup.symm.trans h)

/-- An operand whose type is unknown has no value. -/
theorem not_isKnown_of_valueType {o : Operand} (h : o.valueType = .unknown) :
  o.isKnown = false
  := by
  cases o with
  | typed val => exact Intfc.not_isKnown_of_valueType h
  | nodeTimepoint time => contradiction
  | lookup declaredType m_value =>
    cases m_value with
    | none => rfl
    | some c => exact Intfc.not_isKnown_of_valueType (lookupType_unknown (by exact h) c rfl)
  | lookupOnChange declaredType change =>
    obtain ⟨m_value, m_cachedValue, sameType⟩ := change
    cases m_cachedValue with
    | none =>
      cases m_value with
      | none => rfl
      | some c => exact Intfc.not_isKnown_of_valueType (lookupType_unknown (by exact h) c rfl)
    | some c =>
      obtain ⟨-, entry, hentry, hsame⟩ := sameType c rfl
      apply Intfc.not_isKnown_of_valueType
      exact hsame.symm.trans (lookupType_unknown h entry hentry)
  | arrayReference declaredType val => exact Intfc.not_isKnown_of_valueType h

end Operand

/-! ### The results of the operators -/

namespace Intfc.Value

theorem readAs_eq {type : ValueType} (htype : type ≠ .real) (v : Value) :
  v.readAs type = v
  := by
  cases type <;> first | rfl | contradiction

/-- An Integer is compared in the same way when it is read as Real. -/
theorem equals_readAs {type : ValueType} {v w : Value} (hv : type.readableAs v.valueType = true)
    (hw : type.readableAs w.valueType = true) :
  (v.readAs type).equals (w.readAs type) = v.equals w
  := by
  by_cases htype : type = .real
  · subst htype
    cases v <;> cases w
    case integer.integer m n =>
      rw [Bool.eq_iff_iff]
      simp [readAs, equals, Binary64.eq_iff, Integer.key_injective.eq_iff, ← Integer.key.eq_1]
    case integer.real m y =>
      simp only [readAs, equals, Binary64.eq, Bool.and_comm (!m.toReal.isNaN), eq_comm]
    all_goals simp [readAs, equals]
  · rw [readAs_eq htype, readAs_eq htype]

theorem lessThan_readAs {type : ValueType} {v w : Value}
    (hv : type.readableAs v.valueType = true) (hw : type.readableAs w.valueType = true) :
  (v.readAs type).lessThan (w.readAs type) = v.lessThan w
  := by
  by_cases htype : type = .real
  · subst htype
    cases v <;> cases w
    case integer.integer m n =>
      rw [Bool.eq_iff_iff]
      simp [readAs, lessThan, Binary64.lt_iff, ← Integer.key_lt_iff, ← Integer.key.eq_1]
    all_goals rfl
  · rw [readAs_eq htype, readAs_eq htype]

/-- A number other than NaN, or a string. -/
def IsOrdered : Value → Prop
  | integer _ => True
  | real x => x.isNaN = false
  | string _ => True
  | _ => False

theorem IsOrdered.noNaN {v : Value} (h : v.IsOrdered) :
  v.NoNaN
  := by
  cases v with
  | real x => exact h
  | _ => trivial

theorem IsOrdered.lessThan_iff {v w : Value} (hv : v.IsOrdered) (hw : w.IsOrdered) :
  v.lessThan w = true ↔ v.key < w.key
  := Value.lessThan_iff hv.noNaN hw.noNaN

theorem IsOrdered.equals_iff {v w : Value} (hv : v.IsOrdered) (hw : w.IsOrdered) :
  v.equals w = true ↔ v.key = w.key
  := by
  have hstale : v.StaleAgree w := by
    cases v with
    | integer _ | real _ | string _ => trivial
    | _ => contradiction
  have hmixed : ¬ v.MixedUnknown w := by
    rintro (⟨rfl, -⟩ | ⟨rfl, -⟩) <;> exact hv
  rw [Value.equals_iff hv.noNaN hw.noNaN, or_iff_left hmixed, and_iff_left hstale]

theorem greaterEqual_eq {v w : Value} (hv : v.IsOrdered) (hw : w.IsOrdered) :
  (w.lessThan v || v.equals w) = !v.lessThan w
  := by
  rw [Bool.eq_iff_iff, Bool.or_eq_true, hw.lessThan_iff hv, hv.equals_iff hw, Bool.not_eq_true',
    ← Bool.not_eq_true, hv.lessThan_iff hw, not_lt, le_iff_lt_or_eq, eq_comm]

theorem lessEqual_eq {v w : Value} (hv : v.IsOrdered) (hw : w.IsOrdered) :
  (v.lessThan w || v.equals w) = !w.lessThan v
  := by
  rw [Bool.eq_iff_iff, Bool.or_eq_true, hv.lessThan_iff hw, hv.equals_iff hw, Bool.not_eq_true',
    ← Bool.not_eq_true, hw.lessThan_iff hv, not_lt, le_iff_lt_or_eq]

end Intfc.Value

/-- The result of a comparison which does not depend on how its operands are read. -/
def compareResult (compare : Intfc.Value → Intfc.Value → Bool) (argA argB : Operand) :
    Option Boolean :=
  if argA.isKnown && argB.isKnown then some (compare argA.toValue argB.toValue) else none

theorem compareValues_eq {compare : Intfc.Value → Intfc.Value → Bool} {type : ValueType}
    (hcompare : ∀ v w : Intfc.Value, type.readableAs v.valueType = true →
      type.readableAs w.valueType = true →
      compare (v.readAs type) (w.readAs type) = compare v w)
    (argA argB : Operand) :
  compareValues compare type argA argB =
    if Operand.Reads type argA argB then .ok (compareResult compare argA argB)
    else .error .typeError
  := by
  unfold compareValues compareResult
  rw [Operand.getValue_eq, Operand.getValue_eq]
  by_cases hA : argA.readable type = true
  · by_cases hknownA : argA.isKnown = true
    · by_cases hB : argB.readable type = true
      · have hreads : Operand.Reads type argA argB := ⟨hA, fun _ => hB⟩
        rw [if_pos hA, if_pos hB, if_pos hreads]
        by_cases hknownB : argB.isKnown = true
        · simp only [hknownA, hknownB, if_true, Bool.and_true]
          rw [← hcompare _ _ (Operand.readableAs_of_readable hA hknownA)
            (Operand.readableAs_of_readable hB hknownB)]
          rfl
        · simp only [hknownA, hknownB, if_true, Bool.and_false]
          rfl
      · have hreads : ¬ Operand.Reads type argA argB := fun h => hB (h.2 hknownA)
        rw [if_pos hA, if_neg hB, if_neg hreads, if_pos hknownA]
        rfl
    · have hreads : Operand.Reads type argA argB := ⟨hA, fun h => absurd h hknownA⟩
      simp only [hA, hknownA, hreads, if_true, Bool.false_and]
      rfl
  · have hreads : ¬ Operand.Reads type argA argB := fun h => hA h.1
    rw [if_neg hA, if_neg hreads]
    rfl

namespace Xml

/-! ### What the operations can read -/

/-- The operands are read in this order without an error when they are compared for equality:
there is a case for the type of the first one, and both can be read as that type. -/
def EqualityReads (argA argB : Operand) : Prop :=
  match equalityType argA.valueType argB.valueType with
  | .ok none => True
  | .ok (some type) => Operand.Reads type argA argB
  | .error _ => False

/-- There is an operator for the types which the operands have before the plan runs, and both can
be read as the type of the operator. -/
def OrderingReads (argA argB : Operand) : Prop :=
  match comparisonType argA.staticType argB.staticType with
  | .integer => Operand.Reads .integer argA argB
  | .real => Operand.Reads .real argA argB
  | .string => Operand.Reads .string argA argB
  | _ => False

instance (argA argB : Operand) : Decidable (EqualityReads argA argB) :=
  match h : equalityType argA.valueType argB.valueType with
  | .ok none => isTrue (by simp [EqualityReads, h])
  | .ok (some type) =>
    decidable_of_iff (Operand.Reads type argA argB) (by simp [EqualityReads, h])
  | .error _ => isFalse (by simp [EqualityReads, h])

instance (argA argB : Operand) : Decidable (OrderingReads argA argB) := by
  unfold OrderingReads
  cases comparisonType argA.staticType argB.staticType <;> exact inferInstance

theorem isEqual_of_reads {argA argB : Operand} (h : EqualityReads argA argB) :
  isEqual argA argB = .ok (compareResult Intfc.Value.equals argA argB)
  := by
  unfold EqualityReads at h
  unfold isEqual
  split at h
  · rename_i htype
    have hunknown : argA.valueType = .unknown := by
      unfold equalityType at htype
      split at htype <;> first | assumption | cases htype
    rw [htype, compareResult, Operand.not_isKnown_of_valueType hunknown]
    rfl
  · rename_i type htype
    rw [htype]
    exact (compareValues_eq (fun v w => Intfc.Value.equals_readAs) argA argB).trans (if_pos h)
  · contradiction

theorem EqualityReads.of_isEqual {argA argB : Operand} {result : Option Boolean}
    (h : isEqual argA argB = .ok result) :
  EqualityReads argA argB
  := by
  unfold isEqual at h
  unfold EqualityReads
  split
  · trivial
  · rename_i type htype
    by_contra hreads
    rw [htype] at h
    have herror := compareValues_eq (fun v w => @Intfc.Value.equals_readAs type v w) argA argB
    rw [if_neg hreads] at herror
    cases herror.symm.trans h
  · rename_i htype
    rw [htype] at h
    contradiction

/-- An ordering by a comparison of values. -/
def ordering (compare : Intfc.Value → Intfc.Value → Bool) : ComparisonOperation :=
  ⟨compareValues compare .integer, compareValues compare .real, compareValues compare .string⟩

/-- The comparison does not depend on how Integers are read. -/
def ReadsAlike (compare : Intfc.Value → Intfc.Value → Bool) : Prop :=
  ∀ (type : ValueType) (v w : Intfc.Value), type.readableAs v.valueType = true →
    type.readableAs w.valueType = true → compare (v.readAs type) (w.readAs type) = compare v w

variable {compare : Intfc.Value → Intfc.Value → Bool} {a b : Argument}

theorem apply_of_reads (hcompare : ReadsAlike compare)
    (h : OrderingReads a.operand b.operand) :
  (ordering compare).apply a b = .ok (compareResult compare a.operand b.operand)
  := by
  unfold OrderingReads at h
  unfold ComparisonOperation.apply ComparisonOperation.getOperator
  split at h
  case h_1 | h_2 | h_3 =>
    exact (compareValues_eq (hcompare _) a.operand b.operand).trans (if_pos h)
  case h_4 => contradiction

theorem OrderingReads.of_apply (hcompare : ReadsAlike compare) {result : Option Boolean}
    (h : (ordering compare).apply a b = .ok result) :
  OrderingReads a.operand b.operand
  := by
  unfold ComparisonOperation.apply ComparisonOperation.getOperator at h
  unfold OrderingReads
  split
  case h_1 | h_2 | h_3 =>
    rename_i htype
    rw [htype] at h
    by_contra hreads
    cases h.symm.trans ((compareValues_eq (hcompare _) _ _).trans (if_neg hreads))
  case h_4 hinteger hreal hstring =>
    split at h
    · rename_i operator hoperator
      split at hoperator <;> contradiction
    · contradiction

theorem greater_readsAlike :
  ReadsAlike fun v w => w.lessThan v
  := fun _ _ _ hv hw => Intfc.Value.lessThan_readAs hw hv

theorem less_readsAlike :
  ReadsAlike fun v w => v.lessThan w
  := fun _ _ _ hv hw => Intfc.Value.lessThan_readAs hv hw

/-- A comparison which is also true of equal values. -/
theorem ReadsAlike.orEqual (h : ReadsAlike compare) :
  ReadsAlike fun v w => compare v w || v.equals w
  := by
  intro type v w hv hw
  dsimp only
  rw [h type v w hv hw, Intfc.Value.equals_readAs hv hw]

/-! ### Coherence -/

/-- The value of the operand is not NaN. -/
def NotNaN (o : Operand) : Prop := ∀ x, o.toValue = .real x → x.isNaN = false

/-- Equality gives the same result in both orders, without an error, and inequality is its
negation. -/
structure EqualityCoherent (a b : Argument) : Prop where
  total : ∃ result, EQ.apply a b = .ok result
  symm : EQ.apply a b = EQ.apply b a
  negation : NE.apply a b = (EQ.apply a b).map (Option.map not)

/-- The result for each of the three relations which values can have. -/
def verdict (a b : Argument) : Ordering → Except ComparisonError (Option Boolean)
  | .lt => LT.apply a b
  | .eq => EQ.apply a b
  | .gt => GT.apply a b

/-- The orderings agree with each other and with equality, and they are known exactly when both
operands are. -/
structure OrderingCoherent (a b : Argument) : Prop extends EqualityCoherent a b where
  converse : LT.apply a b = GT.apply b a
  greaterEqual : GE.apply a b = (LT.apply a b).map (Option.map not)
  lessEqual : LE.apply a b = (GT.apply a b).map (Option.map not)
  known : ∀ op ∈ [GT, GE, LT, LE], ∃ result, op.apply a b = .ok result ∧
    (result.isSome = true ↔ a.operand.isKnown = true ∧ b.operand.isKnown = true)
  trichotomy : a.operand.isKnown = true → b.operand.isKnown = true →
    ∃! relation, verdict a b relation = .ok (some true)

theorem notEqual_eq (argA argB : Operand) :
  notEqual argA argB = (isEqual argA argB).map (Option.map not)
  := by
  unfold notEqual
  cases isEqual argA argB with
  | error e => rfl
  | ok result => cases result <;> rfl

/-- A comparison and its converse. -/
theorem compareResult_swap {compare' : Intfc.Value → Intfc.Value → Bool}
    (h : ∀ v w, compare v w = compare' w v) (argA argB : Operand) :
  compareResult compare argA argB = compareResult compare' argB argA
  := by
  rw [compareResult, compareResult, Bool.and_comm, h]

/-- A comparison and its negation. -/
theorem compareResult_not {compare' : Intfc.Value → Intfc.Value → Bool} {argA argB : Operand}
    (h : argA.isKnown = true → argB.isKnown = true →
      compare argA.toValue argB.toValue = !compare' argA.toValue argB.toValue) :
  compareResult compare argA argB = (compareResult compare' argA argB).map not
  := by
  unfold compareResult
  by_cases hknown : (argA.isKnown && argB.isKnown) = true
  · obtain ⟨hknownA, hknownB⟩ := Bool.and_eq_true_iff.mp hknown
    rw [if_pos hknown, if_pos hknown, h hknownA hknownB]
    rfl
  · rw [if_neg hknown, if_neg hknown]
    rfl

theorem isSome_compareResult (argA argB : Operand) :
  (compareResult compare argA argB).isSome = true ↔ argA.isKnown = true ∧ argB.isKnown = true
  := by
  unfold compareResult
  cases argA.isKnown <;> cases argB.isKnown <;> simp

theorem equalityCoherent_iff (a b : Argument) :
  EqualityCoherent a b ↔ EqualityReads a.operand b.operand ∧ EqualityReads b.operand a.operand
  := by
  constructor
  · rintro ⟨⟨result, htotal⟩, hsymm, -⟩
    exact ⟨.of_isEqual htotal, .of_isEqual (hsymm.symm.trans htotal)⟩
  · rintro ⟨hab, hba⟩
    have hequals : ∀ v w : Intfc.Value, v.equals w = w.equals v := fun v w =>
      Bool.eq_iff_iff.mpr ⟨Intfc.Value.equals_byKey.symm, Intfc.Value.equals_byKey.symm⟩
    constructor
    · exact ⟨_, isEqual_of_reads hab⟩
    · calc EQ.apply a b
        _ = .ok (compareResult Intfc.Value.equals a.operand b.operand) := isEqual_of_reads hab
        _ = .ok (compareResult Intfc.Value.equals b.operand a.operand) := by
          rw [compareResult_swap hequals]
        _ = EQ.apply b a := (isEqual_of_reads hba).symm
    · exact notEqual_eq a.operand b.operand

theorem isOrdered_of_readable {type : ValueType} {o : Operand}
    (htype : type = .integer ∨ type = .real ∨ type = .string) (h : o.readable type = true)
    (hnan : NotNaN o) (hknown : o.isKnown = true) :
  o.toValue.IsOrdered
  := by
  have hreadable := Operand.readableAs_of_readable h hknown
  have hknown : o.toValue.isKnown = true := hknown
  cases hvalue : o.toValue with
  | integer _ | string _ => trivial
  | real x => exact hnan x hvalue
  | unknown type' =>
    rw [hvalue] at hknown
    contradiction
  | _ =>
    rw [hvalue] at hreadable
    obtain rfl | rfl | rfl := htype <;> contradiction

/-- The values of operands which an ordering can read. -/
theorem isOrdered_of_reads {argA argB : Operand} (h : OrderingReads argA argB)
    (hA : NotNaN argA) (hB : NotNaN argB) (hknownA : argA.isKnown = true)
    (hknownB : argB.isKnown = true) :
  argA.toValue.IsOrdered ∧ argB.toValue.IsOrdered
  := by
  unfold OrderingReads at h
  split at h
  case h_4 => contradiction
  all_goals
    exact ⟨isOrdered_of_readable (by decide) h.1 hA hknownA,
      isOrdered_of_readable (by decide) (h.2 hknownA) hB hknownB⟩

theorem orderingCoherent_iff {a b : Argument} (ha : NotNaN a.operand) (hb : NotNaN b.operand) :
  OrderingCoherent a b ↔
    (EqualityReads a.operand b.operand ∧ EqualityReads b.operand a.operand) ∧
      OrderingReads a.operand b.operand ∧ OrderingReads b.operand a.operand
  := by
  rw [← equalityCoherent_iff]
  constructor
  · rintro ⟨hequality, hconverse, -, -, hknown, -⟩
    obtain ⟨result, hresult, -⟩ := hknown LT (by simp)
    exact ⟨hequality, .of_apply less_readsAlike hresult,
      .of_apply greater_readsAlike (hconverse.symm.trans hresult)⟩
  · rintro ⟨hequality, hab, hba⟩
    have hequal := isEqual_of_reads ((equalityCoherent_iff a b).mp hequality).1
    have hlt : LT.apply a b = _ := apply_of_reads less_readsAlike hab
    have hgt : GT.apply a b = _ := apply_of_reads greater_readsAlike hab
    have hle : LE.apply a b = _ := apply_of_reads less_readsAlike.orEqual hab
    have hge : GE.apply a b = _ := apply_of_reads greater_readsAlike.orEqual hab
    have hordered := isOrdered_of_reads hab ha hb
    refine ⟨hequality, ?_, ?_, ?_, ?_, ?_⟩
    · calc LT.apply a b
        _ = .ok (compareResult (fun v w => v.lessThan w) a.operand b.operand) := hlt
        _ = .ok (compareResult (fun v w => w.lessThan v) b.operand a.operand) := by
          rw [compareResult_swap fun v w => rfl]
        _ = GT.apply b a := (apply_of_reads greater_readsAlike hba).symm
    · rw [hge, hlt]
      exact congrArg Except.ok (compareResult_not fun hA hB =>
        Intfc.Value.greaterEqual_eq (hordered hA hB).1 (hordered hA hB).2)
    · rw [hle, hgt]
      exact congrArg Except.ok (compareResult_not fun hA hB =>
        Intfc.Value.lessEqual_eq (hordered hA hB).1 (hordered hA hB).2)
    · have hknown {compare : Intfc.Value → Intfc.Value → Bool} {op : ComparisonOperation}
          (h : op.apply a b = .ok (compareResult compare a.operand b.operand)) :
          ∃ result, op.apply a b = .ok result ∧
            (result.isSome = true ↔ a.operand.isKnown = true ∧ b.operand.isKnown = true) :=
        ⟨_, h, isSome_compareResult a.operand b.operand⟩
      simp only [List.forall_mem_cons]
      exact ⟨hknown hgt, hknown hge, hknown hlt, hknown hle, by simp⟩
    · intro hA hB
      obtain ⟨hv, hw⟩ := hordered hA hB
      have hresult (compare : Intfc.Value → Intfc.Value → Bool) :
          compareResult compare a.operand b.operand =
            some (compare a.operand.toValue b.operand.toValue) := by
        rw [compareResult, hA, hB]
        rfl
      have hverdict (relation : Ordering) :
          verdict a b relation = .ok (some true) ↔
            relation = cmp a.operand.toValue.key b.operand.toValue.key := by
        rw [eq_comm (a := relation)]
        cases relation with
        | lt => rw [verdict, hlt, hresult, cmp_eq_lt_iff, ← hv.lessThan_iff hw]; simp
        | eq =>
          have hequal : EQ.apply a b = _ := hequal
          rw [verdict, hequal, hresult, cmp_eq_eq_iff, ← hv.equals_iff hw]; simp
        | gt => rw [verdict, hgt, hresult, cmp_eq_gt_iff, ← hw.lessThan_iff hv]; simp
      exact ⟨_, (hverdict _).mpr rfl, fun relation h => (hverdict relation).mp h⟩

/-- Expressions with types of their own are read as those types in both orders. -/
theorem reads_of_typed {v w : { val : Intfc.Value // val.valueType.isNative = true }} :
  (canBeEqual v.val.valueType w.val.valueType = true →
    EqualityReads (.typed v) (.typed w)) ∧
  (canBeCompared v.val.valueType w.val.valueType = true →
    OrderingReads (.typed v) (.typed w))
  := by
  have hreads (type : ValueType) (hv : type.readableAs v.val.valueType = true)
      (hw : type.readableAs w.val.valueType = true) :
      Operand.Reads type (.typed v) (.typed w) := ⟨hv, fun _ => hw⟩
  have hnativeA := v.property
  have hnativeB := w.property
  unfold EqualityReads OrderingReads Operand.valueType Operand.staticType
  dsimp only
  generalize v.val.valueType = s at *
  generalize w.val.valueType = t at *
  cases s <;> first | contradiction | skip
  all_goals cases t
  all_goals first | contradiction | skip
  all_goals constructor
  all_goals intro h
  all_goals first | contradiction | exact hreads _ rfl rfl

/-- For operands whose types pass the checks of the document, and whose types may be compared when
the plan runs, the comparisons are coherent exactly when they can be read in both orders. -/
theorem comparisons_coherent_iff {a b : Argument} (ha : NotNaN a.operand)
    (hb : NotNaN b.operand) :
  (EQ.checkArgTypes a.checkedType b.checkedType = true →
    canBeEqual a.operand.valueType b.operand.valueType = true →
    (EqualityCoherent a b ↔
      EqualityReads a.operand b.operand ∧ EqualityReads b.operand a.operand)) ∧
  (LT.checkArgTypes a.checkedType b.checkedType = true →
    canBeCompared a.operand.valueType b.operand.valueType = true →
    (OrderingCoherent a b ↔
      (EqualityReads a.operand b.operand ∧ EqualityReads b.operand a.operand) ∧
        OrderingReads a.operand b.operand ∧ OrderingReads b.operand a.operand))
  := ⟨fun _ _ => equalityCoherent_iff a b, fun _ _ => orderingCoherent_iff ha hb⟩

/-- An Integer variable and a Real variable. -/
theorem comparisons_coherent_iff_numbers :
  let a : Argument := ⟨.integer, .typed ⟨.integer 3, rfl⟩⟩
  let b : Argument := ⟨.real, .typed ⟨.real 0, rfl⟩⟩
  EqualityCoherent a b ∧ OrderingCoherent a b
  := by
  intro a b
  have ha : NotNaN a.operand := fun x hx => Intfc.Value.noConfusion hx
  have hb : NotNaN b.operand := by
    rintro x hx
    cases hx
    decide
  obtain ⟨hequality, hordering⟩ := comparisons_coherent_iff ha hb
  constructor
  · exact (hequality rfl rfl).mpr (by decide)
  · exact (hordering rfl rfl).mpr (by decide)

/-- The times of nodes are accepted, and they cannot be compared for equality. -/
theorem not_comparisons_coherent :
  ¬ ∀ a b : Argument, NotNaN a.operand → NotNaN b.operand →
    EQ.checkArgTypes a.checkedType b.checkedType = true →
    canBeEqual a.operand.valueType b.operand.valueType = true → EqualityCoherent a b
  := by
  intro h
  have hnan : NotNaN (.nodeTimepoint none) := fun x hx => Intfc.Value.noConfusion hx
  obtain ⟨⟨result, hresult⟩, -, -⟩ :=
    h ⟨.date, .nodeTimepoint none⟩ ⟨.date, .nodeTimepoint none⟩ hnan hnan rfl rfl
  cases hresult

end Xml

end Plexil

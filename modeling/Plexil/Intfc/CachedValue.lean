import Plexil.Value.Ordering

/-!
# Cached values

An entry of the state cache keeps a cached value, whose type is fixed by the first value
which is written to it.  A value of another type is ignored, except that a numeric cached
value takes every Integer.
-/

namespace Plexil

def ValueType.isNumericType : ValueType → Bool
  | .integer | .real | .date | .duration => true
  | _ => false

/-- The types which cached values have. -/
def ValueType.isCached : ValueType → Bool
  | .unknown | .boolean | .integer | .real | .string => true
  | .booleanArray | .integerArray | .realArray | .stringArray => true
  | _ => false

namespace Intfc

/-- A cached value: a `VoidCachedValue` has the type unknown.  It is given by its `toValue`,
as only `operator==` reads the contents of an unknown value. -/
structure CachedValue where
  toValue : Value
  cached : toValue.valueType.isCached
  deriving DecidableEq

/-- A new cached value of a type.  It is an error when no cached values have the type. -/
def CachedValueFactory : ValueType → Option CachedValue
  | .boolean => some ⟨.unknown .boolean, rfl⟩
  | .integer => some ⟨.unknown .integer, rfl⟩
  | .date | .duration | .real => some ⟨.unknown .real, rfl⟩
  | .string => some ⟨.unknown .string, rfl⟩
  | .booleanArray => some ⟨.unknown .booleanArray, rfl⟩
  | .integerArray => some ⟨.unknown .integerArray, rfl⟩
  | .realArray => some ⟨.unknown .realArray, rfl⟩
  | .stringArray => some ⟨.unknown .stringArray, rfl⟩
  | .unknown => some ⟨.unknown .unknown, rfl⟩
  | _ => none

namespace CachedValue

def valueType (c : CachedValue) : ValueType := c.toValue.valueType

def isKnown (c : CachedValue) : Bool := c.toValue.isKnown

def setUnknown (c : CachedValue) : CachedValue := ⟨.unknown c.valueType, c.cached⟩

/-- `getValue` of an Integer: it is an error when the cached value has another type. -/
def getInteger (c : CachedValue) : Option (Option Integer) :=
  match c.toValue with
  | .integer n => some (some n)
  | .unknown .integer => some none
  | _ => none

/-- What `getValue` or `getValuePointer` of the value yields for a native value of the type:
nothing when the value is unknown, and an error when the types do not match. -/
def nativeValue (type : ValueType) (val : Value) : Option (Option Value) :=
  if !val.isKnown then some none
  else if val.valueType = type then some (some val)
  else
    match type, val with
    | .real, .integer n => some (some (.real n.toReal))
    | _, _ => none

theorem valueType_of_nativeValue {type : ValueType} {val native : Value}
    (h : nativeValue type val = some (some native)) :
  native.valueType = type
  := by
  unfold nativeValue at h
  split at h
  · cases h
  · split at h
    · cases h
      assumption
    · split at h
      · cases h
        rfl
      · cases h

/-- Writes a value, unless it is the value already. -/
def update (c : CachedValue) (val : Value) : Option CachedValue :=
  if c.valueType = .unknown then if val.isKnown then none else some c
  else
    match h : nativeValue c.valueType val with
    | none => none
    | some none => some c.setUnknown
    | some (some native) =>
      some (if c.toValue.equals native then c
        else ⟨native, valueType_of_nativeValue h ▸ c.cached⟩)

end CachedValue

/-! ### The value of an entry

The pointer `m_value` of an entry is null until a value is written. -/

/-- `ensureCachedValue`: the cached value, which is new when there was none or only a
placeholder, and whether it may be updated with a value of the type. -/
def ensureCachedValue (m_value : Option CachedValue) (typ : ValueType) :
    Option (CachedValue × Bool) :=
  match m_value with
  | none => (CachedValueFactory typ).map (·, true)
  | some c =>
    let ctyp := c.valueType
    if ctyp = typ || typ = .unknown then some (c, true)
    else if ctyp = .unknown then (CachedValueFactory typ).map (·, true)
    else if typ = .integer && ctyp.isNumericType then some (c, true)
    else if typ = .real && (ctyp = .date || ctyp = .duration) then some (c, true)
    else some (c, false)

/-- `updateValue`: a value of a type which does not fit is ignored. -/
def updateValue (m_value : Option CachedValue) (val : Value) : Option CachedValue := do
  let (c, compatible) ← ensureCachedValue m_value val.valueType
  if compatible then c.update val else some c

/-- The value which the lookups of an entry see. -/
def cachedValue (m_value : Option CachedValue) : Value :=
  match m_value with
  | some c => c.toValue
  | none => .unknown .unknown

/-! ### What is shown of a value -/

/-- The value `given` is what is shown: the same value, or one which is equal to it; and
when it is unknown, what is shown is not known. -/
def Shows (shown given : Value) : Prop :=
  if given.isKnown then shown = given ∨ shown.equals given = true else shown.isKnown = false

instance (shown given : Value) : Decidable (Shows shown given) := by
  unfold Shows
  infer_instance

/-- Whether a cached value of the type `ctyp` is updated with values of the type `typ`. -/
def Fits (ctyp typ : ValueType) : Prop :=
  ctyp = typ ∨ typ = .unknown ∨ (ctyp = .unknown ∧ (CachedValueFactory typ).isSome) ∨
    (typ = .integer ∧ ctyp = .real)

instance (ctyp typ : ValueType) : Decidable (Fits ctyp typ) :=
  inferInstanceAs (Decidable (_ ∨ _ ∨ (_ ∧ _) ∨ (_ ∧ _)))

/-- When an entry shows a value after it is updated: the type fits, or the entry is of a type
which does not fit and shows the value already. -/
def Accepts (m_value : Option CachedValue) (val : Value) : Prop :=
  match m_value with
  | none => (CachedValueFactory val.valueType).isSome
  | some c => Fits c.valueType val.valueType ∨ c.valueType ≠ .unknown ∧ Shows c.toValue val

instance (m_value : Option CachedValue) (val : Value) : Decidable (Accepts m_value val) := by
  unfold Accepts
  cases m_value <;> exact inferInstance

/-! ### Updates -/

theorem shows_of_unknown {shown given : Value} (hgiven : given.isKnown = false) :
  Shows shown given ↔ shown.isKnown = false
  := by
  simp [Shows, hgiven]

theorem not_isKnown_of_valueType {val : Value} (h : val.valueType = .unknown) :
  val.isKnown = false
  := by
  cases val <;> first | rfl | cases h

/-- The native value which is written is shown as the value given. -/
theorem shows_of_nativeValue {type : ValueType} {val native shown : Value}
    (hnative : CachedValue.nativeValue type val = some (some native))
    (htype : shown.valueType = type) (hshown : shown = native ∨ shown.equals native = true) :
  Shows shown val
  := by
  unfold CachedValue.nativeValue at hnative
  split at hnative
  · cases hnative
  · rename_i hknown
    have hval : val.isKnown = true := by simpa using hknown
    rw [Shows, if_pos hval]
    split at hnative
    · cases hnative
      exact hshown
    · split at hnative
      · rename_i n _
        cases hnative
        right
        obtain rfl | hequals := hshown
        · exact (Binary64.eq_iff n.isNaN_toReal n.isNaN_toReal).mpr rfl
        · cases shown <;> cases htype <;> exact hequals
      · cases hnative

theorem CachedValue.update_shows {c : CachedValue} {val : Value}
    (h : val.isKnown = true →
      c.valueType = val.valueType ∨ c.valueType = .real ∧ val.valueType = .integer) :
  ∃ c', c.update val = some c' ∧ Shows c'.toValue val
  := by
  unfold CachedValue.update
  split
  · rename_i hvoid
    have hval : val.isKnown = false := by
      apply Bool.eq_false_of_not_eq_true
      intro hknown
      obtain heq | ⟨heq, _⟩ := h hknown
      · have := not_isKnown_of_valueType (heq.symm.trans hvoid)
        simp_all
      · rw [hvoid] at heq
        cases heq
    use c
    rw [hval, shows_of_unknown hval]
    exact ⟨rfl, not_isKnown_of_valueType hvoid⟩
  · split
    · rename_i hnative
      unfold nativeValue at hnative
      split at hnative
      · cases hnative
      · rename_i hknown
        obtain heq | ⟨hreal, hinteger⟩ := h (by simpa using hknown)
        · rw [if_pos heq.symm] at hnative
          cases hnative
        · cases val <;> simp_all [Value.isKnown, Value.valueType]
    · rename_i hnative
      use c.setUnknown
      have hval : val.isKnown = false := by
        unfold nativeValue at hnative
        split at hnative
        · simp_all
        · split at hnative
          · cases hnative
          · split at hnative <;> cases hnative
      rw [shows_of_unknown hval]
      exact ⟨rfl, rfl⟩
    · rename_i native hnative
      refine ⟨_, rfl, ?_⟩
      split
      · apply shows_of_nativeValue hnative rfl
        right
        assumption
      · apply shows_of_nativeValue hnative (valueType_of_nativeValue hnative)
        left
        rfl

/-- The type of a new cached value fits the values of the type. -/
theorem CachedValueFactory_valueType {val : Value} {c : CachedValue}
    (h : CachedValueFactory val.valueType = some c) (hknown : val.isKnown = true) :
  c.valueType = val.valueType
  := by
  cases val with
  | unknown type => cases hknown
  | _ => cases h <;> rfl

/-- What `ensureCachedValue` does to a cached value. -/
theorem ensureCachedValue_cases (c : CachedValue) (typ : ValueType) :
  (Fits c.valueType typ ∧ c.valueType ≠ .unknown ∧ ensureCachedValue (some c) typ = some (c, true))
  ∨ (c.valueType = .unknown ∧ typ = .unknown ∧ ensureCachedValue (some c) typ = some (c, true))
  ∨ (c.valueType = .unknown ∧ typ ≠ .unknown ∧
      ensureCachedValue (some c) typ = (CachedValueFactory typ).map (·, true))
  ∨ (¬Fits c.valueType typ ∧ c.valueType ≠ .unknown ∧
      ensureCachedValue (some c) typ = some (c, false))
  := by
  have hcached := c.cached
  unfold ensureCachedValue Fits
  change c.valueType.isCached = true at hcached
  dsimp only
  generalize c.valueType = ctyp at hcached ⊢
  cases ctyp <;> cases hcached <;> cases typ <;> simp [ValueType.isNumericType]

/-- The exact condition under which an entry shows the value which is written to it. -/
theorem updateValue_iff (m_value : Option CachedValue) (val : Value) :
  (∃ c, updateValue m_value val = some c ∧ Shows c.toValue val) ↔ Accepts m_value val
  := by
  have new : ∀ b : Option CachedValue, b = CachedValueFactory val.valueType →
      ((∃ c, b.bind (·.update val) = some c ∧ Shows c.toValue val) ↔
        (CachedValueFactory val.valueType).isSome = true) := by
    rintro _ rfl
    cases hb : CachedValueFactory val.valueType with
    | none => simp
    | some b =>
      apply iff_of_true _ rfl
      apply CachedValue.update_shows
      intro hknown
      left
      apply CachedValueFactory_valueType hb hknown
  cases m_value with
  | none =>
    have heq : updateValue none val = (CachedValueFactory val.valueType).bind (·.update val) := by
      unfold updateValue ensureCachedValue
      cases CachedValueFactory val.valueType <;> rfl
    rw [heq]
    apply new _ rfl
  | some c =>
    unfold updateValue Accepts
    obtain ⟨hfits, hctyp, h⟩ | ⟨hctyp, htyp, h⟩ | ⟨hctyp, htyp, h⟩ | ⟨hfits, hctyp, h⟩ :=
      ensureCachedValue_cases c val.valueType
    · rw [h]
      apply iff_of_true _ (Or.inl hfits)
      apply CachedValue.update_shows
      intro hknown
      obtain heq | heq | ⟨heq, _⟩ | ⟨heq, heq'⟩ := hfits
      · left
        apply heq
      · rw [not_isKnown_of_valueType heq] at hknown
        cases hknown
      · contradiction
      · right
        apply And.intro heq' heq
    · rw [h]
      apply iff_of_true _ (Or.inl (Or.inr (Or.inl htyp)))
      apply CachedValue.update_shows
      rw [not_isKnown_of_valueType htyp]
      rintro ⟨⟩
    · have heq : ((CachedValueFactory val.valueType).map (·, true)).bind
          (fun x => if x.2 then x.1.update val else some x.1) =
            (CachedValueFactory val.valueType).bind (·.update val) := by
        cases CachedValueFactory val.valueType <;> rfl
      have hnew := new _ rfl
      rw [← heq] at hnew
      rw [h]
      apply hnew.trans
      simp [Fits, hctyp, htyp, Ne.symm htyp]
    · rw [h]
      simp [hfits, hctyp]

end Intfc
end Plexil

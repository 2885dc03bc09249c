import Plexil.Value.Ordering
import Plexil.Util.PartialEquality

/-!
# The equality of values by keys

Values are equal when they have the same key.  A value has no key when it has a real number
in it which is not a number, be it the contents of an unknown element.
-/

namespace Plexil

open PartialEquality

/-- The key of a real number. -/
def Real.equalityKey (x : Real) : Option (List Int) :=
  if x.isNaN then none else some [x.orderKey]

theorem Real.eq_byKey :
  ByKey Real.equalityKey Binary64.eq
  := by
  intro x y
  unfold Real.equalityKey Binary64.eq
  cases x.isNaN <;> cases y.isNaN <;> simp [eq_comm]

/-- Equality by an injective key. -/
theorem byKey_of_injective {α κ : Type} [DecidableEq α] (key : α → κ)
    (h : Function.Injective key) :
  ByKey (fun x => some (key x)) fun x y : α => decide (x = y)
  := by
  intro x y
  simp [h.eq_iff, eq_comm]

namespace ArrayImpl

variable {α : Type}

def equalityKey (key : α → Option (List Int)) (ary : ArrayImpl α) :
    Option (List Bool × List (List Int)) :=
  (listKey key ary.getContentsVector).map fun contents => (ary.getKnownVector, contents)

theorem equals_byKey {key : α → Option (List Int)} {eq : α → α → Bool} (h : ByKey key eq) :
  ByKey (equalityKey key) (equals eq)
  := by
  intro arya aryb
  have hcontents := h.list arya.getContentsVector aryb.getContentsVector
  unfold equals equalityKey
  split
  · rename_i hne
    cases listKey key arya.getContentsVector <;> cases listKey key aryb.getContentsVector <;>
      simp
    intro hknown
    exact absurd hknown.symm hne
  · rename_i heq
    rw [hcontents, not_ne_iff.mp heq]
    cases listKey key arya.getContentsVector <;> cases listKey key aryb.getContentsVector <;>
      simp

end ArrayImpl

/-- The type, where Integer and Real are one. -/
def ValueType.equalityClass : ValueType → ValueType
  | real => integer
  | type => type

namespace Intfc.Value

/-- The class of the type, whether the value is known, and the contents. -/
def equalityKey : Value → Option (ValueType × Bool × List Bool × List (List Int))
  | unknown type => some (type.equalityClass, false, [], [])
  | boolean x => some (.boolean, true, [], [[Boolean.key x]])
  | integer x => some (.integer, true, [], [[x.key]])
  | real x => (Real.equalityKey x).map fun k => (.integer, true, [], [k])
  | string x => some (.string, true, [], [StringValue.key x])
  | booleanArray x =>
    (x.equalityKey fun b => some [Boolean.key b]).map fun k => (.booleanArray, true, k)
  | integerArray x =>
    (x.equalityKey fun n => some [Integer.key n]).map fun k => (.integerArray, true, k)
  | realArray x => (x.equalityKey Real.equalityKey).map fun k => (.realArray, true, k)
  | stringArray x =>
    (x.equalityKey fun s => some (StringValue.key s)).map fun k => (.stringArray, true, k)
  | nodeState x => some (.nodeState, true, [], [[x.code.toNat]])
  | outcome x => some (.outcome, true, [], [[x.code.toNat]])
  | failure x => some (.failure, true, [], [[x.code.toNat]])
  | commandHandle x => some (.commandHandle, true, [], [[x.code.toNat]])

theorem equalityKey_class {v : Value} {k : ValueType × Bool × List Bool × List (List Int)}
    (h : v.equalityKey = some k) :
  k.1 = v.valueType.equalityClass ∧ k.2.1 = v.isKnown
  := by
  unfold equalityKey at h
  split at h
  case h_1 type =>
    cases h
    exact ⟨rfl, rfl⟩
  case h_4 | h_6 | h_7 | h_8 | h_9 =>
    obtain ⟨k', -, rfl⟩ := Option.map_eq_some_iff.mp h
    exact ⟨rfl, rfl⟩
  all_goals
    cases h
    exact ⟨rfl, rfl⟩

/-- Keys of one class which may be missing. -/
theorem exists_map_iff {κ μ : Type} {f : κ → μ} (hf : Function.Injective f) (x y : Option κ) :
  (∃ k, x.map f = some k ∧ y.map f = some k) ↔ ∃ k, x = some k ∧ y = some k
  := by
  cases x <;> cases y <;> simp [hf.eq_iff]

theorem exists_some_iff {κ : Type} (x y : κ) :
  (∃ k, some x = some k ∧ some y = some k) ↔ x = y
  := by
  simp [eq_comm]

theorem equals_byKey :
  ByKey equalityKey equals
  := by
  intro v w
  -- values of different classes, or one of which is known, are not equal
  have hdiffer : v.equals w = false →
      v.valueType.equalityClass ≠ w.valueType.equalityClass ∨ v.isKnown ≠ w.isKnown →
      (v.equals w = true ↔ ∃ k, v.equalityKey = some k ∧ w.equalityKey = some k) := by
    intro hequals hne
    rw [hequals]
    apply iff_of_false (by simp)
    rintro ⟨k, hv, hw⟩
    obtain ⟨hv, hv'⟩ := equalityKey_class hv
    obtain ⟨hw, hw'⟩ := equalityKey_class hw
    obtain hne | hne := hne
    · exact hne (hv.symm.trans hw)
    · exact hne (hv'.symm.trans hw')
  cases v <;> cases w
  case unknown.unknown s t =>
    rw [equalityKey, equalityKey, exists_some_iff]
    cases s <;> cases t <;> decide
  case boolean.boolean x y => simp [equals, equalityKey, Boolean.key_injective.eq_iff, eq_comm]
  case integer.integer x y => simp [equals, equalityKey, Integer.key_injective.eq_iff, eq_comm]
  case string.string x y =>
    simp [equals, equalityKey, StringValue.key_injective.eq_iff, eq_comm]
  case real.real x y =>
    rw [equals, equalityKey, equalityKey, exists_map_iff (by intro k k' h; simpa using h)]
    exact Real.eq_byKey x y
  case integer.real x y =>
    rw [equals, Real.eq_byKey]
    simp [equalityKey, Real.equalityKey, Integer.key]
  case real.integer x y =>
    rw [equals, Real.eq_byKey]
    simp [equalityKey, Real.equalityKey, Integer.key]
  case nodeState.nodeState x y =>
    rw [equalityKey, equalityKey, exists_some_iff]
    simp [equals, BitVec.toNat_inj, NodeState.code_injective.eq_iff]
  case outcome.outcome x y =>
    rw [equalityKey, equalityKey, exists_some_iff]
    simp [equals, BitVec.toNat_inj, NodeOutcome.code_injective.eq_iff]
  case failure.failure x y =>
    rw [equalityKey, equalityKey, exists_some_iff]
    simp [equals, BitVec.toNat_inj, FailureType.code_injective.eq_iff]
  case commandHandle.commandHandle x y =>
    rw [equalityKey, equalityKey, exists_some_iff]
    simp [equals, BitVec.toNat_inj, CommandHandleValue.code_injective.eq_iff]
  case booleanArray.booleanArray x y =>
    rw [equals, equalityKey, equalityKey, exists_map_iff (by intro k k' h; simpa using h)]
    apply ArrayImpl.equals_byKey
    apply byKey_of_injective fun b => [Boolean.key b]
    intro b c h
    exact Boolean.key_injective (List.cons.inj h).1
  case integerArray.integerArray x y =>
    rw [equals, equalityKey, equalityKey, exists_map_iff (by intro k k' h; simpa using h)]
    apply ArrayImpl.equals_byKey
    apply byKey_of_injective fun n => [Integer.key n]
    intro m n h
    exact Integer.key_injective (List.cons.inj h).1
  case realArray.realArray x y =>
    rw [equals, equalityKey, equalityKey, exists_map_iff (by intro k k' h; simpa using h)]
    exact ArrayImpl.equals_byKey Real.eq_byKey x y
  case stringArray.stringArray x y =>
    rw [equals, equalityKey, equalityKey, exists_map_iff (by intro k k' h; simpa using h)]
    apply ArrayImpl.equals_byKey
    exact byKey_of_injective StringValue.key StringValue.key_injective
  all_goals
    apply hdiffer (by simp [equals])
    first
    | right
      exact Bool.noConfusion
    | left
      exact ValueType.noConfusion

/-- Equal values are of one class, and both known or both unknown. -/
theorem class_of_equals {v w : Value} (h : v.equals w = true) :
  v.valueType.equalityClass = w.valueType.equalityClass ∧ v.isKnown = w.isKnown
  := by
  obtain ⟨k, hv, hw⟩ := (equals_byKey v w).mp h
  obtain ⟨hv, hv'⟩ := equalityKey_class hv
  obtain ⟨hw, hw'⟩ := equalityKey_class hw
  exact ⟨hv.symm.trans hw, hv'.symm.trans hw'⟩

/-- Unknown values are equal when their types are of one class. -/
theorem unknown_equals_iff (s t : ValueType) :
  (unknown s).equals (unknown t) = true ↔ s.equalityClass = t.equalityClass
  := by
  rw [equals_byKey, equalityKey, equalityKey, exists_some_iff]
  simp

/-- No real number in the value is not a number, be it the contents of an unknown element. -/
def NoNaNContents : Value → Prop
  | real x => x.isNaN = false
  | realArray ary => ∀ element ∈ ary, element.contents.isNaN = false
  | _ => True

theorem listKey_some {α : Type} (key : α → List Int) (xs : List α) :
  (listKey (fun x => some (key x)) xs).isSome
  := by
  rw [listKey_isSome]
  intro x _
  rfl

/-- A value is equal to itself unless a number in it is not a number. -/
theorem equals_self_iff (v : Value) :
  v.equals v = true ↔ v.NoNaNContents
  := by
  rw [equals_byKey.refl_iff]
  cases v with
  | real x =>
    unfold equalityKey Real.equalityKey NoNaNContents
    cases x.isNaN <;> simp
  | realArray ary =>
    have hkey : ∀ x : Real, x.equalityKey.isSome ↔ x.isNaN = false := by
      intro x
      unfold Real.equalityKey
      cases x.isNaN <;> simp
    unfold equalityKey ArrayImpl.equalityKey NoNaNContents
    rw [Option.isSome_map, Option.isSome_map, listKey_isSome]
    simp [ArrayImpl.getContentsVector, hkey]
  | booleanArray | integerArray | stringArray =>
    unfold equalityKey ArrayImpl.equalityKey NoNaNContents
    rw [Option.isSome_map, Option.isSome_map]
    simp only [listKey_some]
  | _ => simp [equalityKey, NoNaNContents]

end Intfc.Value

end Plexil

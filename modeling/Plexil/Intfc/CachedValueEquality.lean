import Plexil.Intfc.CachedValue
import Plexil.Value.EqualityKey
import Mathlib.Data.Set.Defs

/-!
# The equality of cached values

`CachedValueImpl<T>` keeps the contents `m_value` when it becomes unknown, and `operator==`
compares them even then.  An object is modelled with these contents here.
-/

namespace Plexil.Intfc

open PartialEquality

/-- The contents of a `CachedValueImpl<T>`. -/
abbrev CachedContents := { v : Value // v.isKnown = true ∧ v.valueType.isCached = true }

/-- A `VoidCachedValue`, or a `CachedValueImpl<T>` where `T` is the type of the contents. -/
inductive CachedObject where
  | void
  | impl (m_known : Bool) (m_value : CachedContents)

namespace CachedObject

def isKnown : CachedObject → Bool
  | void => false
  | impl m_known _ => m_known

def toValue : CachedObject → Value
  | void => .unknown .unknown
  | impl m_known m_value => if m_known then m_value else .unknown m_value.val.valueType

/-- `operator==`.  The cast to the same class fails when the types are different. -/
def eq : CachedObject → CachedObject → Bool
  | void, other => !other.isKnown
  | impl m_known m_value, other =>
    if !m_known && other.isKnown then true
    else
      match other with
      | void => false
      | impl m_known' m_value' =>
        if m_value.val.valueType ≠ m_value'.val.valueType then false
        else if m_known ≠ m_known' || !m_value.val.equals m_value' then false
        else true

/-! ### Pairs of objects -/

/-- Integer and Real, which are compared as numbers. -/
def BothNumbers (s t : ValueType) : Prop :=
  s = .integer ∧ t = .real ∨ s = .real ∧ t = .integer

instance (s t : ValueType) : Decidable (BothNumbers s t) :=
  inferInstanceAs (Decidable (_ ∨ _))

theorem equalityClass_eq_iff (s t : ValueType) :
  s.equalityClass = t.equalityClass ↔ s = t ∨ BothNumbers s t
  := by
  cases s <;> cases t <;> decide

theorem equalityClass_eq_unknown_iff (t : ValueType) :
  t.equalityClass = .unknown ↔ t = .unknown
  := by
  cases t <;> decide

/-- The pairs of objects of which `operator==` says what the comparison of their values
says. -/
def Comparable : CachedObject → CachedObject → Prop
  | void, b => b = void ∨ b.isKnown = true
  | impl _ _, void => True
  | impl true v, impl true w => BothNumbers v.val.valueType w.val.valueType →
      v.val.equals w.val = false
  | impl true _, impl false _ => True
  | impl false _, impl true _ => False
  | impl false v, impl false w =>
    if v.val.valueType = w.val.valueType then v.val.equals w.val = true
    else ¬ BothNumbers v.val.valueType w.val.valueType

theorem contents_type_ne_unknown (v : CachedContents) :
  v.val.valueType ≠ .unknown
  := by
  intro h
  have hknown := v.property.1
  rw [not_isKnown_of_valueType h] at hknown
  cases hknown

theorem unknown_equals_contents (type : ValueType) (w : CachedContents) :
  (Value.unknown type).equals w.val = false
  := by
  apply Bool.eq_false_of_not_eq_true
  intro h
  have hknown := (Value.class_of_equals h).2
  rw [w.property.1] at hknown
  cases hknown

theorem contents_equals_unknown (v : CachedContents) (type : ValueType) :
  v.val.equals (.unknown type) = false
  := by
  apply Bool.eq_false_of_not_eq_true
  intro h
  have hknown := (Value.class_of_equals h).2
  rw [v.property.1] at hknown
  cases hknown

theorem not_bothNumbers_of_eq {s t : ValueType} (h : s = t) :
  ¬ BothNumbers s t
  := by
  subst h
  cases s <;> decide

theorem comparable_iff (a b : CachedObject) :
  (a.eq b = true ↔ a.toValue.equals b.toValue = true) ↔ Comparable a b
  := by
  cases a with
  | void =>
    cases b with
    | void => simp [Comparable, eq, isKnown, toValue, Value.unknown_equals_iff]
    | impl known w =>
      have hne := contents_type_ne_unknown w
      cases known with
      | false =>
        have hclass : ValueType.unknown.equalityClass ≠ w.val.valueType.equalityClass := by
          intro h
          exact hne ((equalityClass_eq_unknown_iff _).mp h.symm)
        simp [Comparable, eq, isKnown, toValue, Value.unknown_equals_iff, hclass]
      | true =>
        simp [Comparable, eq, isKnown, toValue, unknown_equals_contents]
  | impl known v =>
    have hne := contents_type_ne_unknown v
    cases b with
    | void =>
      cases known with
      | false =>
        have hclass : v.val.valueType.equalityClass ≠ ValueType.unknown.equalityClass := by
          intro h
          exact hne ((equalityClass_eq_unknown_iff _).mp h)
        simp [Comparable, eq, isKnown, toValue, Value.unknown_equals_iff, hclass]
      | true =>
        simp [Comparable, eq, isKnown, toValue, contents_equals_unknown]
    | impl known' w =>
      cases known with
      | false =>
        cases known' with
        | false =>
          have hclass := equalityClass_eq_iff v.val.valueType w.val.valueType
          by_cases htype : v.val.valueType = w.val.valueType
          · simp [Comparable, eq, isKnown, toValue, Value.unknown_equals_iff, htype]
          · simp [Comparable, eq, isKnown, toValue, Value.unknown_equals_iff, hclass, htype]
        | true =>
          simp [Comparable, eq, isKnown, toValue, unknown_equals_contents]
      | true =>
        cases known' with
        | false =>
          simp [Comparable, eq, isKnown, toValue, contents_equals_unknown]
        | true =>
          by_cases htype : v.val.valueType = w.val.valueType
          · have hnumbers := not_bothNumbers_of_eq htype
            rw [htype] at hnumbers
            simp [Comparable, eq, isKnown, toValue, htype, hnumbers]
          · have hclass : v.val.equals w.val = true →
                BothNumbers v.val.valueType w.val.valueType := fun h =>
              ((equalityClass_eq_iff _ _).mp (Value.class_of_equals h).1).resolve_left htype
            simp only [Comparable, eq, isKnown, toValue]
            cases hequals : v.val.equals w.val with
            | false => simp [htype, hequals]
            | true => simp [htype, hequals, hclass hequals]

/-! ### The laws -/

/-- `operator==` compares the values of the objects in `S` and is an equivalence on them. -/
structure Lawful (S : Set CachedObject) : Prop where
  agrees : ∀ a ∈ S, ∀ b ∈ S, a.eq b = true ↔ a.toValue.equals b.toValue = true
  refl : ∀ a ∈ S, a.eq a = true
  symm : ∀ a ∈ S, ∀ b ∈ S, a.eq b = true → b.eq a = true
  trans : ∀ a ∈ S, ∀ b ∈ S, ∀ c ∈ S, a.eq b = true → b.eq c = true → a.eq c = true

/-- The laws hold exactly among objects which are comparable and no numbers of which are not
a number. -/
theorem cachedEquality_lawful_iff (S : Set CachedObject) :
  Lawful S ↔ (∀ a ∈ S, ∀ b ∈ S, Comparable a b) ∧ ∀ a ∈ S, a.toValue.NoNaNContents
  := by
  constructor
  · intro h
    constructor
    · intro a ha b hb
      exact (comparable_iff a b).mp (h.agrees a ha b hb)
    · intro a ha
      apply (Value.equals_self_iff _).mp
      exact (h.agrees a ha a ha).mp (h.refl a ha)
  · rintro ⟨hcomparable, hnumbers⟩
    have hagrees : ∀ a ∈ S, ∀ b ∈ S, a.eq b = true ↔ a.toValue.equals b.toValue = true :=
      fun a ha b hb => (comparable_iff a b).mpr (hcomparable a ha b hb)
    refine ⟨hagrees, ?_, ?_, ?_⟩
    · intro a ha
      rw [hagrees a ha a ha]
      exact (Value.equals_self_iff _).mpr (hnumbers a ha)
    · intro a ha b hb
      rw [hagrees a ha b hb, hagrees b hb a ha]
      exact Value.equals_byKey.symm
    · intro a ha b hb c hc
      rw [hagrees a ha b hb, hagrees b hb c hc, hagrees a ha c hc]
      exact Value.equals_byKey.trans

/-- An unknown Integer is equal to the known Integer 1, which is not equal to it. -/
theorem not_cachedEquality_lawful :
  ¬ Lawful Set.univ
  := by
  intro h
  have hsymm := h.symm (impl false ⟨.integer 0, by decide⟩) trivial (impl true ⟨.integer 1, by decide⟩)
    trivial rfl
  revert hsymm
  decide

end CachedObject

end Plexil.Intfc

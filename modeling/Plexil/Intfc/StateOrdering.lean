import Plexil.Intfc.State
import Plexil.Value.Ordering

/-!
# The order of states

States are compared by their names, then by the number of their parameters, then by the
parameters.  The order is a strict weak order; it agrees with equality unless the order of
two parameters does not.
-/

namespace Plexil.Intfc
namespace State

/-- No parameter has a number which is NaN. -/
def NoNaN (s : State) : Prop := ∀ parameter ∈ s.parameters, parameter.NoNaN

/-- The key of a state. -/
def key (s : State) : List Int ×ₗ Nat ×ₗ List (Bool ×ₗ Nat ×ₗ List (List Int)) :=
  toLex (s.name.key, toLex (s.parameters.length, s.parameters.map Value.key))

theorem key_eq_iff (s t : State) :
  s.key = t.key ↔ s.name = t.name ∧ s.parameters.length = t.parameters.length ∧
    s.parameters.map Value.key = t.parameters.map Value.key
  := by
  simp [key, Prod.ext_iff, StringValue.key_injective.eq_iff]

/-- `operator<` compares the keys. -/
theorem lessThan_iff {s t : State} (hs : s.NoNaN) (ht : t.NoNaN) :
  s.lessThan t = true ↔ s.key < t.key
  := by
  unfold lessThan key
  simp only [← StringValue.key_lt_iff, gt_iff_lt]
  rw [Prod.Lex.toLex_lt_toLex, Prod.Lex.toLex_lt_toLex]
  obtain hlt | heq | hgt := lt_trichotomy s.name.key t.name.key
  · simp [hlt]
  · obtain hlt | hlength | hgt := lt_trichotomy s.parameters.length t.parameters.length
    · simp [heq, hlt]
    · have hparameters := Lexicographic.less_iff (fun _ _ => Value.lessThan_iff) hs ht hlength
      simp [heq, hlength, hparameters]
    · simp [heq, hgt, hgt.not_gt, hgt.ne']
  · simp [hgt, hgt.not_gt, hgt.ne']

/-- Without NaN, `operator<` is a strict weak order. -/
theorem lessThan_isStrictWeakOrder :
  IsStrictWeakOrder { s : State // s.NoNaN } fun s t => s.val.lessThan t.val = true
  := Lexicographic.isStrictWeakOrder (fun s : { s : State // s.NoNaN } => s.val.key)
    fun s t => lessThan_iff s.property t.property

theorem incomparable_iff {s t : State} (hs : s.NoNaN) (ht : t.NoNaN) :
  ¬ s.lessThan t = true ∧ ¬ t.lessThan s = true ↔ s.key = t.key
  := Lexicographic.incomparable_iff (fun s : { s : State // s.NoNaN } => s.val.key)
    (fun s t => lessThan_iff s.property t.property) ⟨s, hs⟩ ⟨t, ht⟩

/-- All pairs of parameters satisfy a condition. -/
def ForParameters (P : Value → Value → Prop) (s t : State) : Prop :=
  ∀ p ∈ s.parameters.zip t.parameters, P p.1 p.2

/-- States of the same name and number of parameters, whose parameters have the same keys, have
equal contents in the unknown elements of the parameters too; and when all parameters are
equal, none of them are unknowns of the types `Integer` and `Real`. -/
def Coherent (s t : State) : Prop :=
  s.name = t.name → s.parameters.length = t.parameters.length →
    (ForParameters (fun v w => v.key = w.key) s t → ForParameters Value.StaleAgree s t) ∧
    (ForParameters (fun v w => v.key = w.key ∧ v.StaleAgree w ∨ v.MixedUnknown w) s t →
      ForParameters (fun v w => ¬ v.MixedUnknown w) s t)

theorem forall₂_iff_forParameters {P : Value → Value → Prop} {s t : State} :
  List.Forall₂ P s.parameters t.parameters
    ↔ s.parameters.length = t.parameters.length ∧ ForParameters P s t
  := by
  rw [List.forall₂_iff_zip, ForParameters]
  simp only [Prod.forall]

theorem key_eq_iff_forParameters (s t : State) :
  s.key = t.key ↔ s.name = t.name ∧ s.parameters.length = t.parameters.length ∧
    ForParameters (fun v w => v.key = w.key) s t
  := by
  have hkeys : s.parameters.map Value.key = t.parameters.map Value.key
      ↔ List.Forall₂ (fun v w => Value.key v = Value.key w) s.parameters t.parameters := by
    rw [← List.forall₂_map_right_iff (f := Value.key),
      ← List.forall₂_map_left_iff (f := Value.key) (R := Eq), List.forall₂_eq_eq_eq]
  rw [key_eq_iff, hkeys, forall₂_iff_forParameters]
  tauto

theorem equals_iff {s t : State} (hs : s.NoNaN) (ht : t.NoNaN) :
  s.equals t = true ↔ s.name = t.name ∧ s.parameters.length = t.parameters.length ∧
    ForParameters (fun v w => v.key = w.key ∧ v.StaleAgree w ∨ v.MixedUnknown w) s t
  := by
  rw [equals, Bool.and_eq_true, decide_eq_true_iff, Lexicographic.equal_iff,
    forall₂_iff_forParameters]
  have hparameters : ForParameters (fun v w => v.equals w = true) s t
      ↔ ForParameters (fun v w => v.key = w.key ∧ v.StaleAgree w ∨ v.MixedUnknown w) s t := by
    apply forall₂_congr
    intro p hp
    exact Value.equals_iff (hs _ (List.of_mem_zip hp).1) (ht _ (List.of_mem_zip hp).2)
  rw [hparameters]

theorem incomparable_iff_equals_iff {s t : State} (hs : s.NoNaN) (ht : t.NoNaN) :
  (¬ s.lessThan t = true ∧ ¬ t.lessThan s = true ↔ s.equals t = true) ↔ s.Coherent t
  := by
  rw [incomparable_iff hs ht, key_eq_iff_forParameters, equals_iff hs ht, Coherent]
  by_cases hname : s.name = t.name ∧ s.parameters.length = t.parameters.length
  · obtain ⟨hname, hlength⟩ := hname
    simp only [hname, hlength, true_and, forall_const]
    constructor
    · intro h
      constructor
      · intro hkeys p hp
        obtain ⟨-, hstale⟩ | hmixed := h.mp hkeys p hp
        · exact hstale
        · exact absurd (hkeys p hp) hmixed.key_ne
      · intro hequal p hp hmixed
        exact hmixed.key_ne (h.mpr hequal p hp)
    · rintro ⟨hstale, hmixed⟩
      constructor
      · intro hkeys p hp
        exact .inl ⟨hkeys p hp, hstale hkeys p hp⟩
      · intro hequal p hp
        obtain ⟨hkey, -⟩ | h := hequal p hp
        · exact hkey
        · exact absurd h (hmixed hequal p hp)
  · apply iff_of_true
    · tauto
    · intro h h'
      exact absurd ⟨h, h'⟩ hname

end State

/-! ### Agreement of the order and equality -/

/-- Without NaN, the order of values and that of states are strict weak orders.  They do not
separate exactly those which are equal, if and only if these are coherent. -/
theorem order_agrees_iff (v w : { v : Value // v.NoNaN }) (s t : { s : State // s.NoNaN }) :
  IsStrictWeakOrder { v : Value // v.NoNaN } (fun v w => v.val.lessThan w.val = true) ∧
  ((¬ v.val.lessThan w.val = true ∧ ¬ w.val.lessThan v.val = true ↔ v.val.equals w.val = true)
      ↔ v.val.Coherent w.val) ∧
  IsStrictWeakOrder { s : State // s.NoNaN } (fun s t => s.val.lessThan t.val = true) ∧
  ((¬ s.val.lessThan t.val = true ∧ ¬ t.val.lessThan s.val = true ↔ s.val.equals t.val = true)
      ↔ s.val.Coherent t.val)
  := by
  constructor
  · exact Value.lessThan_isStrictWeakOrder
  constructor
  · exact Value.incomparable_iff_equals_iff v.property w.property
  constructor
  · exact State.lessThan_isStrictWeakOrder
  · exact State.incomparable_iff_equals_iff s.property t.property

/-- An array whose element has been written and then made unknown. -/
def staleArray (n : Integer) : Value :=
  .integerArray (ArrayImpl.setElementUnknown (ArrayImpl.setElement [⟨false, 0⟩] 0 n) 0)

/-- The arrays which have been written differently are not separated by the order, but they
are not equal. -/
theorem order_agrees_fails :
  ¬ (IsStrictWeakOrder { v : Value // v.NoNaN } (fun v w => v.val.lessThan w.val = true) ∧
  (∀ v w : { v : Value // v.NoNaN },
    ¬ v.val.lessThan w.val = true ∧ ¬ w.val.lessThan v.val = true
      ↔ v.val.equals w.val = true) ∧
  IsStrictWeakOrder { s : State // s.NoNaN } (fun s t => s.val.lessThan t.val = true) ∧
  (∀ s t : { s : State // s.NoNaN },
    ¬ s.val.lessThan t.val = true ∧ ¬ t.val.lessThan s.val = true
      ↔ s.val.equals t.val = true))
  := by
  rintro ⟨-, h, -⟩
  have hequal := (h ⟨staleArray 1, trivial⟩ ⟨staleArray 2, trivial⟩).mp
  exact absurd (hequal (by decide)) (by decide)

end Plexil.Intfc

import Plexil.Value.Value
import Mathlib.Data.Prod.Lex
import Mathlib.Order.Defs.Unbundled

/-!
# The order of values

Each value has a key in a linear order, and `lessThan` compares the keys.  The key has
everything but the contents of unknown elements of arrays, and it is the same for an
`Integer` and a `Real` which are equal as numbers.
-/

namespace Plexil

/-! ### Keys of the scalar types -/

theorem Integer.natAbs_toInt_lt (n : Integer) :
  n.toInt.natAbs < 2 ^ 53
  := by
  have := n.toInt_lt
  have := n.le_toInt
  omega

/-- The place of an `Integer` among the numbers. -/
def Integer.key (n : Integer) : Int := n.toReal.orderKey

@[simp]
theorem Integer.isNaN_toReal (n : Integer) :
  n.toReal.isNaN = false
  := Binary64.isNaN_ofInt n.natAbs_toInt_lt

theorem Integer.key_lt_iff (m n : Integer) :
  m.key < n.key ↔ m.slt n = true
  := by
  rw [Integer.key, Integer.key, Integer.toReal, Integer.toReal,
    Binary64.orderKey_ofInt_lt_iff m.natAbs_toInt_lt n.natAbs_toInt_lt, BitVec.slt_iff_toInt_lt]

theorem Integer.key_injective :
  Function.Injective Integer.key
  := by
  intro m n h
  have hlt := Integer.key_lt_iff m n
  have hgt := Integer.key_lt_iff n m
  rw [h, BitVec.slt_iff_toInt_lt] at hlt
  rw [h, BitVec.slt_iff_toInt_lt] at hgt
  apply BitVec.eq_of_toInt_eq
  omega

/-- The bytes of a string as numbers. -/
def StringValue.key (s : StringValue) : List Int := s.map fun b => (b.toNat : Int)

theorem StringValue.key_lt_iff (s t : StringValue) :
  StringValue.key s < StringValue.key t ↔ s < t
  := by
  induction s generalizing t with
  | nil =>
    cases t <;> simp [StringValue.key]
  | cons b s ih =>
    cases t with
    | nil => simp [StringValue.key]
    | cons c t =>
      have := ih t
      simp only [StringValue.key, List.map_cons] at this ⊢
      rw [List.cons_lt_cons_iff, List.cons_lt_cons_iff, this, BitVec.lt_def]
      simp [BitVec.toNat_inj]

theorem StringValue.key_injective :
  Function.Injective StringValue.key
  := by
  apply List.map_injective_iff.mpr
  intro b c h
  apply BitVec.eq_of_toNat_eq
  exact Int.ofNat_inj.mp h

def Boolean.key (b : Boolean) : Int := if b then 1 else 0

theorem Boolean.key_lt_iff (x y : Boolean) :
  Boolean.key x < Boolean.key y ↔ Intfc.Value.booleanLess x y = true
  := by
  cases x <;> cases y <;> decide

theorem Boolean.key_injective :
  Function.Injective Boolean.key
  := by
  intro x y
  cases x <;> cases y <;> decide

/-! ### Keys of arrays -/

namespace ArrayImpl

variable {α : Type}

/-- An unknown element is before all known ones, whatever its contents are. -/
def elementKey (contentsKey : α → List Int) (element : ArrayElement α) : List Int :=
  if element.known then 1 :: contentsKey element.contents else []

/-- Shorter arrays are first. -/
def key (contentsKey : α → List Int) (ary : ArrayImpl α) : List (List Int) :=
  [(ary.length : Int)] :: ary.map (elementKey contentsKey)

variable {less : α → α → Bool} {contentsKey : α → List Int} {P : α → Prop}

theorem elementLess_iff
    (hless : ∀ x y, P x → P y → (less x y = true ↔ contentsKey x < contentsKey y))
    {a b : ArrayElement α} (ha : a.known = true → P a.contents)
    (hb : b.known = true → P b.contents) :
  elementLess less a b = true ↔ elementKey contentsKey a < elementKey contentsKey b
  := by
  unfold elementLess elementKey
  obtain hknown | hknown := Bool.eq_false_or_eq_true a.known
  · obtain hknown' | hknown' := Bool.eq_false_or_eq_true b.known
    · simp [hknown, hknown', hless _ _ (ha hknown) (hb hknown')]
    · simp [hknown, hknown']
  · obtain hknown' | hknown' := Bool.eq_false_or_eq_true b.known
    · simp [hknown, hknown']
    · simp [hknown, hknown']

theorem lessThan_iff
    (hless : ∀ x y, P x → P y → (less x y = true ↔ contentsKey x < contentsKey y))
    {arya aryb : ArrayImpl α} (ha : ∀ a ∈ arya, a.known = true → P a.contents)
    (hb : ∀ b ∈ aryb, b.known = true → P b.contents) :
  arya.lessThan less aryb = true ↔ arya.key contentsKey < aryb.key contentsKey
  := by
  unfold lessThan key
  rw [List.cons_lt_cons_iff, List.cons_lt_cons_iff, List.cons.injEq]
  obtain hlt | heq | hgt := lt_trichotomy arya.length aryb.length
  · simp [hlt]
  · have hloop := Lexicographic.less_iff (f := elementLess less)
      (P := fun a => a.known = true → P a.contents)
      (fun a b ha hb => elementLess_iff hless ha hb) ha hb heq
    simp [heq, hloop]
  · simp [hgt.not_gt, hgt, hgt.ne']

end ArrayImpl

/-! ### Keys of values -/

namespace Intfc.Value

/-- No number in the value is NaN; the contents of an unknown element are not looked at. -/
def NoNaN : Value → Prop
  | real x => x.isNaN = false
  | realArray x => ∀ element ∈ x, element.known = true → element.contents.isNaN = false
  | _ => True

/-- The place of the type.  A known `Real` has the place of an `Integer`. -/
def rank : Value → Nat
  | real _ => ValueType.integer.code.toNat
  | v => v.valueType.code.toNat

/-- The key of the contents of a known value. -/
def contentsKey : Value → List (List Int)
  | unknown _ => []
  | boolean x => [[Boolean.key x]]
  | integer x => [[x.key]]
  | real x => [[x.orderKey]]
  | string x => [StringValue.key x]
  | booleanArray x => x.key fun b => [Boolean.key b]
  | integerArray x => x.key fun n => [n.key]
  | realArray x => x.key fun r => [r.orderKey]
  | stringArray x => x.key StringValue.key
  | nodeState x => [[x.code.toNat]]
  | outcome x => [[x.code.toNat]]
  | failure x => [[x.code.toNat]]
  | commandHandle x => [[x.code.toNat]]

/-- The key of a value: unknown values are first, then the types decide, then the contents. -/
def key (v : Value) : Bool ×ₗ Nat ×ₗ List (List Int) :=
  toLex (v.isKnown, toLex (v.rank, v.contentsKey))

theorem key_lt_iff (v w : Value) :
  v.key < w.key ↔ v.isKnown < w.isKnown ∨ v.isKnown = w.isKnown ∧
    (v.rank < w.rank ∨ v.rank = w.rank ∧ v.contentsKey < w.contentsKey)
  := by
  rw [key, key, Prod.Lex.toLex_lt_toLex, Prod.Lex.toLex_lt_toLex]

/-- Values of the same type, both known or both unknown, are compared by their contents. -/
theorem key_lt_iff_contentsKey {v w : Value} (hknown : v.isKnown = w.isKnown)
    (hrank : v.rank = w.rank) :
  v.key < w.key ↔ v.contentsKey < w.contentsKey
  := by
  simp [key_lt_iff, hknown, hrank]

theorem singleton_lt_iff {κ : Type} [LinearOrder κ] (x y : κ) :
  [x] < [y] ↔ x < y
  := by
  simp [List.cons_lt_cons_iff]

/-- `lessThan` compares the keys. -/
theorem lessThan_iff {v w : Value} (hv : v.NoNaN) (hw : w.NoNaN) :
  v.lessThan w = true ↔ v.key < w.key
  := by
  cases v <;> cases w
  case unknown.unknown s t =>
    simp [key_lt_iff, lessThan, isKnown, rank, contentsKey, valueType, BitVec.lt_def]
  case boolean.boolean x y =>
    rw [key_lt_iff_contentsKey (by rfl) (by rfl), contentsKey, contentsKey, singleton_lt_iff,
      singleton_lt_iff, Boolean.key_lt_iff]
    rfl
  case integer.integer x y =>
    rw [key_lt_iff_contentsKey (by rfl) (by rfl), contentsKey, contentsKey, singleton_lt_iff,
      singleton_lt_iff, Integer.key_lt_iff]
    rfl
  case integer.real x y =>
    rw [key_lt_iff_contentsKey (by rfl) (by rfl), contentsKey, contentsKey, singleton_lt_iff,
      singleton_lt_iff]
    exact Binary64.lt_iff x.isNaN_toReal hw
  case real.integer x y =>
    rw [key_lt_iff_contentsKey (by rfl) (by rfl), contentsKey, contentsKey, singleton_lt_iff,
      singleton_lt_iff]
    exact Binary64.lt_iff hv y.isNaN_toReal
  case real.real x y =>
    rw [key_lt_iff_contentsKey (by rfl) (by rfl), contentsKey, contentsKey, singleton_lt_iff,
      singleton_lt_iff]
    exact Binary64.lt_iff hv hw
  case string.string x y =>
    rw [key_lt_iff_contentsKey (by rfl) (by rfl), contentsKey, contentsKey, singleton_lt_iff,
      StringValue.key_lt_iff]
    exact decide_eq_true_iff
  case booleanArray.booleanArray x y =>
    rw [key_lt_iff_contentsKey (by rfl) (by rfl)]
    apply ArrayImpl.lessThan_iff (P := fun _ => True)
    · intro x y _ _
      rw [singleton_lt_iff, Boolean.key_lt_iff]
    · simp
    · simp
  case integerArray.integerArray x y =>
    rw [key_lt_iff_contentsKey (by rfl) (by rfl)]
    apply ArrayImpl.lessThan_iff (P := fun _ => True)
    · intro x y _ _
      rw [singleton_lt_iff, Integer.key_lt_iff]
    · simp
    · simp
  case realArray.realArray x y =>
    rw [key_lt_iff_contentsKey (by rfl) (by rfl)]
    apply ArrayImpl.lessThan_iff (P := fun x : Real => x.isNaN = false)
    · intro x y hx hy
      rw [singleton_lt_iff]
      apply Binary64.lt_iff hx hy
    · exact hv
    · exact hw
  case stringArray.stringArray x y =>
    rw [key_lt_iff_contentsKey (by rfl) (by rfl)]
    apply ArrayImpl.lessThan_iff (P := fun _ => True)
    · intro x y _ _
      rw [StringValue.key_lt_iff]
      exact decide_eq_true_iff
    · simp
    · simp
  case nodeState.nodeState | outcome.outcome | failure.failure | commandHandle.commandHandle =>
    rw [key_lt_iff_contentsKey (by rfl) (by rfl), contentsKey, contentsKey, singleton_lt_iff,
      singleton_lt_iff]
    simp [lessThan, BitVec.lt_def]
  all_goals
    simp [key_lt_iff, lessThan, isKnown, rank, contentsKey, valueType, ValueType.code]

/-- Without NaN, `lessThan` is a strict weak order. -/
theorem lessThan_isStrictWeakOrder :
  IsStrictWeakOrder { v : Value // v.NoNaN } fun v w => v.val.lessThan w.val = true
  := Lexicographic.isStrictWeakOrder (fun v : { v : Value // v.NoNaN } => v.val.key)
    fun v w => lessThan_iff v.property w.property

/-- Without NaN, the values which `lessThan` does not separate are those of the same key. -/
theorem incomparable_iff {v w : Value} (hv : v.NoNaN) (hw : w.NoNaN) :
  ¬ v.lessThan w = true ∧ ¬ w.lessThan v = true ↔ v.key = w.key
  := Lexicographic.incomparable_iff (fun v : { v : Value // v.NoNaN } => v.val.key)
    (fun v w => lessThan_iff v.property w.property) ⟨v, hv⟩ ⟨w, hw⟩

end Intfc.Value

/-! ### Equality of arrays -/

namespace ArrayImpl

variable {α : Type}

/-- The contents of the elements which are unknown in both arrays are equal. -/
def StaleAgree (eq : α → α → Bool) (arya aryb : ArrayImpl α) : Prop :=
  ∀ p ∈ arya.zip aryb, p.1.known = false → p.2.known = false →
    eq p.1.contents p.2.contents = true

theorem equals_iff {eq : α → α → Bool} {contentsKey : α → List Int} {P : α → Prop}
    (heq : ∀ x y, P x → P y → (eq x y = true ↔ contentsKey x = contentsKey y))
    {arya aryb : ArrayImpl α} (ha : ∀ a ∈ arya, a.known = true → P a.contents)
    (hb : ∀ b ∈ aryb, b.known = true → P b.contents) :
  arya.equals eq aryb = true
    ↔ arya.key contentsKey = aryb.key contentsKey ∧ StaleAgree eq arya aryb
  := by
  have hequals : arya.equals eq aryb = true ↔ arya.getKnownVector = aryb.getKnownVector ∧
      List.Forall₂ (fun x y => eq x y = true) arya.getContentsVector aryb.getContentsVector := by
    rw [equals, ite_not, Bool.if_false_right, Bool.and_eq_true, decide_eq_true_iff,
      Lexicographic.equal_iff]
  have hkey : arya.key contentsKey = aryb.key contentsKey
      ↔ arya.map (elementKey contentsKey) = aryb.map (elementKey contentsKey) := by
    rw [key, key, List.cons.injEq, and_iff_right_iff_imp]
    intro h
    simpa using congrArg List.length h
  rw [hequals, hkey]
  clear hequals hkey
  unfold getKnownVector getContentsVector StaleAgree
  induction arya generalizing aryb with
  | nil =>
    cases aryb <;> simp
  | cons a arya ih =>
    obtain _ | ⟨b, aryb⟩ := aryb
    · simp
    · obtain ⟨ha, hrest⟩ := List.forall_mem_cons.mp ha
      obtain ⟨hb, hrest'⟩ := List.forall_mem_cons.mp hb
      have hhead : a.known = b.known ∧ eq a.contents b.contents = true
          ↔ elementKey contentsKey a = elementKey contentsKey b ∧
            (a.known = false → b.known = false → eq a.contents b.contents = true) := by
        unfold elementKey
        obtain hknown | hknown := Bool.eq_false_or_eq_true a.known
        · obtain hknown' | hknown' := Bool.eq_false_or_eq_true b.known
          · simp [hknown, hknown', heq _ _ (ha hknown) (hb hknown')]
          · simp [hknown, hknown']
        · obtain hknown' | hknown' := Bool.eq_false_or_eq_true b.known
          · simp [hknown, hknown']
          · simp [hknown, hknown']
      have htail := ih hrest hrest'
      simp only [List.map_cons, List.cons.injEq, List.forall₂_cons, List.zip_cons_cons,
        List.forall_mem_cons]
      tauto

end ArrayImpl

/-! ### Equality of values -/

namespace Intfc.Value

/-- The contents of the elements which are unknown in both values are equal. -/
def StaleAgree : Value → Value → Prop
  | booleanArray x, booleanArray y => x.StaleAgree (· = ·) y
  | integerArray x, integerArray y => x.StaleAgree (· = ·) y
  | realArray x, realArray y => x.StaleAgree Binary64.eq y
  | stringArray x, stringArray y => x.StaleAgree (· = ·) y
  | _, _ => True

/-- One is an unknown `Integer` and the other an unknown `Real`. -/
def MixedUnknown (v w : Value) : Prop :=
  v = unknown .integer ∧ w = unknown .real ∨ v = unknown .real ∧ w = unknown .integer

theorem key_eq_iff (v w : Value) :
  v.key = w.key ↔ v.isKnown = w.isKnown ∧ v.rank = w.rank ∧ v.contentsKey = w.contentsKey
  := by
  simp [key, Prod.ext_iff]

/-- Values of the same type, both known or both unknown, are equal if their contents are. -/
theorem equals_iff_contentsKey {v w : Value} (hknown : v.isKnown = w.isKnown)
    (hrank : v.rank = w.rank) (hmixed : ¬ v.MixedUnknown w)
    (h : v.equals w = true ↔ v.contentsKey = w.contentsKey ∧ v.StaleAgree w) :
  v.equals w = true ↔ v.key = w.key ∧ v.StaleAgree w ∨ v.MixedUnknown w
  := by
  simp [h, key_eq_iff, hknown, hrank, hmixed]

/-- `equals` compares the keys and the contents of unknown elements, and it takes unknowns of
the types `Integer` and `Real` for equal. -/
theorem equals_iff {v w : Value} (hv : v.NoNaN) (hw : w.NoNaN) :
  v.equals w = true ↔ v.key = w.key ∧ v.StaleAgree w ∨ v.MixedUnknown w
  := by
  cases v <;> cases w
  case unknown.unknown s t =>
    have hcode : s.code = t.code ↔ t = s := by
      rw [ValueType.code_injective.eq_iff, eq_comm]
    rw [key_eq_iff]
    simp only [isKnown, rank, valueType, contentsKey, StaleAgree, MixedUnknown, BitVec.toNat_inj,
      hcode, unknown.injEq]
    cases s <;> simp [equals]
  case boolean.boolean x y =>
    apply equals_iff_contentsKey (by rfl) (by rfl) (by simp [MixedUnknown])
    simp [equals, contentsKey, StaleAgree, Boolean.key_injective.eq_iff]
  case integer.integer x y =>
    apply equals_iff_contentsKey (by rfl) (by rfl) (by simp [MixedUnknown])
    simp [equals, contentsKey, StaleAgree, Integer.key_injective.eq_iff]
  case integer.real x y =>
    apply equals_iff_contentsKey (by rfl) (by rfl) (by simp [MixedUnknown])
    have := Binary64.eq_iff hw x.isNaN_toReal
    simp [equals, contentsKey, StaleAgree, this, Integer.key, eq_comm]
  case real.integer x y =>
    apply equals_iff_contentsKey (by rfl) (by rfl) (by simp [MixedUnknown])
    have := Binary64.eq_iff hv y.isNaN_toReal
    simp [equals, contentsKey, StaleAgree, this, Integer.key]
  case real.real x y =>
    apply equals_iff_contentsKey (by rfl) (by rfl) (by simp [MixedUnknown])
    have := Binary64.eq_iff hv hw
    simp [equals, contentsKey, StaleAgree, this]
  case string.string x y =>
    apply equals_iff_contentsKey (by rfl) (by rfl) (by simp [MixedUnknown])
    simp [equals, contentsKey, StaleAgree, StringValue.key_injective.eq_iff]
  case booleanArray.booleanArray x y =>
    apply equals_iff_contentsKey (by rfl) (by rfl) (by simp [MixedUnknown])
    apply ArrayImpl.equals_iff (P := fun _ => True)
    · simp [Boolean.key_injective.eq_iff]
    · simp
    · simp
  case integerArray.integerArray x y =>
    apply equals_iff_contentsKey (by rfl) (by rfl) (by simp [MixedUnknown])
    apply ArrayImpl.equals_iff (P := fun _ => True)
    · simp [Integer.key_injective.eq_iff]
    · simp
    · simp
  case realArray.realArray x y =>
    apply equals_iff_contentsKey (by rfl) (by rfl) (by simp [MixedUnknown])
    apply ArrayImpl.equals_iff (P := fun x : Real => x.isNaN = false)
    · intro x y hx hy
      simp [Binary64.eq_iff hx hy]
    · exact hv
    · exact hw
  case stringArray.stringArray x y =>
    apply equals_iff_contentsKey (by rfl) (by rfl) (by simp [MixedUnknown])
    apply ArrayImpl.equals_iff (P := fun _ => True)
    · simp [StringValue.key_injective.eq_iff]
    · simp
    · simp
  case nodeState.nodeState x y =>
    apply equals_iff_contentsKey (by rfl) (by rfl) (by simp [MixedUnknown])
    simp [equals, contentsKey, StaleAgree, BitVec.toNat_inj, NodeState.code_injective.eq_iff]
  case outcome.outcome x y =>
    apply equals_iff_contentsKey (by rfl) (by rfl) (by simp [MixedUnknown])
    simp [equals, contentsKey, StaleAgree, BitVec.toNat_inj, NodeOutcome.code_injective.eq_iff]
  case failure.failure x y =>
    apply equals_iff_contentsKey (by rfl) (by rfl) (by simp [MixedUnknown])
    simp [equals, contentsKey, StaleAgree, BitVec.toNat_inj, FailureType.code_injective.eq_iff]
  case commandHandle.commandHandle x y =>
    apply equals_iff_contentsKey (by rfl) (by rfl) (by simp [MixedUnknown])
    simp [equals, contentsKey, StaleAgree, BitVec.toNat_inj,
      CommandHandleValue.code_injective.eq_iff]
  all_goals
    simp [key_eq_iff, equals, isKnown, rank, valueType, ValueType.code, MixedUnknown]

/-- Unknowns of the types `Integer` and `Real` have different keys. -/
theorem MixedUnknown.key_ne {v w : Value} (h : v.MixedUnknown w) :
  v.key ≠ w.key
  := by
  rw [Ne, key_eq_iff]
  obtain ⟨rfl, rfl⟩ | ⟨rfl, rfl⟩ := h
  · simp [rank, valueType, ValueType.code]
  · simp [rank, valueType, ValueType.code]

/-- When the values have the same key, then the contents of their unknown elements are equal
too; and they are not unknowns of the types `Integer` and `Real`. -/
def Coherent (v w : Value) : Prop :=
  (v.key = w.key → v.StaleAgree w) ∧ ¬ v.MixedUnknown w

theorem incomparable_iff_equals_iff {v w : Value} (hv : v.NoNaN) (hw : w.NoNaN) :
  (¬ v.lessThan w = true ∧ ¬ w.lessThan v = true ↔ v.equals w = true) ↔ v.Coherent w
  := by
  have hmixed : v.MixedUnknown w → v.key ≠ w.key := MixedUnknown.key_ne
  rw [incomparable_iff hv hw, equals_iff hv hw, Coherent]
  tauto

end Intfc.Value
end Plexil

import Mathlib.Algebra.Order.Ring.Abs
import Plexil.Util.FloatingPoint
import Plexil.Value.ValueType

/-!
# Threshold caches

A change lookup propagates a new value when it has moved by at least the tolerance.  The
threshold cache of the lookup keeps the interval within which the value may move; it is a
template over the type of the numbers, of which the test of the thresholds is specialised
for each type.  The theorem of the module is that a value which does not exceed the
thresholds differs from the value they were set for by less than the tolerance.  For
Integers this is so also where the arithmetic wraps around, and for Reals with all results
rounded.
-/

namespace Plexil.Intfc

/-! ### The template -/

/-- The thresholds of a lookup, `ThresholdCacheImpl<NUM>`. -/
structure ThresholdCache (NUM : Type) where
  low : NUM
  high : NUM
  tolerance : NUM
  wasKnown : Bool
  deriving DecidableEq

/-- What the template needs of the type of the numbers. -/
class ThresholdNumber (NUM : Type) where
  zero : NUM
  neg : NUM → NUM
  add : NUM → NUM → NUM
  sub : NUM → NUM → NUM
  /-- The comparison `<`. -/
  lt : NUM → NUM → Bool
  /-- The comparison `==`. -/
  eq : NUM → NUM → Bool
  /-- The specialisation of the test of the thresholds. -/
  thresholdsExceeded : ThresholdCache NUM → Option NUM → Bool

namespace ThresholdCache

variable {NUM : Type} [ThresholdNumber NUM]

open ThresholdNumber

/-- The tolerance without its sign. -/
def magnitude (tol : NUM) : NUM :=
  if lt tol zero then neg tol else tol

def toleranceChanged (t : ThresholdCache NUM) (tolerance : Option NUM) : Bool :=
  match tolerance with
  | some newTol => !eq (magnitude newTol) t.tolerance
  | none => true

def setThresholds (t : ThresholdCache NUM) (value tolerance : Option NUM) : ThresholdCache NUM :=
  let tol :=
    match tolerance with
    | some tol => magnitude tol
    | none => zero
  match value with
  | some base => { low := sub base tol, high := add base tol, tolerance := tol, wasKnown := true }
  | none => { t with wasKnown := false }

/-- A cache just constructed.  Its thresholds are set before they are read. -/
def new : ThresholdCache NUM :=
  { low := zero, high := zero, tolerance := zero, wasKnown := false }

@[simp]
theorem setThresholds_some (t : ThresholdCache NUM) (base tol : NUM) :
  t.setThresholds (some base) (some tol) =
    ⟨sub base (magnitude tol), add base (magnitude tol), magnitude tol, true⟩
  := rfl

@[simp]
theorem setThresholds_none (t : ThresholdCache NUM) (tolerance : Option NUM) :
  t.setThresholds none tolerance = { t with wasKnown := false }
  := rfl

end ThresholdCache

/-! ### Numbers which obey the tolerance -/

/-- The numbers with a notion of being closer than a tolerance, which is what the thresholds
test, as long as the numbers are regular. -/
class LawfulThresholdNumber (NUM : Type) extends ThresholdNumber NUM where
  /-- The difference of two values is less than the magnitude of a tolerance. -/
  Within : (tol shown actual : NUM) → Prop
  /-- The thresholds of `tol` around the value `shown` can be compared with `actual`. -/
  Regular : (tol shown actual : NUM) → Prop
  lt_irrefl : ∀ x : NUM, lt x x = false
  lt_trans : ∀ {x y z : NUM}, lt x y = true → lt y z = true → lt x z = true
  eq_of_eq : ∀ {x y : NUM}, eq x y = true → x = y
  exceeded_none : ∀ t : ThresholdCache NUM, thresholdsExceeded t none = t.wasKnown
  within_of_not_exceeded : ∀ {tol shown actual : NUM}, Regular tol shown actual →
    thresholdsExceeded (ThresholdCache.new.setThresholds (some shown) (some tol)) (some actual)
      = false → Within tol shown actual

/-! ### Integers -/

namespace Integer

/-- The specialisation for Integers. -/
def thresholdsExceeded (t : ThresholdCache Integer) : Option Integer → Bool
  | some currentValue => t.high.sle currentValue || currentValue.sle t.low
  | none => t.wasKnown

instance : ThresholdNumber Integer where
  zero := 0
  neg x := -x
  add x y := x + y
  sub x y := x - y
  lt x y := x.slt y
  eq x y := x == y
  thresholdsExceeded := thresholdsExceeded

/-- The difference of two Integers is less than the magnitude of a tolerance. -/
def Within (tol shown actual : Integer) : Prop :=
  |shown.toInt - actual.toInt| < |tol.toInt|

/-- Where a threshold wraps around, every value exceeds the thresholds. -/
theorem within_of_not_exceeded {tol shown actual : Integer}
    (h : thresholdsExceeded (ThresholdCache.new.setThresholds (some shown) (some tol)) (some actual)
      = false) :
  Within tol shown actual
  := by
  simp only [ThresholdCache.setThresholds_some, ThresholdCache.magnitude, thresholdsExceeded,
    ThresholdNumber.add, ThresholdNumber.sub, ThresholdNumber.neg, ThresholdNumber.zero,
    ThresholdNumber.lt, Bool.or_eq_false_iff, BitVec.sle_eq_decide, BitVec.slt_eq_decide,
    decide_eq_true_eq, decide_eq_false_iff_not, not_le] at h
  have hshown := shown.toInt_lt
  have hshown' := shown.le_toInt
  have hactual := actual.toInt_lt
  have hactual' := actual.le_toInt
  have htol := tol.toInt_lt
  have htol' := tol.le_toInt
  rw [Within, abs_lt]
  split at h
  · rename_i hnegative
    rw [BitVec.toInt_add, BitVec.toInt_sub, BitVec.toInt_neg] at h
    have hzero : (0 : Integer).toInt = 0 := rfl
    rw [hzero] at hnegative
    rw [abs_of_neg hnegative]
    simp only [Int.bmod_def] at h
    omega
  · rename_i hnonnegative
    rw [BitVec.toInt_add, BitVec.toInt_sub] at h
    have hzero : (0 : Integer).toInt = 0 := rfl
    rw [hzero] at hnonnegative
    rw [abs_of_nonneg (not_lt.mp hnonnegative)]
    simp only [Int.bmod_def] at h
    omega

instance : LawfulThresholdNumber Integer where
  Within := Within
  Regular _ _ _ := True
  lt_irrefl x := by simp [ThresholdNumber.lt, BitVec.slt_eq_decide]
  lt_trans {x y z} hxy hyz := by
    simp only [ThresholdNumber.lt, BitVec.slt_eq_decide, decide_eq_true_eq] at *
    apply hxy.trans hyz
  eq_of_eq h := eq_of_beq h
  exceeded_none _ := rfl
  within_of_not_exceeded _ h := within_of_not_exceeded h

end Integer

/-! ### Reals -/

/-- The Reals as numbers. -/
abbrev RealNumber := FloatingPoint FloatFormat.binary64

namespace RealNumber

open FloatingPoint

/-- The specialisation for Reals, with guard bands around the thresholds. -/
def thresholdsExceeded (t : ThresholdCache RealNumber) : Option RealNumber → Bool
  | some currentValue =>
    if !t.wasKnown then true
    else if t.high.le currentValue || currentValue.le t.low then true
    else
      let epsilon := currentValue.scale (1 / 10 ^ 13)
      (t.high.sub currentValue).lt epsilon || (currentValue.sub t.low).lt epsilon
  | none => t.wasKnown

instance : ThresholdNumber RealNumber where
  zero := ofRat 0
  neg := neg
  add := add
  sub := sub
  lt := lt
  eq := eq
  thresholdsExceeded := thresholdsExceeded

/-- The difference of two Reals is less than the magnitude of a tolerance. -/
def Within : (tol shown actual : RealNumber) → Prop
  | .finite tol, .finite shown, .finite actual => |shown.val - actual.val| < |tol.val|
  | .infinite _, .finite _, .finite _ => True
  | _, _, _ => False

/-- None of the values is a NaN, and no threshold is. -/
def Regular (tol shown actual : RealNumber) : Prop :=
  tol.isNaN = false ∧ shown.isNaN = false ∧ actual.isNaN = false ∧
    ¬ (tol.isInfinite = true ∧ shown.isInfinite = true)

theorem zero_eq :
  ∃ h, (ThresholdNumber.zero : RealNumber) = .finite ⟨0, h⟩
  := by
  have hrepresentable : FloatFormat.binary64.Representable 0 := by
    constructor
    · simp [FloatFormat.round, FloatFormat.nearest]
    · norm_num [FloatFormat.binary64]
  use hrepresentable
  apply ofRat_eq

theorem magnitude_infinite (negative : Bool) :
  ThresholdCache.magnitude (.infinite negative : RealNumber) = .infinite false
  := by
  obtain ⟨_, hzero⟩ := zero_eq
  rw [ThresholdCache.magnitude, hzero]
  cases negative
  · rfl
  · rfl

theorem magnitude_finite (tol : { q : ℚ // FloatFormat.binary64.Representable q }) :
  ∃ h, ThresholdCache.magnitude (.finite tol : RealNumber) = .finite ⟨|tol.val|, h⟩
  := by
  obtain ⟨_, hzero⟩ := zero_eq
  have hlt : ThresholdNumber.lt (.finite tol : RealNumber) ThresholdNumber.zero
      = decide (tol.val < 0) := by
    rw [hzero]
    simp [ThresholdNumber.lt, lt, isNaN, place]
  rw [ThresholdCache.magnitude, hlt]
  obtain hnegative | hnonnegative := lt_or_ge tol.val 0
  · simp only [hnegative, abs_of_neg, decide_true, if_true]
    use tol.property.neg
    apply ofRat_eq
  · simp only [hnonnegative.not_gt, abs_of_nonneg hnonnegative, decide_false]
    use tol.property
    rfl

/-- Rounding does not move a threshold beyond the value. -/
theorem within_of_not_exceeded {tol shown actual : RealNumber} (hregular : Regular tol shown actual)
    (h : thresholdsExceeded (ThresholdCache.new.setThresholds (some shown) (some tol)) (some actual)
      = false) :
  Within tol shown actual
  := by
  obtain ⟨htol, hshown, hactual, hinfinite⟩ := hregular
  have hthresholds :
      (add shown (ThresholdCache.magnitude tol)).le actual = false ∧
      actual.le (sub shown (ThresholdCache.magnitude tol)) = false := by
    rw [← Bool.or_eq_false_iff, ← Bool.not_eq_true]
    intro hexceeded
    rw [ThresholdCache.setThresholds_some, thresholdsExceeded] at h
    simp only [ThresholdNumber.add, ThresholdNumber.sub, hexceeded] at h
    simp at h
  obtain ⟨hhigh, hlow⟩ := hthresholds
  obtain _ | negative | tol := tol
  · contradiction
  · rw [magnitude_infinite] at hhigh hlow
    obtain _ | _ | shown := shown
    · contradiction
    · exact absurd ⟨rfl, rfl⟩ hinfinite
    · obtain _ | (_ | _) | actual := actual
      · contradiction
      · contradiction
      · contradiction
      · trivial
  · obtain ⟨_, hmagnitude⟩ := magnitude_finite tol
    rw [hmagnitude] at hhigh hlow
    obtain _ | negative | shown := shown
    · contradiction
    · have hhigh := lt_place_of_not_le rfl hactual hhigh
      have hlow := lt_place_of_not_le hactual rfl hlow
      exact absurd hhigh hlow.not_gt
    · have hhigh := lt_place_of_not_le (not_isNaN_ofRat _) hactual hhigh
      have hlow := lt_place_of_not_le hactual (not_isNaN_ofRat _) hlow
      obtain _ | (_ | _) | actual := actual
      · contradiction
      · exact absurd hhigh (place_le_top _).not_gt
      · exact absurd hlow not_lt_bot
      · have hhigh := lt_of_place_lt_ofRat hhigh
        have hlow := lt_of_ofRat_place_lt hlow
        apply abs_lt.mpr
        constructor
        · linarith
        · linarith

instance : LawfulThresholdNumber RealNumber where
  Within := Within
  Regular := Regular
  lt_irrefl := lt_irrefl
  lt_trans := lt_trans
  eq_of_eq := eq_of_eq
  exceeded_none _ := rfl
  within_of_not_exceeded := within_of_not_exceeded

end RealNumber

/-! ### The instances of the template -/

/-- The types of the numbers for which there are thresholds. -/
inductive NumericType where
  | integer
  | real

/-- The numbers of a type. -/
abbrev NumericType.Number : NumericType → Type
  | integer => Integer
  | real => RealNumber

instance (τ : NumericType) : LawfulThresholdNumber τ.Number :=
  match τ with
  | .integer => inferInstanceAs (LawfulThresholdNumber Integer)
  | .real => inferInstanceAs (LawfulThresholdNumber RealNumber)

end Plexil.Intfc

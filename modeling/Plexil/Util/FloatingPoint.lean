import Mathlib.Algebra.Order.Field.Power
import Mathlib.Algebra.Order.Floor.Ring
import Mathlib.Algebra.Order.Round
import Mathlib.Algebra.Ring.Int.Parity
import Mathlib.Data.Int.Log
import Mathlib.Data.Rat.Floor
import Mathlib.Order.WithBot
import Mathlib.Tactic.FieldSimp
import Mathlib.Tactic.Linarith
import Mathlib.Tactic.Positivity
import Mathlib.Tactic.Ring

/-!
# Floating point numbers

The floating point numbers of a binary format, given by their values.  A finite number is a
rational number which the format represents; the result of an operation is the exact result
rounded to the nearest representable number, ties to even, and it is infinite when that is
beyond the largest number.  Rounding is monotone and leaves the representable numbers as
they are, hence a comparison of a representable number with a rounded one is the comparison
with the exact one.  The two zeros have the same value.
-/

/-- A format: the number of bits of a mantissa, the least exponent and the largest number. -/
structure FloatFormat where
  precision : Nat
  precision_pos : 0 < precision
  minExponent : Int
  largest : ℚ
  deriving DecidableEq

namespace FloatFormat

/-- The format of the numbers of 64 bits. -/
def binary64 : FloatFormat where
  precision := 53
  precision_pos := by decide
  minExponent := -1074
  largest := (2 ^ 53 - 1) * 2 ^ 971

/-! ### Rounding -/

/-- The nearest integer, ties to even. -/
def nearest (q : ℚ) : ℤ :=
  if q - ⌊q⌋ < 1 / 2 ∨ (q - ⌊q⌋ = 1 / 2 ∧ Even ⌊q⌋) then ⌊q⌋ else ⌊q⌋ + 1

theorem nearest_intCast (n : ℤ) :
  nearest n = n
  := by
  simp [nearest]

theorem floor_le_nearest (q : ℚ) :
  ⌊q⌋ ≤ nearest q
  := by
  rw [nearest]
  split <;> omega

theorem nearest_le_floor_add_one (q : ℚ) :
  nearest q ≤ ⌊q⌋ + 1
  := by
  rw [nearest]
  split <;> omega

theorem nearest_mono {q r : ℚ} (h : q ≤ r) :
  nearest q ≤ nearest r
  := by
  obtain hlt | heq := (Int.floor_le_floor h).lt_or_eq
  · apply (nearest_le_floor_add_one q).trans
    apply le_trans _ (floor_le_nearest r)
    omega
  · rw [nearest, nearest, ← heq]
    split
    · split <;> omega
    · rename_i hq
      rw [if_neg]
      push Not at hq
      rintro (hr | ⟨hr, heven⟩)
      · have := hq.1
        linarith
      · apply hq.2 _ heven
        apply le_antisymm _ hq.1
        linarith

variable (F : FloatFormat)

/-- The exponent of the last bit of a number of the format near `q`. -/
def exponent (q : ℚ) : ℤ :=
  if q = 0 then F.minExponent else max F.minExponent (Int.log 2 |q| + 1 - F.precision)

/-- The nearest number of the format, when exponents are not bounded. -/
def round (q : ℚ) : ℚ := nearest (q / 2 ^ F.exponent q) * 2 ^ F.exponent q

theorem minExponent_le_exponent (q : ℚ) :
  F.minExponent ≤ F.exponent q
  := by
  rw [exponent]
  split
  · apply le_refl
  · apply le_max_left

/-- A number has at most as many bits as the precision says. -/
theorem abs_lt_exponent (q : ℚ) :
  |q| < 2 ^ (F.exponent q + F.precision)
  := by
  obtain rfl | hq := eq_or_ne q 0
  · rw [abs_zero]
    positivity
  · have hlog : |q| < (2 : ℕ) ^ (Int.log 2 |q| + 1) :=
      Int.lt_zpow_succ_log_self (by decide) |q|
    rw [Nat.cast_ofNat] at hlog
    apply hlog.trans_le
    apply zpow_le_zpow_right₀ (by norm_num)
    have := le_max_right F.minExponent (Int.log 2 |q| + 1 - F.precision)
    rw [exponent, if_neg hq]
    omega

/-- A number whose exponent is not the least one has as many bits as the precision says. -/
theorem exponent_le_abs {q : ℚ} (h : F.minExponent < F.exponent q) :
  2 ^ (F.exponent q + F.precision - 1) ≤ |q|
  := by
  obtain rfl | hq := eq_or_ne q 0
  · simp [exponent] at h
  · have hlog : ((2 : ℕ) : ℚ) ^ Int.log 2 |q| ≤ |q| := Int.zpow_log_le_self (by decide) (by simpa)
    rw [Nat.cast_ofNat] at hlog
    rw [exponent, if_neg hq] at h ⊢
    have hmax : max F.minExponent (Int.log 2 |q| + 1 - F.precision) + F.precision - 1
        = Int.log 2 |q| := by omega
    rwa [hmax]

/-- A multiple of the last bit above a number is above the rounded number. -/
theorem round_le {q : ℚ} (m : ℤ) (h : q ≤ m * 2 ^ F.exponent q) :
  F.round q ≤ m * 2 ^ F.exponent q
  := by
  have hpos : (0 : ℚ) < 2 ^ F.exponent q := by positivity
  have hnearest := nearest_mono ((div_le_iff₀ hpos).mpr h)
  rw [nearest_intCast] at hnearest
  rw [round]
  gcongr

/-- A multiple of the last bit below a number is below the rounded number. -/
theorem le_round {q : ℚ} (m : ℤ) (h : m * 2 ^ F.exponent q ≤ q) :
  m * 2 ^ F.exponent q ≤ F.round q
  := by
  have hpos : (0 : ℚ) < 2 ^ F.exponent q := by positivity
  have hnearest := nearest_mono ((le_div_iff₀ hpos).mpr h)
  rw [nearest_intCast] at hnearest
  rw [round]
  gcongr

/-- A power of 2 is a multiple of a lesser one. -/
theorem zpow_eq_mul {e k : ℤ} (h : e ≤ k) :
  (2 : ℚ) ^ k = ((2 ^ (k - e).toNat : ℤ) : ℚ) * 2 ^ e
  := by
  push_cast
  rw [← zpow_natCast, ← zpow_add₀ (by norm_num), Int.toNat_of_nonneg (by omega), sub_add_cancel]

/-- A power of 2 separates numbers of different exponents, whether or not they are rounded. -/
theorem abs_round_le {q : ℚ} {k : ℤ} (hk : F.exponent q ≤ k) (h : |q| ≤ 2 ^ k) :
  |F.round q| ≤ 2 ^ k
  := by
  obtain ⟨hlow, hhigh⟩ := abs_le.mp h
  apply abs_le.mpr
  rw [zpow_eq_mul hk] at *
  constructor
  · rw [← neg_mul, ← Int.cast_neg] at *
    apply F.le_round _ hlow
  · apply F.round_le _ hhigh

theorem round_mono {q r : ℚ} (h : q ≤ r) :
  F.round q ≤ F.round r
  := by
  have hprecision := F.precision_pos
  obtain hlt | heq | hgt := lt_trichotomy (F.exponent q) (F.exponent r)
  · have hr := F.exponent_le_abs ((F.minExponent_le_exponent q).trans_lt hlt)
    have hq : |q| < 2 ^ (F.exponent r + F.precision - 1) := by
      apply (F.abs_lt_exponent q).trans_le
      apply zpow_le_zpow_right₀ (by norm_num)
      omega
    have hpivot : 2 ^ (F.exponent r + F.precision - 1) ≤ r := by
      obtain hpos | hneg := abs_choice r
      · rwa [hpos] at hr
      · have := neg_lt_of_abs_lt hq
        linarith
    apply (le_of_abs_le (F.abs_round_le (by omega) hq.le)).trans
    rw [zpow_eq_mul (e := F.exponent r) (by omega)] at hpivot ⊢
    apply F.le_round _ hpivot
  · rw [round, round, heq]
    have hpos : (0 : ℚ) < 2 ^ F.exponent r := by positivity
    have hnearest := nearest_mono (div_le_div_of_nonneg_right h hpos.le)
    gcongr
  · have hq := F.exponent_le_abs ((F.minExponent_le_exponent r).trans_lt hgt)
    have hr : |r| < 2 ^ (F.exponent q + F.precision - 1) := by
      apply (F.abs_lt_exponent r).trans_le
      apply zpow_le_zpow_right₀ (by norm_num)
      omega
    have hpivot : q ≤ -2 ^ (F.exponent q + F.precision - 1) := by
      obtain hpos | hneg := abs_choice q
      · have := lt_of_abs_lt hr
        linarith
      · rw [hneg] at hq
        linarith
    apply le_trans _ (neg_le_of_abs_le (F.abs_round_le (by omega) hr.le))
    rw [zpow_eq_mul (e := F.exponent q) (by omega), ← neg_mul, ← Int.cast_neg] at hpivot ⊢
    apply F.round_le _ hpivot

/-- A number which is a multiple of its last bit is not rounded. -/
theorem round_of_multiple {q : ℚ} (m : ℤ) (h : q = m * 2 ^ F.exponent q) :
  F.round q = q
  := by
  apply le_antisymm
  · apply (F.round_le m h.le).trans h.ge
  · apply h.le.trans (F.le_round m h.ge)

theorem exponent_le {q : ℚ} {e : ℤ} (he : F.minExponent ≤ e) (h : |q| < 2 ^ (e + F.precision)) :
  F.exponent q ≤ e
  := by
  rw [exponent]
  split
  · exact he
  · rename_i hq
    have hlog : Int.log 2 |q| < e + F.precision := by
      apply (Int.lt_zpow_iff_log_lt (by decide) (by simpa)).mp
      rwa [Nat.cast_ofNat]
    omega

theorem round_round (q : ℚ) :
  F.round (F.round q) = F.round q
  := by
  have hprecision := F.precision_pos
  have hmin := F.minExponent_le_exponent q
  have habs : |F.round q| ≤ 2 ^ (F.exponent q + F.precision) :=
    F.abs_round_le (by omega) (F.abs_lt_exponent q).le
  obtain hlt | heq := habs.lt_or_eq
  · have hle := F.exponent_le hmin hlt
    apply F.round_of_multiple
      (nearest (q / 2 ^ F.exponent q) * 2 ^ (F.exponent q - F.exponent (F.round q)).toNat)
    rw [Int.cast_mul, mul_assoc, ← zpow_eq_mul hle]
    rfl
  · have hle : F.exponent (F.round q) ≤ F.exponent q + 1 := by
      apply F.exponent_le (by omega)
      rw [heq]
      apply zpow_lt_zpow_right₀ (by norm_num)
      omega
    have hmultiple := zpow_eq_mul (e := F.exponent (F.round q)) (k := F.exponent q + F.precision)
      (by omega)
    obtain hpos | hneg := abs_choice (F.round q)
    · rw [hpos] at heq
      apply F.round_of_multiple _ (heq.trans hmultiple)
    · rw [hneg, neg_eq_iff_eq_neg] at heq
      rw [← neg_inj, neg_mul_eq_neg_mul, ← Int.cast_neg] at hmultiple
      apply F.round_of_multiple _ (heq.trans hmultiple)

/-- The finite numbers of the format. -/
def Representable (q : ℚ) : Prop := F.round q = q ∧ |q| ≤ F.largest

variable {F} in
theorem Representable.neg {q : ℚ} (h : F.Representable q) :
  F.Representable (-q)
  := by
  have hexponent : F.exponent (-q) = F.exponent q := by
    simp [exponent]
  constructor
  · apply F.round_of_multiple (-nearest (q / 2 ^ F.exponent q))
    rw [hexponent, Int.cast_neg, neg_mul, neg_inj]
    exact h.1.symm
  · rw [abs_neg]
    exact h.2

variable {F} in
/-- Integers which fit into the mantissa are numbers of the format. -/
theorem representable_intCast (hexponent : F.minExponent ≤ 0) {n : ℤ}
    (hprecision : |n| < 2 ^ F.precision) (hlargest : (|n| : ℚ) ≤ F.largest) :
  F.Representable n
  := by
  refine ⟨?_, hlargest⟩
  have hle : F.exponent n ≤ 0 := by
    apply F.exponent_le hexponent
    rw [Int.zero_add, zpow_natCast]
    exact_mod_cast hprecision
  obtain ⟨k, hk⟩ := Int.exists_eq_neg_ofNat hle
  apply F.round_of_multiple (n * 2 ^ k)
  rw [hk]
  push_cast
  rw [zpow_neg, zpow_natCast, mul_assoc, mul_inv_cancel₀ (by positivity), mul_one]

end FloatFormat

/-! ### Numbers -/

/-- A floating point number: not a number, an infinity, or a finite number. -/
inductive FloatingPoint (F : FloatFormat) where
  | nan
  | infinite (negative : Bool)
  | finite (value : { q : ℚ // F.Representable q })

namespace FloatingPoint

variable {F : FloatFormat}

/-- The number nearest to `q`. -/
def ofRat (q : ℚ) : FloatingPoint F :=
  if h : |F.round q| ≤ F.largest then .finite ⟨F.round q, F.round_round q, h⟩
  else .infinite (F.round q < 0)

def isNaN : FloatingPoint F → Bool
  | .nan => true
  | _ => false

def isInfinite : FloatingPoint F → Bool
  | .infinite _ => true
  | _ => false

/-- The place of a number in the order, in which the infinities are the end points. -/
def place : FloatingPoint F → WithBot (WithTop ℚ)
  | .nan => ⊥
  | .infinite true => ⊥
  | .infinite false => ((⊤ : WithTop ℚ) : WithBot (WithTop ℚ))
  | .finite x => ((x.val : WithTop ℚ) : WithBot (WithTop ℚ))

/-- The comparison `<`. -/
def lt (x y : FloatingPoint F) : Bool :=
  !x.isNaN && !y.isNaN && decide (x.place < y.place)

/-- The comparison `<=`. -/
def le (x y : FloatingPoint F) : Bool :=
  !x.isNaN && !y.isNaN && decide (x.place ≤ y.place)

/-- The comparison `==`. -/
def eq (x y : FloatingPoint F) : Bool :=
  !x.isNaN && !y.isNaN && decide (x.place = y.place)

def neg : FloatingPoint F → FloatingPoint F
  | .nan => .nan
  | .infinite negative => .infinite !negative
  | .finite x => ofRat (-x.val)

def add : FloatingPoint F → FloatingPoint F → FloatingPoint F
  | .nan, _ => .nan
  | _, .nan => .nan
  | .infinite a, .infinite b => if a = b then .infinite a else .nan
  | .infinite a, .finite _ => .infinite a
  | .finite _, .infinite b => .infinite b
  | .finite x, .finite y => ofRat (x.val + y.val)

def sub : FloatingPoint F → FloatingPoint F → FloatingPoint F
  | .nan, _ => .nan
  | _, .nan => .nan
  | .infinite a, .infinite b => if a = b then .nan else .infinite a
  | .infinite a, .finite _ => .infinite a
  | .finite _, .infinite b => .infinite !b
  | .finite x, .finite y => ofRat (x.val - y.val)

/-- The magnitude of `x`, times the number nearest to `q`. -/
def scale (q : ℚ) : FloatingPoint F → FloatingPoint F
  | .nan => .nan
  | .infinite _ => .infinite false
  | .finite x => ofRat (|x.val| * F.round q)

/-! ### Rounded results -/

theorem ofRat_eq {q : ℚ} (h : F.Representable q) :
  ofRat q = finite ⟨q, h⟩
  := by
  have hround : F.round q = q := h.1
  simp [ofRat, hround, h.2]

theorem not_isNaN_ofRat (q : ℚ) :
  (ofRat q : FloatingPoint F).isNaN = false
  := by
  rw [ofRat]
  split <;> rfl

/-- The rounded number is on the same side of a number of the format. -/
theorem place_ofRat_le {q : ℚ} {x : { q : ℚ // F.Representable q }} (h : q ≤ x.val) :
  (ofRat q : FloatingPoint F).place ≤ (finite x).place
  := by
  have hround : F.round q ≤ x.val := (F.round_mono h).trans x.property.1.le
  rw [ofRat]
  split
  · exact WithBot.coe_le_coe.mpr (WithTop.coe_le_coe.mpr hround)
  · rename_i hlarge
    have hx := x.property.2
    have hnegative : F.round q < 0 := by
      by_contra hnonneg
      apply hlarge
      rw [abs_of_nonneg (not_lt.mp hnonneg)]
      apply hround.trans ((le_abs_self _).trans hx)
    simp only [hnegative, decide_true]
    apply bot_le

theorem le_place_ofRat {q : ℚ} {x : { q : ℚ // F.Representable q }} (h : x.val ≤ q) :
  (finite x).place ≤ (ofRat q : FloatingPoint F).place
  := by
  have hround : x.val ≤ F.round q := x.property.1.ge.trans (F.round_mono h)
  rw [ofRat]
  split
  · exact WithBot.coe_le_coe.mpr (WithTop.coe_le_coe.mpr hround)
  · rename_i hlarge
    have hx := x.property.2
    have hpositive : ¬ F.round q < 0 := by
      intro hnegative
      apply hlarge
      rw [abs_of_neg hnegative]
      have := neg_abs_le x.val
      linarith
    simp only [hpositive, decide_false]
    exact WithBot.coe_le_coe.mpr le_top

/-- A number of the format below a rounded number is below the exact one. -/
theorem lt_of_place_lt_ofRat {q : ℚ} {x : { q : ℚ // F.Representable q }}
    (h : (finite x).place < (ofRat q : FloatingPoint F).place) :
  x.val < q
  := by
  by_contra hle
  exact h.not_ge (place_ofRat_le (not_lt.mp hle))

theorem lt_of_ofRat_place_lt {q : ℚ} {x : { q : ℚ // F.Representable q }}
    (h : (ofRat q : FloatingPoint F).place < (finite x).place) :
  q < x.val
  := by
  by_contra hle
  exact h.not_ge (le_place_ofRat (not_lt.mp hle))

/-! ### The order -/

theorem place_le_top (x : FloatingPoint F) :
  x.place ≤ (infinite false : FloatingPoint F).place
  := by
  obtain _ | (_ | _) | x := x
  · apply bot_le
  · apply le_refl
  · apply bot_le
  · exact WithBot.coe_le_coe.mpr le_top

theorem lt_trans {x y z : FloatingPoint F} (hxy : x.lt y = true) (hyz : y.lt z = true) :
  x.lt z = true
  := by
  simp only [lt, Bool.and_eq_true, Bool.not_eq_true', decide_eq_true_eq] at *
  exact ⟨⟨hxy.1.1, hyz.1.2⟩, hxy.2.trans hyz.2⟩

theorem lt_irrefl (x : FloatingPoint F) :
  x.lt x = false
  := by
  simp [lt]

theorem eq_of_eq {x y : FloatingPoint F} (h : x.eq y = true) :
  x = y
  := by
  simp only [eq, Bool.and_eq_true, Bool.not_eq_true', decide_eq_true_eq] at h
  obtain ⟨⟨hx, hy⟩, h⟩ := h
  obtain _ | (_ | _) | x := x <;> obtain _ | (_ | _) | y := y
  all_goals
    first
    | contradiction
    | rfl
    | simp [place] at h
  congr 1
  apply Subtype.ext h

theorem lt_place_of_not_le {x y : FloatingPoint F} (hx : x.isNaN = false) (hy : y.isNaN = false)
    (h : x.le y = false) :
  y.place < x.place
  := by
  simpa [le, hx, hy] using h

end FloatingPoint

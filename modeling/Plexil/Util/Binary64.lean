import Mathlib.Data.BitVec
import Mathlib.Data.Nat.Log
import Mathlib.Order.Monotone.Basic
import Mathlib.Tactic.Linarith

/-!
# Numbers in the format binary64

The floating point numbers of 64 bits, given by their bits.  Apart from the numbers which are
not a number, they are ordered as the integers `orderKey` are: the bits other than the sign
bit grow with the magnitude, and the two zeros have the key 0.
-/

abbrev Binary64 := BitVec 64

namespace Binary64

/-- The bits other than the sign bit. -/
def magnitude (x : Binary64) : Nat := x.toNat % 2 ^ 63

/-- Whether `x` is not a number: the exponent is maximal and the fraction is not 0. -/
def isNaN (x : Binary64) : Bool := 2047 * 2 ^ 52 < x.magnitude

/-- The place of a number in the order. -/
def orderKey (x : Binary64) : Int :=
  if x.msb then -(x.magnitude : Int) else x.magnitude

/-- The comparison `<`. -/
def lt (x y : Binary64) : Bool :=
  !x.isNaN && !y.isNaN && decide (x.orderKey < y.orderKey)

/-- The comparison `==`. -/
def eq (x y : Binary64) : Bool :=
  !x.isNaN && !y.isNaN && decide (x.orderKey = y.orderKey)

theorem lt_iff {x y : Binary64} (hx : x.isNaN = false) (hy : y.isNaN = false) :
  x.lt y = true ↔ x.orderKey < y.orderKey
  := by
  simp [lt, hx, hy]

theorem eq_iff {x y : Binary64} (hx : x.isNaN = false) (hy : y.isNaN = false) :
  x.eq y = true ↔ x.orderKey = y.orderKey
  := by
  simp [eq, hx, hy]

/-! ### Integers -/

/-- The magnitude of a natural number below `2 ^ 53`. -/
def magnitudeOfNat (m : Nat) : Nat :=
  if m = 0 then 0 else (1023 + m.log2) * 2 ^ 52 + (m - 2 ^ m.log2) * 2 ^ (52 - m.log2)

/-- The conversion of an integer of magnitude below `2 ^ 53`, which is exact. -/
def ofInt (n : Int) : Binary64 :=
  if n < 0 then BitVec.ofNat 64 (2 ^ 63 + magnitudeOfNat n.natAbs)
  else BitVec.ofNat 64 (magnitudeOfNat n.natAbs)

/-- The fraction of a positive number does not reach the exponent. -/
theorem fraction_lt {m : Nat} (hm : m ≠ 0) (hlt : m < 2 ^ 53) :
  (m - 2 ^ m.log2) * 2 ^ (52 - m.log2) < 2 ^ 52
  := by
  have hlow := Nat.log2_self_le hm
  have hhigh : m < 2 ^ (m.log2 + 1) := Nat.lt_log2_self
  have hexponent : m.log2 ≤ 52 := Nat.lt_succ_iff.mp ((Nat.log2_lt hm).mpr hlt)
  have hfraction : m - 2 ^ m.log2 < 2 ^ m.log2 := by
    rw [pow_succ] at hhigh
    omega
  calc (m - 2 ^ m.log2) * 2 ^ (52 - m.log2)
      < 2 ^ m.log2 * 2 ^ (52 - m.log2) :=
        Nat.mul_lt_mul_of_pos_right hfraction (by positivity)
    _ = 2 ^ 52 := by rw [← pow_add, Nat.add_sub_cancel' hexponent]

theorem magnitudeOfNat_lt {m : Nat} (hlt : m < 2 ^ 53) :
  magnitudeOfNat m < 1076 * 2 ^ 52
  := by
  obtain rfl | hm := eq_or_ne m 0
  · simp [magnitudeOfNat]
  · have hexponent : m.log2 ≤ 52 := Nat.lt_succ_iff.mp ((Nat.log2_lt hm).mpr hlt)
    have hfraction := fraction_lt hm hlt
    rw [magnitudeOfNat, if_neg hm]
    omega

theorem magnitudeOfNat_strictMono {m n : Nat} (hmn : m < n) (hn : n < 2 ^ 53) :
  magnitudeOfNat m < magnitudeOfNat n
  := by
  have hn0 : n ≠ 0 := by omega
  obtain rfl | hm0 := eq_or_ne m 0
  · simp [magnitudeOfNat, hn0]
  · rw [magnitudeOfNat, if_neg hm0, magnitudeOfNat, if_neg hn0]
    have hle : m.log2 ≤ n.log2 := by
      apply (Nat.le_log2 hn0).mpr
      exact (Nat.log2_self_le hm0).trans hmn.le
    obtain heq | hlt := hle.eq_or_lt
    · rw [heq]
      have hlow := Nat.log2_self_le hm0
      rw [heq] at hlow
      gcongr
    · have hfraction := fraction_lt hm0 (hmn.trans hn)
      omega

theorem orderKey_ofInt {n : Int} (h : n.natAbs < 2 ^ 53) :
  (ofInt n).orderKey = if n < 0 then -(magnitudeOfNat n.natAbs : Int) else magnitudeOfNat n.natAbs
  := by
  have hmagnitude := magnitudeOfNat_lt h
  unfold orderKey ofInt magnitude
  split
  · have hmsb : (BitVec.ofNat 64 (2 ^ 63 + magnitudeOfNat n.natAbs)).msb = true := by
      rw [BitVec.msb_eq_decide]
      simp only [BitVec.toNat_ofNat, decide_eq_true_eq]
      omega
    rw [if_pos hmsb, BitVec.toNat_ofNat]
    omega
  · have hmsb : (BitVec.ofNat 64 (magnitudeOfNat n.natAbs)).msb = false := by
      rw [BitVec.msb_eq_decide]
      simp only [BitVec.toNat_ofNat, decide_eq_false_iff_not]
      omega
    rw [hmsb, if_neg Bool.false_ne_true, BitVec.toNat_ofNat]
    omega

theorem isNaN_ofInt {n : Int} (h : n.natAbs < 2 ^ 53) :
  (ofInt n).isNaN = false
  := by
  have hmagnitude := magnitudeOfNat_lt h
  unfold ofInt isNaN magnitude
  split
  · rw [BitVec.toNat_ofNat, decide_eq_false_iff_not]
    omega
  · rw [BitVec.toNat_ofNat, decide_eq_false_iff_not]
    omega

/-- The conversion keeps the order. -/
theorem orderKey_ofInt_lt {m n : Int} (hmn : m < n) (hm : m.natAbs < 2 ^ 53)
    (hn : n.natAbs < 2 ^ 53) :
  (ofInt m).orderKey < (ofInt n).orderKey
  := by
  rw [orderKey_ofInt hm, orderKey_ofInt hn]
  split
  · split
    · have := magnitudeOfNat_strictMono (show n.natAbs < m.natAbs by omega) hm
      omega
    · have := magnitudeOfNat_strictMono (show 0 < m.natAbs by omega) hm
      omega
  · rw [if_neg (by omega)]
    have := magnitudeOfNat_strictMono (show m.natAbs < n.natAbs by omega) hn
    omega

theorem orderKey_ofInt_lt_iff {m n : Int} (hm : m.natAbs < 2 ^ 53) (hn : n.natAbs < 2 ^ 53) :
  (ofInt m).orderKey < (ofInt n).orderKey ↔ m < n
  := by
  constructor
  · intro h
    obtain hlt | rfl | hlt := lt_trichotomy m n
    · exact hlt
    · exact absurd h (lt_irrefl _)
    · exact absurd h (orderKey_ofInt_lt hlt hn hm).le.not_gt
  · intro h
    apply orderKey_ofInt_lt h hm hn

end Binary64

import Plexil.Util.Binary64

/-!
# Numbers in the format binary32

The floating point numbers of 32 bits, given by their bits, and their conversion to 64 bits.
It is exact; a number which is not a number becomes a quiet one and keeps the other bits of its
fraction, up to those which it does not have.
-/

abbrev Binary32 := BitVec 32

namespace Binary32

/-- The bits other than the sign bit. -/
def magnitude (x : Binary32) : Nat := x.toNat % 2 ^ 31

/-- The conversion of the bits other than the sign bit.  The numbers below `2 ^ 23` are the
multiples of `2 ^ (-149)`. -/
def widenMagnitude (m : Nat) : Nat :=
  if m = 0 then 0
  else if m < 2 ^ 23 then Binary64.magnitudeOfNat m - 149 * 2 ^ 52
  else if m < 255 * 2 ^ 23 then m * 2 ^ 29 + 896 * 2 ^ 52
  else if m = 255 * 2 ^ 23 then 2047 * 2 ^ 52
  else 2047 * 2 ^ 52 + 2 ^ 51 + m % 2 ^ 22 * 2 ^ 29

/-- The conversion to 64 bits. -/
def toBinary64 (x : Binary32) : Binary64 :=
  if x.msb then BitVec.ofNat 64 (2 ^ 63 + widenMagnitude x.magnitude)
  else BitVec.ofNat 64 (widenMagnitude x.magnitude)

/-! ### The fraction -/

theorem le_magnitudeOfNat {m : Nat} (hm : m ≠ 0) : 1023 * 2 ^ 52 ≤ Binary64.magnitudeOfNat m
  := by
  rw [Binary64.magnitudeOfNat, if_neg hm]
  omega

theorem magnitudeOfNat_lt {m : Nat} (hm : m < 2 ^ 23) :
  Binary64.magnitudeOfNat m < 1046 * 2 ^ 52
  := by
  have h := Binary64.magnitudeOfNat_strictMono hm (by decide)
  have hpow : Binary64.magnitudeOfNat (2 ^ 23) = 1046 * 2 ^ 52 := by
    rw [Binary64.magnitudeOfNat, if_neg (by decide), Nat.log2_two_pow]
    norm_num
  omega

theorem widenMagnitude_of_normal {m : Nat} (h : 2 ^ 23 ≤ m) (h' : m < 255 * 2 ^ 23) :
  widenMagnitude m = m * 2 ^ 29 + 896 * 2 ^ 52
  := by
  unfold widenMagnitude
  rw [if_neg (by omega), if_neg (by omega), if_pos h']

theorem widenMagnitude_of_subnormal {m : Nat} (h : m ≠ 0) (h' : m < 2 ^ 23) :
  widenMagnitude m = Binary64.magnitudeOfNat m - 149 * 2 ^ 52
  := by
  unfold widenMagnitude
  rw [if_neg h, if_pos h']

theorem widenMagnitude_of_isNaN {m : Nat} (h : 255 * 2 ^ 23 < m) :
  widenMagnitude m = 2047 * 2 ^ 52 + 2 ^ 51 + m % 2 ^ 22 * 2 ^ 29
  := by
  unfold widenMagnitude
  rw [if_neg (by omega), if_neg (by omega), if_neg (by omega), if_neg (by omega)]

/-- The finite numbers keep their order. -/
theorem widenMagnitude_lt {m n : Nat} (hmn : m < n) (hn : n < 255 * 2 ^ 23) :
  widenMagnitude m < widenMagnitude n
  := by
  by_cases hn' : 2 ^ 23 ≤ n
  · rw [widenMagnitude_of_normal hn' hn]
    by_cases hm' : 2 ^ 23 ≤ m
    · rw [widenMagnitude_of_normal hm' (by omega)]
      omega
    · by_cases hm0 : m = 0
      · subst hm0
        change 0 < _
        omega
      · rw [widenMagnitude_of_subnormal hm0 (by omega)]
        have := magnitudeOfNat_lt (show m < 2 ^ 23 by omega)
        omega
  · have hn0 : n ≠ 0 := by omega
    rw [widenMagnitude_of_subnormal hn0 (by omega)]
    have hle := le_magnitudeOfNat hn0
    by_cases hm0 : m = 0
    · subst hm0
      change 0 < _
      omega
    · rw [widenMagnitude_of_subnormal hm0 (by omega)]
      have hlt := Binary64.magnitudeOfNat_strictMono hmn (by omega)
      have := le_magnitudeOfNat hm0
      omega

theorem widenMagnitude_lt_infinity {m : Nat} (h : m < 255 * 2 ^ 23) :
  widenMagnitude m < 2047 * 2 ^ 52
  := by
  have hlargest := widenMagnitude_of_normal (show 2 ^ 23 ≤ 255 * 2 ^ 23 - 1 by decide) (by decide)
  rcases (Nat.le_sub_one_of_lt h).lt_or_eq with h | rfl
  · have := widenMagnitude_lt h (by decide)
    omega
  · omega

/-- The last 22 bits are among those which are kept. -/
theorem widenMagnitude_mod {m n : Nat} (h : widenMagnitude m = widenMagnitude n) :
  m % 2 ^ 22 = n % 2 ^ 22
  := by
  wlog hle : m ≤ n generalizing m n
  · exact (this h.symm (by omega)).symm
  · rcases Nat.lt_trichotomy n (255 * 2 ^ 23) with hn | hn | hn
    · rcases hle.lt_or_eq with hlt | rfl
      · have := widenMagnitude_lt hlt hn
        omega
      · rfl
    · rcases hle.lt_or_eq with hlt | rfl
      · have := widenMagnitude_lt_infinity (hn ▸ hlt)
        have hinfinity : widenMagnitude n = 2047 * 2 ^ 52 := by
          rw [hn]
          rfl
        omega
      · rfl
    · rw [widenMagnitude_of_isNaN hn] at h
      rcases Nat.lt_trichotomy m (255 * 2 ^ 23) with hm | hm | hm
      · have := widenMagnitude_lt_infinity hm
        omega
      · have hinfinity : widenMagnitude m = 2047 * 2 ^ 52 := by
          rw [hm]
          rfl
        omega
      · rw [widenMagnitude_of_isNaN hm] at h
        omega

theorem widenMagnitude_lt_pow (m : Nat) : widenMagnitude m < 2 ^ 63
  := by
  rcases Nat.lt_trichotomy m (255 * 2 ^ 23) with hm | rfl | hm
  · have := widenMagnitude_lt_infinity hm
    omega
  · decide
  · rw [widenMagnitude_of_isNaN hm]
    omega

theorem toBinary64_toNat_mod (x : Binary32) :
  x.toBinary64.toNat % 2 ^ 63 = widenMagnitude x.magnitude
  := by
  have := widenMagnitude_lt_pow x.magnitude
  unfold toBinary64
  split
  · rw [BitVec.toNat_ofNat]
    omega
  · rw [BitVec.toNat_ofNat]
    omega

/-- Numbers which are the same as numbers of 64 bits have the same 22 last bits. -/
theorem toNat_mod_of_toBinary64_eq {x y : Binary32} (h : x.toBinary64 = y.toBinary64) :
  x.toNat % 2 ^ 22 = y.toNat % 2 ^ 22
  := by
  have hmagnitude : widenMagnitude x.magnitude = widenMagnitude y.magnitude := by
    rw [← toBinary64_toNat_mod, ← toBinary64_toNat_mod, h]
  have hmod := widenMagnitude_mod hmagnitude
  unfold magnitude at hmod
  omega

end Binary32

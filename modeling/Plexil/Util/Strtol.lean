import Mathlib.Data.List.Induction
import Mathlib.Data.List.TakeWhile
import Mathlib.Tactic.IntervalCases
import Mathlib.Tactic.Ring

/-!
# Reading integers

`strtol s base` reads an integer at the beginning of a text, as the function of the C library
does where a `long` has 64 bits: white space, a sign, and digits.  In base 0 the digits tell the
base: they are hexadecimal behind `0x`, octal behind `0`, and decimal otherwise.

The digits of an octal numeral can be read as a decimal one as well.  The two numbers are equal
only for a single digit, even when they are compared as integers of 32 bits.
-/

namespace Strtol

/-! ### Digits -/

def isSpace (c : Char) : Bool :=
  c = ' ' || c = '\t' || c = '\n' || c = '\x0b' || c = '\x0c' || c = '\r'

/-- The value of a digit or a letter, and 36 for other characters. -/
def digitValue (c : Char) : Nat :=
  if '0' ≤ c ∧ c ≤ '9' then c.toNat - '0'.toNat
  else if 'a' ≤ c ∧ c ≤ 'z' then c.toNat - 'a'.toNat + 10
  else if 'A' ≤ c ∧ c ≤ 'Z' then c.toNat - 'A'.toNat + 10
  else 36

def isDigit (base : Nat) (c : Char) : Bool := digitValue c < base

/-- The number with the digits. -/
def value (base : Nat) (digits : List Char) : Nat :=
  digits.foldl (fun n c => n * base + digitValue c) 0

/-! ### Numbers -/

def splitSign : List Char → Bool × List Char
  | '-' :: s => (true, s)
  | '+' :: s => (false, s)
  | s => (false, s)

/-- What is behind a `0x` which is followed by a hexadecimal digit. -/
def hexadecimal : List Char → Option (List Char)
  | '0' :: x :: c :: s => if (x = 'x' || x = 'X') && isDigit 16 c then some (c :: s) else none
  | _ => none

/-- The base in which the digits are read, and the text from the first digit on. -/
def chooseBase (base : Nat) (s : List Char) : Nat × List Char :=
  if base = 0 then
    match hexadecimal s with
    | some t => (16, t)
    | none => if s.head? = some '0' then (8, s) else (10, s)
  else if base = 16 then (16, (hexadecimal s).getD s)
  else (base, s)

/-- What has been read, and the text behind it. -/
structure Reading where
  value : Int
  ends : List Char
  outOfRange : Bool
  deriving DecidableEq

def signed (negative : Bool) (n : Nat) : Int := if negative then -n else n

/-- A number outside the range is replaced by the nearest one of the range. -/
def clamp (n : Int) (ends : List Char) : Reading :=
  if n < -2 ^ 63 then ⟨-2 ^ 63, ends, true⟩
  else if 2 ^ 63 ≤ n then ⟨2 ^ 63 - 1, ends, true⟩
  else ⟨n, ends, false⟩

/-- Nothing is read when there is no digit: `ends` is then the whole text. -/
def strtol (s : List Char) (base : Nat) : Reading :=
  let (negative, t) := splitSign (s.dropWhile isSpace)
  let (base, t) := chooseBase base t
  let digits := t.takeWhile (isDigit base)
  if digits = [] then ⟨0, s, false⟩
  else clamp (signed negative (value base digits)) (t.dropWhile (isDigit base))

/-! ### Readings -/

theorem clamp_of_inRange {n : Int} (h : -2 ^ 63 ≤ n) (h' : n < 2 ^ 63) (ends : List Char) :
  clamp n ends = ⟨n, ends, false⟩
  := by
  unfold clamp
  rw [if_neg (by omega), if_neg (by omega)]

theorem chooseBase_ten (s : List Char) : chooseBase 10 s = (10, s) := rfl

@[simp] theorem clamp_ends (n : Int) (ends : List Char) : (clamp n ends).ends = ends
  := by
  unfold clamp
  split_ifs <;> rfl

theorem clamp_value {n : Int} {ends : List Char} (h : (clamp n ends).outOfRange = false) :
  (clamp n ends).value = n
  := by
  unfold clamp at h ⊢
  split_ifs at h ⊢
  rfl

/-- The reading of digits. -/
theorem strtol_eq {s : List Char} {base : Nat} {negative : Bool} {t : List Char}
    (hsign : splitSign (s.dropWhile isSpace) = (negative, t)) {b : Nat} {u : List Char}
    (hbase : chooseBase base t = (b, u)) :
  strtol s base = if u.takeWhile (isDigit b) = [] then ⟨0, s, false⟩
    else clamp (signed negative (value b (u.takeWhile (isDigit b)))) (u.dropWhile (isDigit b))
  := by
  unfold strtol
  rw [hsign]
  dsimp only
  rw [hbase]

theorem dropWhile_eq_nil {p : Char → Bool} {s : List Char} (h : s.dropWhile p = []) :
  s.takeWhile p = s ∧ ∀ c ∈ s, p c = true
  := by
  rw [List.dropWhile_eq_nil_iff] at h
  exact ⟨List.takeWhile_eq_self_iff.mpr h, h⟩

/-- A text which is read to its end consists of digits, behind the sign and the prefix. -/
theorem strtol_toEnd {s : List Char} {base : Nat} {negative : Bool} {t : List Char}
    (hsign : splitSign (s.dropWhile isSpace) = (negative, t)) {b : Nat} {u : List Char}
    (hbase : chooseBase base t = (b, u)) (hs : s ≠ []) (hends : (strtol s base).ends = [])
    (hrange : (strtol s base).outOfRange = false) :
  u ≠ [] ∧ (∀ c ∈ u, isDigit b c = true) ∧
    (strtol s base).value = signed negative (value b u)
  := by
  rw [strtol_eq hsign hbase] at hends hrange ⊢
  split at hends
  · contradiction
  · rename_i hdigits
    rw [if_neg hdigits] at hrange ⊢
    rw [clamp_ends] at hends
    obtain ⟨htake, hall⟩ := dropWhile_eq_nil hends
    rw [htake] at hdigits hrange ⊢
    exact ⟨hdigits, hall, clamp_value hrange⟩

/-- A text which is a number in base 10. -/
theorem strtol_ten {s : List Char} {negative : Bool} {t : List Char}
    (hsign : splitSign (s.dropWhile isSpace) = (negative, t)) (ht : t ≠ [])
    (hdigits : ∀ c ∈ t, isDigit 10 c = true) :
  strtol s 10 = clamp (signed negative (value 10 t)) []
  := by
  rw [strtol_eq hsign (chooseBase_ten t), List.takeWhile_eq_self_iff.mpr hdigits, if_neg ht,
    List.dropWhile_eq_nil_iff.mpr hdigits]

theorem isDigit_ten_x {x : Char} (hx : x = 'x' ∨ x = 'X') : isDigit 10 x = false
  := by
  rcases hx with rfl | rfl <;> decide

/-- Only the zero of a hexadecimal prefix is read in base 10. -/
theorem strtol_ten_of_hexadecimal {s : List Char} {negative : Bool} {t hex : List Char}
    (hsign : splitSign (s.dropWhile isSpace) = (negative, t)) (ht : hexadecimal t = some hex) :
  (strtol s 10).value = 0
  := by
  unfold hexadecimal at ht
  split at ht
  · rename_i x c rest
    split at ht
    · rename_i hx
      rw [Bool.and_eq_true, Bool.or_eq_true, decide_eq_true_eq, decide_eq_true_eq] at hx
      have htake : ('0' :: x :: c :: rest).takeWhile (isDigit 10) = ['0'] := by
        rw [List.takeWhile_cons_of_pos (by decide), List.takeWhile_cons_of_neg]
        rw [isDigit_ten_x hx.1]
        decide
      rw [strtol_eq hsign (chooseBase_ten _), htake, if_neg (by simp), clamp_value]
      · cases negative <;> rfl
      · rw [clamp_of_inRange] <;> cases negative <;> decide
    · contradiction
  · contradiction

/-! ### Values of digits -/

theorem value_append (base : Nat) (digits : List Char) (c : Char) :
  value base (digits ++ [c]) = value base digits * base + digitValue c
  := by
  unfold value
  rw [List.foldl_append]
  rfl

theorem isDigit_mono {base base' : Nat} (h : base ≤ base') {c : Char}
    (hc : isDigit base c = true) :
  isDigit base' c = true
  := by
  unfold isDigit at hc ⊢
  rw [decide_eq_true_eq] at hc ⊢
  exact hc.trans_le h

theorem digitValue_eq_zero {c : Char} : digitValue c = 0 ↔ c = '0'
  := by
  constructor
  · intro h
    unfold digitValue at h
    split at h
    · rename_i hc
      have hle : '0'.toNat ≤ c.toNat := hc.1
      apply Char.ext
      apply UInt32.toNat.inj
      exact Nat.le_antisymm (Nat.sub_eq_zero_iff_le.mp h) hle
    · split at h
      · omega
      · split at h
        · omega
        · contradiction
  · rintro rfl
    rfl

/-- A value is zero when all digits are. -/
theorem value_eq_zero {base : Nat} (hbase : 0 < base) {digits : List Char} :
  value base digits = 0 ↔ ∀ c ∈ digits, c = '0'
  := by
  induction digits using List.reverseRecOn with
  | nil => simp [value]
  | append_singleton digits c ih =>
    rw [value_append, Nat.add_eq_zero_iff, Nat.mul_eq_zero, ih, digitValue_eq_zero]
    constructor
    · rintro ⟨h | h, rfl⟩
      · intro d hd
        rcases List.mem_append.mp hd with hd | hd
        · exact h d hd
        · exact List.mem_singleton.mp hd
      · omega
    · intro h
      refine ⟨.inl fun d hd => h d (List.mem_append_left _ hd), ?_⟩
      apply h c
      simp

/-! ### Octal digits as decimal ones -/

/-- The number whose decimal digits are the octal digits of a number. -/
def decimalReading (n : Nat) : Nat :=
  if h : n = 0 then 0 else n % 8 + 10 * decimalReading (n / 8)
  termination_by n
  decreasing_by omega

theorem decimalReading_zero : decimalReading 0 = 0
  := by
  rw [decimalReading, dif_pos rfl]

theorem decimalReading_step (n : Nat) {d : Nat} (hd : d < 8) :
  decimalReading (n * 8 + d) = decimalReading n * 10 + d
  := by
  by_cases h : n * 8 + d = 0
  · obtain ⟨rfl, rfl⟩ : n = 0 ∧ d = 0 := by omega
    rw [Nat.zero_mul, decimalReading_zero]
  · have hmod : (n * 8 + d) % 8 = d := by omega
    have hdiv : (n * 8 + d) / 8 = n := by omega
    rw [decimalReading, dif_neg h, hmod, hdiv]
    omega

theorem decimalReading_of_lt_eight {d : Nat} (hd : d < 8) : decimalReading d = d
  := by
  have h := decimalReading_step 0 hd
  rw [Nat.zero_mul, Nat.zero_add, decimalReading_zero] at h
  omega

/-- The last digit taken off. -/
theorem decimalReading_eq (n : Nat) :
  decimalReading n = decimalReading (n / 8) * 10 + n % 8
  := by
  rw [← decimalReading_step _ (Nat.mod_lt n (by decide : 0 < 8)), Nat.div_add_mod']

theorem value_ten {digits : List Char} (h : ∀ c ∈ digits, isDigit 8 c = true) :
  value 10 digits = decimalReading (value 8 digits)
  := by
  induction digits using List.reverseRecOn with
  | nil => exact decimalReading_zero.symm
  | append_singleton digits c ih =>
    have hc : digitValue c < 8 := by
      simpa [isDigit] using h c (by simp)
    rw [value_append, value_append, decimalReading_step _ hc,
      ih fun d hd => h d (List.mem_append_left _ hd)]

/-- Octal digits are below eight when there are only zeros in front of the last one. -/
theorem value_lt_eight {digits : List Char} (h : ∀ c ∈ digits, isDigit 8 c = true) :
  value 8 digits < 8 ↔ ∀ c ∈ digits.dropLast, c = '0'
  := by
  induction digits using List.reverseRecOn with
  | nil => simp [value]
  | append_singleton digits c ih =>
    have hc : digitValue c < 8 := by
      simpa [isDigit] using h c (by simp)
    rw [List.dropLast_concat, ← value_eq_zero (by decide : 0 < 8), value_append]
    omega

theorem le_decimalReading (n : Nat) : n ≤ decimalReading n
  := by
  induction n using Nat.strong_induction_on with
  | _ n ih =>
    by_cases h : n = 0
    · omega
    · rw [decimalReading_eq]
      have := ih (n / 8) (by omega)
      omega

/-- The readings of numbers with one more digit. -/
theorem decimalReading_le_step {bound excess : Nat}
    (h : ∀ n < bound, decimalReading n ≤ n + excess) :
  ∀ n < 8 * bound, decimalReading n ≤ n + (10 * excess + 2 * (bound - 1))
  := by
  intro n hn
  rw [decimalReading_eq]
  have := h (n / 8) (by omega)
  omega

/-- The readings of numbers with eight digits. -/
theorem decimalReading_le {n : Nat} (h : n < 16777216) : decimalReading n ≤ n + 61000562
  := by
  have h0 : ∀ n < 1, decimalReading n ≤ n + 0 := by
    intro n hn
    obtain rfl : n = 0 := by omega
    rw [decimalReading_zero]
  have h4 := decimalReading_le_step (decimalReading_le_step (decimalReading_le_step
    (decimalReading_le_step h0)))
  have h8 := decimalReading_le_step (decimalReading_le_step (decimalReading_le_step
    (decimalReading_le_step h4)))
  exact h8 n h

/-- The readings of the digits in front of the last eight ones. -/
theorem decimalReading_split (h : Nat) (k : Nat) {l : Nat} (hl : l < 8 ^ k) :
  decimalReading (h * 8 ^ k + l) = decimalReading h * 10 ^ k + decimalReading l
  := by
  induction k generalizing l with
  | zero =>
    obtain rfl : l = 0 := by omega
    simp [decimalReading_zero]
  | succ k ih =>
    have hmod := Nat.mod_lt l (by decide : 0 < 8)
    have hlow : l / 8 < 8 ^ k := by
      rw [pow_succ] at hl
      omega
    have hleft : h * 8 ^ (k + 1) + l = (h * 8 ^ k + l / 8) * 8 + l % 8 := by
      calc h * 8 ^ (k + 1) + l
          = h * 8 ^ k * 8 + (l / 8 * 8 + l % 8) := by rw [Nat.div_add_mod', pow_succ, mul_assoc]
        _ = (h * 8 ^ k + l / 8) * 8 + l % 8 := by ring
    rw [hleft, decimalReading_step _ hmod, ih hlow, decimalReading_eq l]
    ring

/-- The difference of the two readings of three digits in front of eight others, whose own
difference is `e`. -/
theorem no_multiple {a b c e k : Nat} (ha : a < 2) (hb : b < 8) (hc : c < 8) (he : e ≤ 61000562)
    (h : a * 8926258176 + b * 865782272 + c * 83222784 + e = 4294967296 * k) :
  k = 0
  := by
  have hk : k ≤ 4 := by omega
  interval_cases k <;> interval_cases a <;> interval_cases b <;> omega

/-- The difference of the two readings of at most eleven digits is no multiple of `2 ^ 32`
other than zero. -/
theorem decimalReading_of_modEq {n k : Nat} (hn : n < 2147483648)
    (h : decimalReading n = n + 4294967296 * k) :
  k = 0
  := by
  have hlow := decimalReading_le (Nat.mod_lt n (by decide : 0 < 16777216))
  have hlow' := le_decimalReading (n % 16777216)
  have hsplit := decimalReading_split (n / 16777216) 8
    (Nat.mod_lt n (by decide : 0 < 16777216))
  norm_num at hsplit
  rw [Nat.div_add_mod'] at hsplit
  have hhigh := decimalReading_eq (n / 16777216)
  have hmiddle := decimalReading_eq (n / 16777216 / 8)
  have hlast := decimalReading_eq (n / 16777216 / 8 / 8)
  have hzero : n / 16777216 / 8 / 8 / 8 = 0 := by omega
  rw [hzero, decimalReading_zero] at hlast
  apply @no_multiple (n / 16777216 / 8 / 8) (n / 16777216 / 8 % 8) (n / 16777216 % 8)
    (decimalReading (n % 16777216) - n % 16777216)
  all_goals omega

theorem exists_add_mul_of_bmod {n r : Nat} (hle : n ≤ r) (h : (r : Int).bmod 4294967296 = n) :
  ∃ k, r = n + 4294967296 * k
  := by
  have hdvd := Int.dvd_self_sub_bmod (x := r) (m := 4294967296)
  rw [h] at hdvd
  obtain ⟨k, hk⟩ := hdvd
  use k.toNat
  omega

/-- An octal number of 31 bits which is its decimal reading, as an integer of 32 bits, has a
single digit. -/
theorem lt_eight_of_decimalReading {n : Nat} (hn : n < 2147483648)
    (h : (decimalReading n : Int).bmod 4294967296 = n) :
  n < 8
  := by
  obtain ⟨k, hk⟩ := exists_add_mul_of_bmod (le_decimalReading n) h
  have hzero := decimalReading_of_modEq hn hk
  have hstep := decimalReading_eq n
  have hrest := le_decimalReading (n / 8)
  clear hn h
  omega

/-! ### Numerals -/

theorem digitValue_digitChar {d : Nat} (h : d < 10) :
  digitValue d.digitChar = d
  := by
  interval_cases d <;> rfl

theorem isDigit_toDigits (n : Nat) :
  ∀ c ∈ Nat.toDigits 10 n, isDigit 10 c = true
  := by
  induction n using Nat.strong_induction_on with
  | _ n ih =>
    rw [Nat.toDigits_eq_if (by decide)]
    split
    · rename_i hn
      simp [isDigit, digitValue_digitChar hn, hn]
    · rename_i hn
      have hlast : n % 10 < 10 := Nat.mod_lt n (by decide)
      rw [List.forall_mem_append]
      exact ⟨ih (n / 10) (by omega), by simp [isDigit, digitValue_digitChar hlast, hlast]⟩

theorem value_toDigits (n : Nat) :
  value 10 (Nat.toDigits 10 n) = n
  := by
  induction n using Nat.strong_induction_on with
  | _ n ih =>
    rw [Nat.toDigits_eq_if (by decide)]
    split
    · rename_i hn
      simp [value, digitValue_digitChar hn]
    · rename_i hn
      rw [value_append, ih (n / 10) (by omega), digitValue_digitChar (Nat.mod_lt n (by decide))]
      omega

/-- Only the numeral of 0 begins with 0. -/
theorem head_toDigits {n : Nat} (h : (Nat.toDigits 10 n).head? = some '0') :
  n = 0
  := by
  induction n using Nat.strong_induction_on with
  | _ n ih =>
    rw [Nat.toDigits_eq_if (by decide)] at h
    split at h
    · rename_i hn
      rw [List.head?_cons, Option.some.injEq, ← digitValue_eq_zero, digitValue_digitChar hn] at h
      exact h
    · rename_i hn
      have hhead : (Nat.toDigits 10 (n / 10)).head? = some '0' := by
        cases hdigits : Nat.toDigits 10 (n / 10) with
        | nil => exact absurd hdigits Nat.toDigits_ne_nil
        | cons c rest =>
          rw [hdigits] at h
          exact h
      have := ih (n / 10) (by omega) hhead
      omega

/-- The numeral of a number behind its sign. -/
def numeral (negative : Bool) (n : Nat) : List Char :=
  if negative then '-' :: Nat.toDigits 10 n else Nat.toDigits 10 n

/-- A digit is neither white space nor a sign. -/
theorem splitSign_digits {base : Nat} (hbase : base ≤ 36) {s : List Char}
    (h : ∀ c ∈ s, isDigit base c = true) :
  s.dropWhile isSpace = s ∧ splitSign s = (false, s)
  := by
  cases s with
  | nil => exact ⟨rfl, rfl⟩
  | cons c s =>
    have hc := isDigit_mono hbase (h c (by simp))
    have hspace : isSpace c = false := by
      by_contra hspace
      simp only [isSpace, Bool.not_eq_false, Bool.or_eq_true, decide_eq_true_eq] at hspace
      rcases hspace with ((((rfl | rfl) | rfl) | rfl) | rfl) | rfl <;> exact absurd hc (by decide)
    constructor
    · rw [List.dropWhile_cons_of_neg (by simp [hspace])]
    · have hminus : c ≠ '-' := by
        rintro rfl
        exact absurd hc (by decide)
      have hplus : c ≠ '+' := by
        rintro rfl
        exact absurd hc (by decide)
      simp [splitSign, hminus, hplus]

theorem splitSign_numeral (negative : Bool) (n : Nat) :
  (numeral negative n).dropWhile isSpace = numeral negative n ∧
    splitSign (numeral negative n) = (negative, Nat.toDigits 10 n)
  := by
  cases negative with
  | true => exact ⟨rfl, rfl⟩
  | false => exact splitSign_digits (by decide) (isDigit_toDigits n)

/-- A numeral is read in base 0 as in base 10, as there are no zeros in front. -/
theorem strtol_numeral (negative : Bool) {n : Nat} (h : n < 2 ^ 63) :
  strtol (numeral negative n) 0 = ⟨signed negative n, [], false⟩
  := by
  obtain ⟨hspace, hsplit⟩ := splitSign_numeral negative n
  have hsign : splitSign ((numeral negative n).dropWhile isSpace) =
      (negative, Nat.toDigits 10 n) := by rw [hspace, hsplit]
  have hrange : clamp (signed negative n) [] = ⟨signed negative n, [], false⟩ := by
    apply clamp_of_inRange <;> cases negative <;> simp [signed] <;> omega
  by_cases hzero : n = 0
  · subst hzero
    have hbase : chooseBase 0 (Nat.toDigits 10 0) = (8, ['0']) := rfl
    rw [strtol_eq hsign hbase]
    cases negative <;> rfl
  · have hhead : (Nat.toDigits 10 n).head? ≠ some '0' := fun h => hzero (head_toDigits h)
    have hhex : hexadecimal (Nat.toDigits 10 n) = none := by
      unfold hexadecimal
      split
      · rename_i x c rest hdigits
        rw [hdigits] at hhead
        exact absurd rfl hhead
      · rfl
    have hbase : chooseBase 0 (Nat.toDigits 10 n) = (10, Nat.toDigits 10 n) := by
      rw [chooseBase, if_pos rfl, hhex]
      exact if_neg hhead
    rw [strtol_eq hsign hbase, List.takeWhile_eq_self_iff.mpr (isDigit_toDigits n),
      if_neg Nat.toDigits_ne_nil, List.dropWhile_eq_nil_iff.mpr (isDigit_toDigits n),
      value_toDigits, hrange]

end Strtol

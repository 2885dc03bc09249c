import Plexil.Util.CheckedInt

/-!
# Time arithmetic

`timespec` and `timeval` with the operations of timespec-utils and timeval-utils.  The two
differ in the unit of the fraction only.  An operation has no result where an addition of
signed integers overflows.
-/

namespace Plexil.Utils

open CheckedInt

/-- The unit of the fraction: nanoseconds for `timespec`, microseconds for `timeval`. -/
inductive TimeUnit where
  | nsec
  | usec

/-- `ONE_BILLION` and `ONE_MILLION`. -/
def TimeUnit.perSecond : TimeUnit → Int
  | nsec => 1000000000
  | usec => 1000000

structure Time (u : TimeUnit) where
  sec : BitVec 64
  frac : BitVec 64

abbrev TimeSpec := Time .nsec

abbrev TimeVal := Time .usec

namespace Time

variable {u : TimeUnit}

def make (sec frac : Int) : Option (Time u) :=
  (word 64 sec).bind fun sec => (word 64 frac).map fun frac => ⟨sec, frac⟩

/-- The check for over- and underflow of the fraction. -/
def carry (t : Time u) : Option (Time u) :=
  if u.perSecond ≤ t.frac.toInt then make (t.sec.toInt + 1) (t.frac.toInt - u.perSecond)
  else
    (word 64 (t.frac.toInt + u.perSecond)).bind fun frac =>
      if frac.toInt ≤ 0 then make (t.sec.toInt - 1) (t.frac.toInt + u.perSecond)
      else some t

/-- The check that the signs are consistent. -/
def alignSigns (t : Time u) : Option (Time u) :=
  if 0 < t.sec.toInt ∧ t.frac.toInt < 0 then
    make (t.sec.toInt - 1) (t.frac.toInt + u.perSecond)
  else if t.sec.toInt < 0 ∧ 0 < t.frac.toInt then
    make (t.sec.toInt + 1) (t.frac.toInt - u.perSecond)
  else some t

def normalize (t : Time u) : Option (Time u) := t.carry.bind alignSigns

/-- `operator+`. -/
def add (a b : Time u) : Option (Time u) :=
  (make (a.sec.toInt + b.sec.toInt) (a.frac.toInt + b.frac.toInt)).bind normalize

/-- `operator-`. -/
def sub (a b : Time u) : Option (Time u) :=
  (make (a.sec.toInt - b.sec.toInt) (a.frac.toInt - b.frac.toInt)).bind normalize

/-- `operator<`. -/
def less (a b : Time u) : Bool :=
  a.sec.slt b.sec || (a.sec == b.sec && a.frac.slt b.frac)

end Time

def timespecNormalize : TimeSpec → Option TimeSpec := Time.normalize

def timevalNormalize : TimeVal → Option TimeVal := Time.normalize

/-! ### The time which is denoted -/

namespace Time

variable {u : TimeUnit} {t r : Time u}

/-- The time in units of the fraction. -/
def value (t : Time u) : Int := t.sec.toInt * u.perSecond + t.frac.toInt

/-- The fraction is below one second, and its sign is consistent with the seconds. -/
structure Normalised (t : Time u) : Prop where
  lower : -u.perSecond < t.frac.toInt
  upper : t.frac.toInt < u.perSecond
  positive : 0 < t.sec.toInt → 0 ≤ t.frac.toInt
  negative : t.sec.toInt < 0 → t.frac.toInt ≤ 0

/-- The normalised representation of the time `v`. -/
def Denotes (t : Time u) (v : Int) : Prop := t.Normalised ∧ t.value = v

theorem make_eq {sec frac : Int} (hsec : Fits 64 sec) (hfrac : Fits 64 frac) :
  ∃ t : Time u, make sec frac = some t ∧ t.sec.toInt = sec ∧ t.frac.toInt = frac
  := by
  refine ⟨⟨BitVec.ofInt 64 sec, BitVec.ofInt 64 frac⟩, ?_, ?_, ?_⟩
  · rw [make, word, if_pos hsec, word, if_pos hfrac]
    rfl
  · exact toInt_ofInt_of_fits (by decide) hsec
  · exact toInt_ofInt_of_fits (by decide) hfrac

theorem perSecond_bounds (u : TimeUnit) :
  0 < u.perSecond ∧ u.perSecond ≤ 1000000000
  := by
  cases u <;> decide

/-- A time which has a normalised representation. -/
theorem Denotes.bounds {v : Int} (h : r.Denotes v) :
  -(9223372036854775809 * u.perSecond) < v ∧ v < 9223372036854775808 * u.perSecond
  := by
  obtain ⟨⟨hlower, hupper, -, -⟩, rfl⟩ := h
  have hsec := fits_toInt r.sec
  unfold Fits at hsec
  unfold value
  cases u <;> simp only [TimeUnit.perSecond] at * <;> omega

/-- The normalised representation of a time is unique. -/
theorem Denotes.unique {v : Int} (ht : t.Denotes v) (hr : r.Denotes v) :
  t = r
  := by
  obtain ⟨tsec, tfrac⟩ := t
  obtain ⟨rsec, rfrac⟩ := r
  obtain ⟨⟨h1, h2, h3, h4⟩, rfl⟩ := ht
  obtain ⟨⟨h5, h6, h7, h8⟩, h⟩ := hr
  unfold value at h
  have hsec : tsec.toInt = rsec.toInt := by
    cases u <;> simp only [TimeUnit.perSecond] at * <;> omega
  have hfrac : tfrac.toInt = rfrac.toInt := by
    rw [hsec] at h
    exact (Int.add_left_cancel h).symm
  rw [BitVec.eq_of_toInt_eq hsec, BitVec.eq_of_toInt_eq hfrac]

theorem fits_iff (x : Int) :
  Fits 64 x ↔ -9223372036854775808 ≤ x ∧ x < 9223372036854775808
  := Iff.rfl

/-- A second is moved between the two parts. -/
theorem make_spec {k : Int} (hsec : Fits 64 (t.sec.toInt + k))
    (hfrac : Fits 64 (t.frac.toInt - k * u.perSecond)) :
  ∃ t' : Time u, make (t.sec.toInt + k) (t.frac.toInt - k * u.perSecond) = some t' ∧
    t'.value = t.value ∧ t'.sec.toInt = t.sec.toInt + k ∧
    t'.frac.toInt = t.frac.toInt - k * u.perSecond
  := by
  obtain ⟨t', hmake, hsec', hfrac'⟩ := make_eq (u := u) hsec hfrac
  refine ⟨t', hmake, ?_, hsec', hfrac'⟩
  unfold value
  rw [hsec', hfrac', Int.add_mul]
  omega

theorem carry_spec (hlower : -(2 * u.perSecond) < t.frac.toInt)
    (hupper : t.frac.toInt < 2 * u.perSecond) (hr : r.Denotes t.value) :
  ∃ t', t.carry = some t' ∧ t'.value = t.value ∧ -u.perSecond < t'.frac.toInt ∧
    t'.frac.toInt < u.perSecond
  := by
  have hunit := perSecond_bounds u
  have hbounds := hr.bounds
  have hsec := fits_toInt t.sec
  unfold value at hbounds
  rw [fits_iff] at hsec
  unfold carry
  split
  · rename_i hle
    have hsec' : Fits 64 (t.sec.toInt + 1) := by
      rw [fits_iff]
      cases u <;> simp only [TimeUnit.perSecond] at * <;> omega
    have hfrac' : Fits 64 (t.frac.toInt - 1 * u.perSecond) := by
      rw [fits_iff]
      omega
    obtain ⟨t', hmake, hvalue, -, hfrac⟩ := make_spec hsec' hfrac'
    rw [Int.one_mul] at hmake hfrac
    refine ⟨t', hmake, hvalue, ?_, ?_⟩ <;> omega
  · rename_i hlt
    have hshift : Fits 64 (t.frac.toInt + u.perSecond) := by
      rw [fits_iff]
      omega
    rw [word, if_pos hshift, Option.bind_some, toInt_ofInt_of_fits (by decide) hshift]
    split
    · rename_i hle
      have hsec' : Fits 64 (t.sec.toInt + -1) := by
        rw [fits_iff]
        cases u <;> simp only [TimeUnit.perSecond] at * <;> omega
      have hfrac' : Fits 64 (t.frac.toInt - -1 * u.perSecond) := by
        rw [fits_iff]
        omega
      obtain ⟨t', hmake, hvalue, -, hfrac⟩ := make_spec hsec' hfrac'
      have heq : t.frac.toInt - -1 * u.perSecond = t.frac.toInt + u.perSecond := by omega
      rw [heq] at hmake hfrac
      refine ⟨t', hmake, hvalue, ?_, ?_⟩ <;> omega
    · refine ⟨t, rfl, rfl, ?_, ?_⟩ <;> omega

theorem alignSigns_spec (hlower : -u.perSecond < t.frac.toInt)
    (hupper : t.frac.toInt < u.perSecond) :
  ∃ t', t.alignSigns = some t' ∧ t'.Denotes t.value
  := by
  have hunit := perSecond_bounds u
  have hsec := fits_toInt t.sec
  rw [fits_iff] at hsec
  unfold alignSigns
  split
  · rename_i hsigns
    have hsec' : Fits 64 (t.sec.toInt + -1) := by
      rw [fits_iff]
      omega
    have hfrac' : Fits 64 (t.frac.toInt - -1 * u.perSecond) := by
      rw [fits_iff]
      omega
    obtain ⟨t', hmake, hvalue, hs, hf⟩ := make_spec hsec' hfrac'
    have heq : t.frac.toInt - -1 * u.perSecond = t.frac.toInt + u.perSecond := by omega
    rw [heq] at hmake hf
    refine ⟨t', hmake, ⟨?_, ?_, ?_, ?_⟩, hvalue⟩ <;> omega
  · rename_i hsigns
    split
    · rename_i hsigns'
      have hsec' : Fits 64 (t.sec.toInt + 1) := by
        rw [fits_iff]
        omega
      have hfrac' : Fits 64 (t.frac.toInt - 1 * u.perSecond) := by
        rw [fits_iff]
        omega
      obtain ⟨t', hmake, hvalue, hs, hf⟩ := make_spec hsec' hfrac'
      rw [Int.one_mul] at hmake hf
      refine ⟨t', hmake, ⟨?_, ?_, ?_, ?_⟩, hvalue⟩ <;> omega
    · refine ⟨t, rfl, ⟨hlower, hupper, ?_, ?_⟩, rfl⟩ <;> omega

/-- Normalisation after an addition or subtraction of normalised times. -/
theorem normalize_spec (hlower : -(2 * u.perSecond) < t.frac.toInt)
    (hupper : t.frac.toInt < 2 * u.perSecond) (hr : r.Denotes t.value) :
  ∃ t', t.normalize = some t' ∧ t'.Denotes t.value
  := by
  obtain ⟨t₁, hcarry, hvalue, hlower₁, hupper₁⟩ := carry_spec hlower hupper hr
  obtain ⟨t₂, halign, hdenotes⟩ := alignSigns_spec hlower₁ hupper₁
  rw [hvalue] at hdenotes
  refine ⟨t₂, ?_, hdenotes⟩
  rw [normalize, hcarry]
  exact halign

variable {a b : Time u}

/-- The sum of two normalised times, if it is a time. -/
theorem add_spec (ha : a.Normalised) (hb : b.Normalised) (hr : r.Denotes (a.value + b.value)) :
  add a b = some r
  := by
  have hunit := perSecond_bounds u
  have hbounds := hr.bounds
  obtain ⟨ha₁, ha₂, ha₃, ha₄⟩ := ha
  obtain ⟨hb₁, hb₂, hb₃, hb₄⟩ := hb
  have hsecA := fits_toInt a.sec
  have hsecB := fits_toInt b.sec
  unfold value at hbounds
  rw [fits_iff] at hsecA hsecB
  have hsec : Fits 64 (a.sec.toInt + b.sec.toInt) := by
    rw [fits_iff]
    cases u <;> simp only [TimeUnit.perSecond] at * <;> omega
  have hfrac : Fits 64 (a.frac.toInt + b.frac.toInt) := by
    rw [fits_iff]
    omega
  obtain ⟨t, hmake, hs, hf⟩ := make_eq (u := u) hsec hfrac
  have hvalue : t.value = a.value + b.value := by
    unfold value
    rw [hs, hf, Int.add_mul]
    omega
  rw [← hvalue] at hr
  obtain ⟨t', hnormalize, ht'⟩ : ∃ t', t.normalize = some t' ∧ t'.Denotes t.value := by
    apply normalize_spec _ _ hr <;> omega
  rw [add, hmake, Option.bind_some, hnormalize, ht'.unique hr]

/-- The one case in which the difference of the seconds overflows although the difference
of the times is a time. -/
def BorrowsFromLowest (a b : Time u) : Prop :=
  a.sec.toInt = 0 ∧ b.sec.toInt = -9223372036854775808 ∧ a.frac.toInt < b.frac.toInt

instance (a b : Time u) : Decidable (BorrowsFromLowest a b) :=
  inferInstanceAs (Decidable (_ ∧ _ ∧ _))

theorem sub_spec (ha : a.Normalised) (hb : b.Normalised) (hr : r.Denotes (a.value - b.value))
    (hnot : ¬ BorrowsFromLowest a b) :
  sub a b = some r
  := by
  have hunit := perSecond_bounds u
  have hbounds := hr.bounds
  obtain ⟨ha₁, ha₂, ha₃, ha₄⟩ := ha
  obtain ⟨hb₁, hb₂, hb₃, hb₄⟩ := hb
  have hsecA := fits_toInt a.sec
  have hsecB := fits_toInt b.sec
  unfold value at hbounds
  unfold BorrowsFromLowest at hnot
  rw [fits_iff] at hsecA hsecB
  have hsec : Fits 64 (a.sec.toInt - b.sec.toInt) := by
    rw [fits_iff]
    cases u <;> simp only [TimeUnit.perSecond] at * <;> omega
  have hfrac : Fits 64 (a.frac.toInt - b.frac.toInt) := by
    rw [fits_iff]
    omega
  obtain ⟨t, hmake, hs, hf⟩ := make_eq (u := u) hsec hfrac
  have hvalue : t.value = a.value - b.value := by
    unfold value
    rw [hs, hf, Int.sub_mul]
    omega
  rw [← hvalue] at hr
  obtain ⟨t', hnormalize, ht'⟩ : ∃ t', t.normalize = some t' ∧ t'.Denotes t.value := by
    apply normalize_spec _ _ hr <;> omega
  rw [sub, hmake, Option.bind_some, hnormalize, ht'.unique hr]

/-- There the exact difference is a time, but the subtraction overflows. -/
theorem sub_eq_none (ha : a.Normalised) (hb : b.Normalised) (h : BorrowsFromLowest a b) :
  sub a b = none ∧ ∃ r : Time u, r.Denotes (a.value - b.value)
  := by
  have hunit := perSecond_bounds u
  obtain ⟨hsecA, hsecB, hlt⟩ := h
  constructor
  · have hfits : ¬ Fits 64 (a.sec.toInt - b.sec.toInt) := by
      rw [fits_iff]
      omega
    rw [sub, make, word, if_neg hfits]
    rfl
  · have hlower := ha.lower
    have hnonpos : b.frac.toInt ≤ 0 := by
      apply hb.negative
      omega
    have hsec : Fits 64 9223372036854775807 := by decide
    have hfrac : Fits 64 (u.perSecond + (a.frac.toInt - b.frac.toInt)) := by
      rw [fits_iff]
      omega
    obtain ⟨r, -, hs, hf⟩ := make_eq (u := u) hsec hfrac
    refine ⟨r, ⟨?_, ?_, ?_, ?_⟩, ?_⟩
    · omega
    · omega
    · omega
    · omega
    · unfold value
      rw [hs, hf, hsecA, hsecB]
      omega

theorem less_iff (ha : a.Normalised) (hb : b.Normalised) :
  less a b = true ↔ a.value < b.value
  := by
  obtain ⟨ha₁, ha₂, ha₃, ha₄⟩ := ha
  obtain ⟨hb₁, hb₂, hb₃, hb₄⟩ := hb
  have hless : less a b = true ↔ a.sec.toInt < b.sec.toInt ∨
      a.sec.toInt = b.sec.toInt ∧ a.frac.toInt < b.frac.toInt := by
    unfold less
    rw [Bool.or_eq_true, Bool.and_eq_true, BitVec.slt_iff_toInt_lt, BitVec.slt_iff_toInt_lt,
      beq_iff_eq, BitVec.toInt_inj]
  rw [hless]
  unfold value
  cases u <;> simp only [TimeUnit.perSecond] at * <;> omega

/-! ### The laws -/

/-- What holds of the arithmetic at two times. -/
structure Exact (a b : Time u) : Prop where
  add : ∀ r : Time u, r.Denotes (a.value + b.value) → Time.add a b = some r
  sub : ∀ r : Time u, r.Denotes (a.value - b.value) → Time.sub a b = some r
  less : Time.less a b = true ↔ a.value < b.value

/-- The arithmetic of normalised times is exact but for the one case. -/
theorem timeArithmetic_exact_iff (a b : { t : Time u // t.Normalised }) :
  Exact a.val b.val ↔ ¬ BorrowsFromLowest a.val b.val
  := by
  constructor
  · intro h hborrows
    obtain ⟨hnone, r, hr⟩ := sub_eq_none a.property b.property hborrows
    have hsub := h.sub r hr
    rw [hnone] at hsub
    cases hsub
  · intro hnot
    refine ⟨?_, ?_, less_iff a.property b.property⟩
    · intro r hr
      exact add_spec a.property b.property hr
    · intro r hr
      exact sub_spec a.property b.property hr hnot

/-- The difference of five nanoseconds before zero and the lowest time is not computed. -/
theorem not_timeArithmetic_exact :
  ¬ Exact (⟨0, BitVec.ofInt 64 (-5)⟩ : TimeSpec) ⟨BitVec.ofInt 64 (-9223372036854775808), 0⟩
  := by
  intro h
  obtain ⟨hnone, r, hr⟩ := sub_eq_none (u := .nsec) (a := ⟨0, BitVec.ofInt 64 (-5)⟩)
    (b := ⟨BitVec.ofInt 64 (-9223372036854775808), 0⟩) (by constructor <;> decide)
    (by constructor <;> decide) (by decide)
  have hsub := h.sub r hr
  rw [hnone] at hsub
  cases hsub

end Time

end Plexil.Utils

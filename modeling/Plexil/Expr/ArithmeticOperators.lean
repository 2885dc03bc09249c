import Plexil.Expr.Function
import Plexil.Util.CheckedInt
import Plexil.Value.ValueType
import Mathlib.Algebra.BigOperators.Group.List.Basic

/-!
# Integer arithmetic

The arithmetic operators on `Integer`s.  The value of an argument is `none` when it is
unknown.  The source does not check for overflow, which is undefined for a signed type: an
operation whose result does not fit, and a division whose quotient does not fit, has no
value here, and neither has a call which ends in a plan error.  So a value of an operator
is `none`, or `some none` for unknown, or a known `Integer`.
-/

namespace Plexil

open CheckedInt

namespace Integer

/-! ### The operations of the language -/

def add (a b : Integer) : Option Integer := word 32 (a.toInt + b.toInt)

def sub (a b : Integer) : Option Integer := word 32 (a.toInt - b.toInt)

def mul (a b : Integer) : Option Integer := word 32 (a.toInt * b.toInt)

def neg (a : Integer) : Option Integer := word 32 (-a.toInt)

/-- The quotient, which is truncated towards 0. -/
def div (a b : Integer) : Option Integer :=
  if b = 0 then none else word 32 (a.toInt.tdiv b.toInt)

/-- The remainder; it is undefined when the quotient is. -/
def mod (a b : Integer) : Option Integer :=
  (div a b).bind fun _ => word 32 (a.toInt.tmod b.toInt)

/-- The least `Integer`. -/
def least : Integer := BitVec.intMin 32

end Integer

/-! ### The operators -/

/-- A known value, or none if the operation has none. -/
def known (value : Option Integer) : Option (Option Integer) := value.map some

/-- The loop over the arguments, which stops at one which is unknown. -/
def accumulate (op : Integer → Integer → Option Integer) :
    List (Option Integer) → Integer → Option (Option Integer)
  | [], workingResult => some (some workingResult)
  | none :: _, _ => some none
  | some temp :: args, workingResult => (op workingResult temp).bind (accumulate op args)

/-- An operation on two arguments, unknown if one of them is. -/
def onTwo (op : Integer → Integer → Option (Option Integer)) :
    Option Integer → Option Integer → Option (Option Integer)
  | some temp0, some temp1 => op temp0 temp1
  | _, _ => some none

abbrev ArithmeticOperator := Operator (Option Integer) (Option (Option Integer))

def addition : ArithmeticOperator where
  name := "ADD"
  checkArgCount _ := true
  calcOne arg := some arg
  calcTwo := onTwo fun temp0 temp1 => known (temp0.add temp1)
  calcMany args := accumulate Integer.add args 0

def subtraction : ArithmeticOperator where
  name := "SUB"
  checkArgCount count := count ≥ 1
  calcOne
    | none => some none
    | some temp => known temp.neg
  calcTwo := onTwo fun temp0 temp1 => known (temp0.sub temp1)
  calcMany
    -- A plan error.
    | [] => none
    | none :: _ => some none
    | [some temp] => known temp.neg
    | some temp :: args => accumulate Integer.sub args temp

def multiplication : ArithmeticOperator where
  name := "MUL"
  checkArgCount count := count > 0
  calcOne arg := some arg
  calcTwo := onTwo fun temp0 temp1 => known (temp0.mul temp1)
  calcMany
    | [] => none
    | none :: _ => some none
    | some workingResult :: args => accumulate Integer.mul args workingResult

def division : ArithmeticOperator where
  name := "DIV"
  checkArgCount count := count == 2
  calcOne _ := none
  calcTwo := onTwo fun temp0 temp1 => if temp1 = 0 then some none else known (temp0.div temp1)
  calcMany _ := none

def modulo : ArithmeticOperator where
  name := "MOD"
  checkArgCount count := count == 2
  calcOne _ := none
  calcTwo := onTwo fun temp0 temp1 => if temp1 = 0 then some none else known (temp0.mod temp1)
  calcMany _ := none

def absoluteValue : ArithmeticOperator where
  name := "ABS"
  checkArgCount count := count == 1
  calcOne
    | none => some none
    | some temp => if temp.slt 0 then known temp.neg else some (some temp)
  calcTwo _ _ := none
  calcMany _ := none

/-! ### What the operators are meant to compute -/

inductive Arithmetic where
  | add | sub | mul | div | mod | abs

namespace Arithmetic

def operator : Arithmetic → ArithmeticOperator
  | add => addition
  | sub => subtraction
  | mul => multiplication
  | div => division
  | mod => modulo
  | abs => absoluteValue

/-- The mathematical result of an operator, if there is one. -/
def exact : Arithmetic → List Int → Option Int
  | add, args => some args.sum
  | sub, [a] => some (-a)
  | sub, a :: args => some (a - args.sum)
  | mul, args => some args.prod
  | div, [a, b] => if b = 0 then none else some (a.tdiv b)
  | mod, [a, b] => if b = 0 then none else some (a.tmod b)
  | abs, [a] => some |a|
  | _, _ => none

/-- No partial sum, difference or product leaves the range of `Integer`, the least
`Integer` is not divided by -1, and it is neither negated nor its absolute value taken. -/
def NoOverflow : Arithmetic → List Integer → Prop
  | add, args => ∀ x ∈ (args.map BitVec.toInt).scanl (· + ·) 0, Fits 32 x
  | sub, [a] => a ≠ Integer.least
  | sub, a :: args => ∀ x ∈ (args.map BitVec.toInt).scanl (· - ·) a.toInt, Fits 32 x
  | mul, a :: args => ∀ x ∈ (args.map BitVec.toInt).scanl (· * ·) a.toInt, Fits 32 x
  | div, [a, b] => ¬ (a = Integer.least ∧ b = -1)
  | mod, [a, b] => ¬ (a = Integer.least ∧ b = -1)
  | abs, [a] => a ≠ Integer.least
  | _, _ => True

/-- The value of a function of known arguments is unknown or the mathematical result. -/
def ExactOrUnknown (op : Arithmetic) (args : List Integer) : Prop :=
  ∃ value, Function.getValue op.operator (args.map some) = some value ∧
    ∀ result, value = some result → op.exact (args.map BitVec.toInt) = some result.toInt

/-! ### Known arguments -/

/-- The loop over known arguments is a checked fold. -/
theorem accumulate_map_some {op : Integer → Integer → Option Integer} {f : Int → Int → Int}
    (hop : ∀ a b : Integer, op a b = word 32 (f a.toInt b.toInt))
    (args : List Integer) (workingResult : Integer) :
  accumulate op (args.map some) workingResult = known (fold f workingResult args)
  := by
  induction args generalizing workingResult with
  | nil => rfl
  | cons temp args ih =>
    rw [List.map_cons, accumulate, hop, fold_cons]
    cases word 32 (f workingResult.toInt temp.toInt) with
    | none => rfl
    | some workingResult => apply ih

theorem getValue_addition (args : List Integer) :
  Function.getValue addition (args.map some) = known (fold (· + ·) 0 args)
  := by
  obtain _ | ⟨a, _ | ⟨b, _ | ⟨c, args⟩⟩⟩ := args
  · rfl
  · simp [Function.getValue, addition, known]
  · have hzero : BitVec.toInt (0 : Integer) = 0 := rfl
    rw [fold_cons, hzero, zero_add, word_toInt, Option.bind_some, fold_singleton]
    rfl
  · exact accumulate_map_some (fun _ _ => rfl) (a :: b :: c :: args) 0

theorem getValue_subtraction (a b : Integer) (args : List Integer) :
  Function.getValue subtraction ((a :: b :: args).map some) = known (fold (· - ·) a (b :: args))
  := by
  obtain _ | ⟨c, args⟩ := args
  · rw [fold_singleton]
    rfl
  · exact accumulate_map_some (fun _ _ => rfl) (b :: c :: args) a

theorem getValue_multiplication (a : Integer) (args : List Integer) :
  Function.getValue multiplication ((a :: args).map some) = known (fold (· * ·) a args)
  := by
  obtain _ | ⟨b, _ | ⟨c, args⟩⟩ := args
  · rfl
  · rw [fold_singleton]
    rfl
  · exact accumulate_map_some (fun _ _ => rfl) (b :: c :: args) a

/-! ### The mathematical results -/

theorem foldl_sub (a : Int) (args : List Int) :
  args.foldl (· - ·) a = a - args.sum
  := by
  induction args generalizing a with
  | nil => simp
  | cons b args ih =>
    rw [List.foldl_cons, ih, List.sum_cons]
    omega

/-- An operation whose results are right is exact where it has a result. -/
theorem known_exact_iff {value : Option Integer} {x : Int}
    (h : ∀ v, value = some v → v.toInt = x) :
  (∃ r, known value = some r ∧ ∀ result, r = some result → some x = some result.toInt)
    ↔ value.isSome
  := by
  cases value with
  | none => simp [known]
  | some v => simp [known, h v rfl]

theorem fold_exact_iff (f : Int → Int → Int) (a : Integer) (args : List Integer) :
  (∃ r, known (fold f a args) = some r ∧
      ∀ result, r = some result →
        some ((args.map BitVec.toInt).foldl f a.toInt) = some result.toInt)
    ↔ ∀ x ∈ (args.map BitVec.toInt).scanl f a.toInt, Fits 32 x
  := by
  rw [← fold_isSome (by decide)]
  apply known_exact_iff
  intro v hv
  apply fold_eq_some (by decide) hv

theorem word_exact_iff (x : Int) :
  (∃ r, known (word 32 x) = some r ∧ ∀ result, r = some result → some x = some result.toInt)
    ↔ Fits 32 x
  := by
  rw [← word_isSome]
  apply known_exact_iff
  intro v hv
  apply word_eq_some (by decide) hv

/-! ### The least Integer -/

theorem eq_least_iff (a : Integer) :
  a = Integer.least ↔ a.toInt = -2 ^ 31
  := by
  rw [← BitVec.toInt_inj]
  rfl

theorem fits_neg_iff (a : Integer) :
  Fits 32 (-a.toInt) ↔ a ≠ Integer.least
  := by
  have ha := fits_toInt a
  rw [Ne, eq_least_iff]
  unfold Fits at *
  omega

theorem fits_tdiv_iff (a b : Integer) :
  Fits 32 (a.toInt.tdiv b.toInt) ↔ ¬ (a = Integer.least ∧ b = -1)
  := by
  have ha := fits_toInt a
  have hb : b = -1 ↔ b.toInt = -1 := by
    rw [← BitVec.toInt_inj]
    rfl
  rw [eq_least_iff, hb]
  generalize a.toInt = x at *
  generalize b.toInt = y at *
  have hle := Int.natAbs_tdiv_le_natAbs x y
  have hquot : (x.tdiv y).natAbs = x.natAbs / y.natAbs := Int.natAbs_tdiv x y
  unfold Fits at *
  constructor
  · rintro hfits ⟨rfl, rfl⟩
    simp at hfits
  · intro hne
    by_cases hx : x = -2 ^ 31
    · rcases le_or_gt 0 y with hy | hy
      · -- The quotient is not positive.
        have hnonpos : 0 ≤ (-x).tdiv y := Int.tdiv_nonneg (by omega) hy
        rw [Int.neg_tdiv] at hnonpos
        omega
      · -- The quotient is at most half of the dividend.
        have hhalf : x.natAbs / y.natAbs ≤ x.natAbs / 2 := Nat.div_le_div_left (by omega) (by decide)
        omega
    · omega

theorem toInt_ne_zero {b : Integer} (hb : b ≠ 0) :
  b.toInt ≠ 0
  := fun h => hb (BitVec.toInt_inj.mp h)

theorem fits_tmod (a : Integer) {b : Integer} (hb : b ≠ 0) :
  Fits 32 (a.toInt.tmod b.toInt)
  := by
  have ha := fits_toInt a
  have hfb := fits_toInt b
  have hpos := Int.natAbs_pos.mpr (toInt_ne_zero hb)
  have hlt : (a.toInt.tmod b.toInt).natAbs < b.toInt.natAbs := by
    rw [Int.natAbs_tmod]
    apply Nat.mod_lt _ hpos
  unfold Fits at *
  omega

/-! ### Exactness -/

theorem exactOrUnknown_add (args : List Integer) :
  add.ExactOrUnknown args ↔ add.NoOverflow args
  := by
  unfold ExactOrUnknown
  rw [operator, getValue_addition, exact, List.sum_eq_foldl]
  apply fold_exact_iff

theorem exactOrUnknown_neg (a : Integer) :
  sub.ExactOrUnknown [a] ↔ sub.NoOverflow [a]
  := by
  rw [NoOverflow, ← fits_neg_iff]
  apply word_exact_iff

theorem exactOrUnknown_sub (a b : Integer) (args : List Integer) :
  sub.ExactOrUnknown (a :: b :: args) ↔ sub.NoOverflow (a :: b :: args)
  := by
  unfold ExactOrUnknown
  rw [operator, getValue_subtraction, List.map_cons, List.map_cons, exact, ← foldl_sub]
  · apply fold_exact_iff
  · simp

theorem exactOrUnknown_mul (a : Integer) (args : List Integer) :
  mul.ExactOrUnknown (a :: args) ↔ mul.NoOverflow (a :: args)
  := by
  unfold ExactOrUnknown
  rw [operator, getValue_multiplication, exact, List.prod_eq_foldl, List.map_cons,
    List.foldl_cons, one_mul]
  apply fold_exact_iff

/-- A quotient or a remainder by 0 is unknown. -/
theorem exactOrUnknown_of_zero {op : Arithmetic} (hop : op = div ∨ op = mod) (a : Integer) :
  op.ExactOrUnknown [a, 0]
  := by
  use none
  refine ⟨?_, by simp⟩
  obtain rfl | rfl := hop <;> rfl

theorem exactOrUnknown_div (a b : Integer) :
  div.ExactOrUnknown [a, b] ↔ div.NoOverflow [a, b]
  := by
  rcases eq_or_ne b 0 with rfl | hb
  · apply iff_of_true (exactOrUnknown_of_zero (.inl rfl) a)
    simp [NoOverflow]
  · have hvalue : Function.getValue division ([a, b].map some)
        = known (word 32 (a.toInt.tdiv b.toInt)) := by
      show (if b = 0 then some none else known (a.div b)) = _
      rw [if_neg hb, Integer.div, if_neg hb]
    have hexact : div.exact ([a, b].map BitVec.toInt) = some (a.toInt.tdiv b.toInt) :=
      if_neg (toInt_ne_zero hb)
    unfold ExactOrUnknown
    rw [operator, hvalue, hexact, NoOverflow, ← fits_tdiv_iff]
    apply word_exact_iff

theorem exactOrUnknown_mod (a b : Integer) :
  mod.ExactOrUnknown [a, b] ↔ mod.NoOverflow [a, b]
  := by
  rcases eq_or_ne b 0 with rfl | hb
  · apply iff_of_true (exactOrUnknown_of_zero (.inr rfl) a)
    simp [NoOverflow]
  · have hvalue : Function.getValue modulo ([a, b].map some) = known (a.mod b) := if_neg hb
    have hexact : mod.exact ([a, b].map BitVec.toInt) = some (a.toInt.tmod b.toInt) :=
      if_neg (toInt_ne_zero hb)
    have hmod : ∀ v, a.mod b = some v → v.toInt = a.toInt.tmod b.toInt := by
      intro v hv
      obtain ⟨-, -, hv⟩ := Option.bind_eq_some_iff.mp hv
      apply word_eq_some (by decide) hv
    have hsome : (a.mod b).isSome ↔ Fits 32 (a.toInt.tdiv b.toInt) := by
      rw [Integer.mod, Integer.div, if_neg hb, ← word_isSome]
      cases word 32 (a.toInt.tdiv b.toInt) with
      | none => rfl
      | some _ => exact iff_of_true (word_isSome.mpr (fits_tmod a hb)) rfl
    unfold ExactOrUnknown
    rw [operator, hvalue, hexact, NoOverflow, ← fits_tdiv_iff, ← hsome]
    apply known_exact_iff hmod

theorem exactOrUnknown_abs (a : Integer) :
  abs.ExactOrUnknown [a] ↔ abs.NoOverflow [a]
  := by
  unfold ExactOrUnknown
  rw [NoOverflow, operator]
  by_cases hneg : a.toInt < 0
  · have hvalue : Function.getValue absoluteValue ([a].map some)
        = known (word 32 (-a.toInt)) := by
      simp [Function.getValue, absoluteValue, BitVec.slt, hneg, Integer.neg]
    have hexact : abs.exact ([a].map BitVec.toInt) = some (-a.toInt) :=
      congrArg some (abs_of_neg hneg)
    rw [hvalue, hexact, ← fits_neg_iff]
    apply word_exact_iff
  · have hvalue : Function.getValue absoluteValue ([a].map some) = some (some a) := by
      simp [Function.getValue, absoluteValue, BitVec.slt, hneg]
    apply iff_of_true
    · use some a, hvalue
      rintro result ⟨⟩
      exact congrArg some (abs_of_nonneg (by omega))
    · rw [Ne, eq_least_iff]
      omega

/-- An operator on an admitted number of known arguments gives unknown or the mathematical
result exactly when nothing overflows. -/
theorem exactOrUnknown_iff (op : Arithmetic) {args : List Integer}
    (hcount : op.operator.checkArgCount args.length = true) :
  op.ExactOrUnknown args ↔ op.NoOverflow args
  := by
  cases op with
  | add => apply exactOrUnknown_add
  | sub =>
    obtain _ | ⟨a, _ | ⟨b, args⟩⟩ := args
    · cases hcount
    · apply exactOrUnknown_neg
    · apply exactOrUnknown_sub
  | mul =>
    obtain _ | ⟨a, args⟩ := args
    · cases hcount
    · apply exactOrUnknown_mul
  | div =>
    obtain ⟨a, b, rfl⟩ := List.length_eq_two.mp (beq_iff_eq.mp hcount)
    apply exactOrUnknown_div
  | mod =>
    obtain ⟨a, b, rfl⟩ := List.length_eq_two.mp (beq_iff_eq.mp hcount)
    apply exactOrUnknown_mod
  | abs =>
    obtain ⟨a, rfl⟩ := List.length_eq_one_iff.mp (beq_iff_eq.mp hcount)
    apply exactOrUnknown_abs

/-- The quotient of 7 by 2 is exact. -/
theorem div_seven_two_exact :
  div.operator.checkArgCount 2 = true ∧ (div.ExactOrUnknown [7, 2] ↔ div.NoOverflow [7, 2])
  := ⟨by decide, exactOrUnknown_iff div (by decide)⟩

/-- The sum of the greatest Integer and 1 overflows. -/
theorem not_exactOrUnknown :
  ¬ ∀ (op : Arithmetic) (args : List Integer),
    op.operator.checkArgCount args.length = true → op.ExactOrUnknown args
  := by
  intro h
  obtain ⟨value, hvalue, -⟩ := h add [BitVec.intMax 32, 1] (by decide)
  revert hvalue
  have hnone : Function.getValue add.operator (List.map some [BitVec.intMax 32, 1]) = none := by
    decide
  rw [hnone]
  simp

end Arithmetic

end Plexil

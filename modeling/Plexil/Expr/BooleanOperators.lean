import Plexil.Expr.Function
import Plexil.Util.Kleene
import Plexil.Value.ValueType

/-!
# The logical connectives

The operators `OR`, `AND` and `XOR` of plans.  The value of an argument is `none` when it
is unknown.  The code of two arguments computes Kleene's connectives.  That of a list does
so for `AND`.  For `OR` it takes one known argument for enough to answer false, and for
`XOR` it returns unknown at the first *known* argument, so that it computes a value only
when all are unknown.
-/

namespace Plexil

/-! ### OR -/

/-- The loop over the arguments; `anyKnown` tells whether an argument was known. -/
def orLoop : List (Option Boolean) → Bool → Option Boolean
  | [], anyKnown => if anyKnown then some false else none
  | some true :: _, _ => some true
  | some false :: args, _ => orLoop args true
  | none :: args, anyKnown => orLoop args anyKnown

def orTwo (argA argB : Option Boolean) : Option Boolean :=
  match argA with
  | some true => some true
  | some false => argB
  | none => if argB = some true then some true else none

def booleanOr : Operator (Option Boolean) (Option Boolean) where
  name := "OR"
  checkArgCount count := count > 0
  calcOne arg := arg
  calcTwo := orTwo
  calcMany args := orLoop args false

/-! ### AND -/

/-- The loop over the arguments; `allKnown` tells whether all arguments were known. -/
def andLoop : List (Option Boolean) → Bool → Option Boolean
  | [], allKnown => if allKnown then some true else none
  | some false :: _, _ => some false
  | some true :: args, allKnown => andLoop args allKnown
  | none :: args, _ => andLoop args false

def andTwo (argA argB : Option Boolean) : Option Boolean :=
  match argA with
  | some false => some false
  | some true => argB
  | none => if argB = some false then some false else none

def booleanAnd : Operator (Option Boolean) (Option Boolean) where
  name := "AND"
  checkArgCount count := count > 0
  calcOne arg := arg
  calcTwo := andTwo
  calcMany args := andLoop args true

/-! ### XOR -/

/-- The loop over the arguments.  The variable `temp2` is not written for an unknown
argument; `temp2 i` is the value it happens to have at the argument `i`. -/
def xorLoop (temp2 : Nat → Boolean) : List (Option Boolean) → Nat → Boolean → Option Boolean
  | [], _, temp1 => some temp1
  | some _ :: _, _, _ => none
  | none :: args, i, temp1 => xorLoop temp2 args (i + 1) (temp1 != temp2 i)

def xorTwo (argA argB : Option Boolean) : Option Boolean :=
  match argA with
  | none => none
  | some temp1 =>
    match argB with
    | none => none
    | some temp2 => some (temp1 != temp2)

def booleanXor (temp2 : Nat → Boolean) : Operator (Option Boolean) (Option Boolean) where
  name := "XOR"
  checkArgCount count := count > 0
  calcOne arg := arg
  calcTwo := xorTwo
  calcMany args := xorLoop temp2 args 0 false

/-! ### The code of two arguments -/

theorem orTwo_eq (argA argB : Option Boolean) :
  orTwo argA argB = Kleene.or argA argB
  := by decide +revert

theorem andTwo_eq (argA argB : Option Boolean) :
  andTwo argA argB = Kleene.and argA argB
  := by decide +revert

theorem xorTwo_eq (argA argB : Option Boolean) :
  xorTwo argA argB = Kleene.xor argA argB
  := by decide +revert

/-! ### The code of a list -/

theorem orLoop_eq (args : List (Option Boolean)) (anyKnown : Bool) :
  orLoop args anyKnown
    = if some true ∈ args then some true
      else if anyKnown ∨ some false ∈ args then some false else none
  := by
  induction args generalizing anyKnown with
  | nil => simp [orLoop]
  | cons arg args ih =>
    obtain _ | _ | _ := arg
    · simp [orLoop, ih]
    · simp [orLoop, ih]
    · simp [orLoop]

theorem andLoop_eq (args : List (Option Boolean)) (allKnown : Bool) :
  andLoop args allKnown
    = if some false ∈ args then some false
      else if allKnown ∧ none ∉ args then some true else none
  := by
  induction args generalizing allKnown with
  | nil => simp [andLoop]
  | cons arg args ih =>
    obtain _ | _ | _ := arg
    · simp [andLoop, ih]
    · simp [andLoop]
    · simp [andLoop, ih]

/-- The code for a list is right about `AND`. -/
theorem andLoop_true (args : List (Option Boolean)) :
  andLoop args true = Kleene.all args
  := by
  rw [andLoop_eq, Kleene.all]
  by_cases hnone : none ∈ args <;> simp [hnone]

theorem xorLoop_of_known (temp2 : Nat → Boolean) {args : List (Option Boolean)}
    (h : ∃ b, some b ∈ args) (i : Nat) (temp1 : Boolean) :
  xorLoop temp2 args i temp1 = none
  := by
  induction args generalizing i temp1 with
  | nil => simp at h
  | cons arg args ih =>
    obtain _ | b := arg
    · apply ih
      simpa using h
    · rfl

theorem xorLoop_of_unknown (temp2 : Nat → Boolean) {args : List (Option Boolean)}
    (h : ¬ ∃ b, some b ∈ args) (i : Nat) (temp1 : Boolean) :
  xorLoop temp2 args i temp1 ≠ none
  := by
  induction args generalizing i temp1 with
  | nil => simp [xorLoop]
  | cons arg args ih =>
    obtain _ | b := arg
    · apply ih
      simpa using h
    · exact absurd ⟨b, List.mem_cons_self⟩ h

/-! ### The connectives -/

inductive Connective where
  | or
  | and
  | xor

namespace Connective

/-- The operator of a connective, where `temp2` is what `XOR` finds in an unwritten
variable. -/
def operator (temp2 : Nat → Boolean) : Connective → Operator (Option Boolean) (Option Boolean)
  | or => booleanOr
  | and => booleanAnd
  | xor => booleanXor temp2

/-- What a connective is meant to compute from a list. -/
def kleene : Connective → List (Option Boolean) → Option Boolean
  | or => Kleene.any
  | and => Kleene.all
  | xor => Kleene.parity

/-- The lists on which the code for a list is right.  For `OR` some argument is true, or
all are known, or none is known to be false; for `XOR` some argument is known and some
is unknown. -/
def RightOn : Connective → List (Option Boolean) → Prop
  | or, args => some true ∈ args ∨ none ∉ args ∨ some false ∉ args
  | and, _ => True
  | xor, args => none ∈ args ∧ ∃ b, some b ∈ args

/-- The left fold of the code of two arguments computes the connective. -/
theorem foldl_calcTwo (temp2 : Nat → Boolean) (c : Connective) (arg : Option Boolean)
    (args : List (Option Boolean)) :
  args.foldl (c.operator temp2).calcTwo arg = c.kleene (arg :: args)
  := by
  cases c with
  | or =>
    rw [show ((or).operator temp2).calcTwo = Kleene.or from funext₂ orTwo_eq]
    apply Kleene.foldl_or
  | and =>
    rw [show ((and).operator temp2).calcTwo = Kleene.and from funext₂ andTwo_eq]
    apply Kleene.foldl_and
  | xor =>
    rw [show ((xor).operator temp2).calcTwo = Kleene.xor from funext₂ xorTwo_eq]
    apply Kleene.foldl_xor

theorem orLoop_right_iff (arg : Option Boolean) (args : List (Option Boolean)) :
  orLoop (arg :: args) false = Kleene.any (arg :: args) ↔ RightOn or (arg :: args)
  := by
  rw [orLoop_eq, Kleene.any, RightOn]
  by_cases htrue : some true ∈ arg :: args
  · simp only [htrue, if_true, true_or]
  · by_cases hnone : none ∈ arg :: args <;> by_cases hfalse : some false ∈ arg :: args
    · simp [htrue, hnone, hfalse]
    · simp [htrue, hnone, hfalse]
    · simp [htrue, hnone, hfalse]
    · obtain _ | _ | _ := arg <;> simp at htrue hnone hfalse

theorem xorLoop_right_iff (temp2 : Nat → Boolean) (arg : Option Boolean)
    (args : List (Option Boolean)) :
  xorLoop temp2 (arg :: args) 0 false = Kleene.parity (arg :: args) ↔ RightOn xor (arg :: args)
  := by
  by_cases hknown : ∃ b, some b ∈ arg :: args
  · rw [xorLoop_of_known temp2 hknown, Kleene.parity, RightOn]
    by_cases hnone : none ∈ arg :: args
    · simp only [hnone, if_true, true_and, true_iff]
      apply hknown
    · simp [hnone]
  · have hvalue := xorLoop_of_unknown temp2 hknown 0 false
    have hnone : none ∈ arg :: args := by
      obtain _ | b := arg
      · apply List.mem_cons_self
      · exact absurd ⟨b, List.mem_cons_self⟩ hknown
    rw [Kleene.parity, if_pos hnone]
    exact iff_of_false hvalue fun h => hknown h.2

/-- The code of a list agrees with the left fold of the code of two arguments, which
computes the connective, exactly on the lists on which it is right. -/
theorem calcMany_eq_foldl_iff (temp2 : Nat → Boolean) (c : Connective) (arg : Option Boolean)
    (args : List (Option Boolean)) :
  ((c.operator temp2).calcMany (arg :: args) = args.foldl (c.operator temp2).calcTwo arg ∧
      args.foldl (c.operator temp2).calcTwo arg = c.kleene (arg :: args))
    ↔ c.RightOn (arg :: args)
  := by
  rw [foldl_calcTwo]
  rw [and_iff_left rfl]
  cases c with
  | or => apply orLoop_right_iff
  | and => exact iff_of_true (andLoop_true (arg :: args)) trivial
  | xor => apply xorLoop_right_iff

/-- From false, unknown and false the code of a list for `OR` computes false. -/
theorem not_calcMany_eq_foldl :
  ¬ ∀ (temp2 : Nat → Boolean) (c : Connective) (arg : Option Boolean)
      (args : List (Option Boolean)),
    (c.operator temp2).calcMany (arg :: args) = args.foldl (c.operator temp2).calcTwo arg
  := by
  intro h
  have hor := h (fun _ => false) or (some false) [none, some false]
  revert hor
  decide

/-- A function computes its connective exactly when it has at most two arguments or a
list on which the code for lists is right. -/
theorem getValue_eq_kleene_iff (temp2 : Nat → Boolean) (c : Connective) (arg : Option Boolean)
    (args : List (Option Boolean)) :
  Function.getValue (c.operator temp2) (arg :: args) = c.kleene (arg :: args)
    ↔ args.length ≤ 1 ∨ c.RightOn (arg :: args)
  := by
  obtain _ | ⟨argB, _ | ⟨argC, args⟩⟩ := args
  · apply iff_of_true _ (.inl (by simp))
    rw [← foldl_calcTwo temp2]
    cases c <;> rfl
  · apply iff_of_true _ (.inl (by simp))
    rw [← foldl_calcTwo temp2]
    rfl
  · rw [← calcMany_eq_foldl_iff temp2, foldl_calcTwo, and_iff_left rfl]
    simp [Function.getValue]

end Connective

end Plexil

import Plexil.Compiler.LiteralNode
import Plexil.Util.FloatingPoint
import Plexil.Xml.ArraySize

/-!
# Integer literals

An Integer literal stands where an array has its size, or where an expression is expected: there
it may be asked to assume other types before it is written, or there is a diagnostic and it is
not written at all.  The executive reads what is written as the number which the token denotes,
if the compiler can read the token itself.
-/

open Strtol

namespace Plexil.Compiler

/-! ### Tokens -/

/-- The radix behind `0`, or 10. -/
def radixOf : Option Char → Nat
  | some 'b' | some 'B' => 2
  | some 'o' | some 'O' => 8
  | some 'x' | some 'X' => 16
  | _ => 10

/-- A token of type `INT` of the lexer rule `INT_OR_DOUBLE`. -/
structure IntegerToken where
  mark : Option Char
  digits : List Char
  isMark : ∀ c ∈ mark, c ∈ ['b', 'B', 'o', 'O', 'x', 'X']
  digits_ne : digits ≠ []
  isDigits : ∀ d ∈ digits, isDigit (radixOf mark) d = true

namespace IntegerToken

def text (token : IntegerToken) : List Char :=
  match token.mark with
  | none => token.digits
  | some c => '0' :: c :: token.digits

/-- The number which the token denotes. -/
def number (token : IntegerToken) : Nat := value (radixOf token.mark) token.digits

end IntegerToken

/-! ### Positions -/

/-- What becomes of a literal where an expression is expected.  A context may ask the literal to
assume types, and what it does next depends on the answers. -/
inductive Context where
  /-- The literal is written to the plan. -/
  | emit
  /-- A diagnostic is reported. -/
  | report
  | ask (t : PlexilDataType) (next : Answer → Context)

inductive Outcome where
  | diagnostic
  /-- The element whose name is that of the type followed by `Value`. -/
  | element (type : PlexilDataType) (text : List Char)
  deriving DecidableEq

/-- What the compiler does with the literal; `none` is an exception. -/
def Context.run : Context → LiteralNode → Option Outcome
  | .emit, node => node.constructText.map (.element node.m_dataType)
  | .report, _ => some .diagnostic
  | .ask t next, node => do
    let (answer, node) ← node.assumeType t
    (next answer).run node

/-- `VariableDeclNode.check`: the initial value of a variable, when it is an Integer literal. -/
def variableInitialValue (type : PlexilDataType) : Context :=
  let ifAccepted : Answer → Context := fun answer => if answer = .accepted then .emit else .report
  if type = .integer then .emit
  else if type = .real then .ask type ifAccepted
  else if type = .boolean then .ask type ifAccepted
  else .report

/-- The nodes which read the size of an array, and `VariableName`, which keeps it; the text of the
element `MaxSize`. -/
def arraySizeText (txt : List Char) : Option (List Char) :=
  (parseIntegerValue txt).map integerToString

inductive Position where
  | expression (negative : Bool) (context : Context)
  | arraySize

/-! ### The executive -/

/-- `parseValue<Boolean>`; `none` is for other texts, and for `UNKNOWN`. -/
def parseBooleanValue (str : List Char) : Option Bool :=
  if str = ['0'] then some false
  else if str = ['1'] then some true
  else if str.map Char.toLower = "true".toList then some true
  else if str.map Char.toLower = "false".toList then some false
  else none

/-- `parseValue<Real>`, for the texts of Integers: `strtod` takes the nearest number. -/
def parseRealValue (str : List Char) : Option (FloatingPoint .binary64) :=
  let (negative, digits) := splitSign str
  if digits ≠ [] ∧ digits.all (isDigit 10) = true then
    let temp := FloatingPoint.ofRat (signed negative (value 10 digits))
    if temp.isInfinite then none else some temp
  else none

/-- The executive reads an element of the type as the number; a Boolean counts as 0 or 1. -/
def ReadsAs (type : PlexilDataType) (text : List Char) (n : Int) : Prop :=
  match type with
  | .integer => Xml.parseInteger text = .ok (some n)
  | .real => ∃ h, parseRealValue text = some (.finite ⟨n, h⟩)
  | .boolean => ∃ b, parseBooleanValue text = some b ∧ n = b.toNat
  | _ => False

/-- The literal has the value which the token denotes, or there is a diagnostic. -/
def KeepsValue (token : IntegerToken) : Position → Prop
  | .expression negative context =>
    ∃ outcome, context.run (.ofToken (if negative then .negInt token.text else .int token.text)) =
        some outcome ∧
      ∀ type text, outcome = .element type text → ReadsAs type text (signed negative token.number)
  | .arraySize =>
    ∃ text, arraySizeText token.text = some text ∧ Xml.parseInteger text = .ok (some token.number)

/-! ### What a context needs of a literal -/

/-- The first thing which needs the value. -/
inductive Demand where
  | nothing
  | boolean
  | emission
  deriving DecidableEq

/-- The answer of a literal of a type, and its type behind it, unless its value is needed. -/
def answerTo (type t : PlexilDataType) : Option (Answer × PlexilDataType) :=
  if !t.isValid then some (.invalid, type)
  else if t = .any || type = t then some (.accepted, type)
  else if type.isNumeric && t = .real then some (.accepted, t)
  else if t = .boolean && type = .integer then none
  else some (.refused, type)

/-- What the context needs of a literal of a type. -/
def Context.demand : Context → PlexilDataType → Demand
  | .emit, _ => .emission
  | .report, _ => .nothing
  | .ask t next, type =>
    match answerTo type t with
    | some (answer, type) => (next answer).demand type
    | none => .boolean

/-- The number is one which the compiler can read where the position needs it.  A literal with a
minus sign is never read as a Boolean. -/
def Readable (token : IntegerToken) : Position → Prop
  | .expression negative context =>
    match context.demand .integer with
    | .nothing => True
    | .boolean => negative = false ∧ token.number < 2 ^ 31
    | .emission => token.number < 2 ^ 31
  | .arraySize => token.number < 2 ^ 31

/-! ### Reading and writing numbers -/

theorem radixOf_le (mark : Option Char) :
  radixOf mark ≤ 36
  := by
  unfold radixOf
  split <;> decide

theorem splitPrefix_decimal {digits : List Char} (h : ∀ d ∈ digits, isDigit 10 d = true) :
  splitPrefix digits = (10, digits)
  := by
  unfold splitPrefix
  split
  · rename_i c d rest
    rw [if_pos (h c (by simp))]
  · rfl

theorem splitPrefix_text (token : IntegerToken) :
  splitPrefix token.text = (radixOf token.mark, token.digits)
  := by
  obtain ⟨mark, digits, isMark, digits_ne, isDigits⟩ := token
  cases mark with
  | none => exact splitPrefix_decimal isDigits
  | some c =>
    obtain ⟨d, digits, rfl⟩ := List.exists_cons_of_ne_nil digits_ne
    have hc := isMark c rfl
    simp only [List.mem_cons, List.not_mem_nil, or_false] at hc
    rcases hc with rfl | rfl | rfl | rfl | rfl | rfl <;> rfl

/-- The compiler reads the number which the token denotes, if it is one of an `int`. -/
theorem parseIntegerValue_text (token : IntegerToken) :
  parseIntegerValue token.text = if token.number < 2 ^ 31 then some (token.number : Int) else none
  := by
  have hsign := (splitSign_digits (radixOf_le token.mark) token.isDigits).2
  unfold parseIntegerValue parseInt
  rw [splitPrefix_text]
  dsimp only
  rw [hsign]
  dsimp only
  rw [if_pos ⟨token.digits_ne, List.all_eq_true.mpr token.isDigits⟩]
  have hvalue : signed false (value (radixOf token.mark) token.digits) = (token.number : Int) := rfl
  rw [hvalue]
  congr 1
  simp only [eq_iff_iff]
  omega

theorem parseInteger_numeral (negative : Bool) {n : Nat} (h : n < 2 ^ 31) :
  Xml.parseInteger (numeral negative n) = .ok (some (signed negative n))
  := by
  apply Xml.parseInteger_numeral <;> cases negative <;> simp [signed] <;> omega

theorem parseRealValue_numeral (negative : Bool) {n : Nat} (h : n < 2 ^ 31) :
  ∃ hn, parseRealValue (numeral negative n) = some (.finite ⟨(signed negative n : Int), hn⟩)
  := by
  have habs : |signed negative n| < 2 ^ 31 := by
    cases negative <;> simp [signed] <;> omega
  have hrepresentable : FloatFormat.binary64.Representable (signed negative n : Int) := by
    apply FloatFormat.representable_intCast (by decide)
    · exact habs.trans (by decide)
    · have hbound : (|signed negative n| : ℚ) ≤ 2 ^ 53 - 1 := by
        have hle : |signed negative n| ≤ 2 ^ 53 - 1 := by omega
        exact_mod_cast hle
      calc (|(signed negative n : Int)| : ℚ)
          ≤ 2 ^ 53 - 1 := hbound
        _ ≤ (2 ^ 53 - 1) * 2 ^ 971 :=
          le_mul_of_one_le_right (by norm_num) (one_le_pow₀ (by norm_num))
  refine ⟨hrepresentable, ?_⟩
  unfold parseRealValue
  rw [(splitSign_numeral negative n).2]
  dsimp only
  rw [if_pos ⟨Nat.toDigits_ne_nil, List.all_eq_true.mpr (isDigit_toDigits n)⟩, value_toDigits,
    FloatingPoint.ofRat_eq hrepresentable]
  rfl

/-! ### Asking a literal -/

/-- The name of an imaginary token is not a number. -/
theorem parseIntegerValue_name :
  parseIntegerValue "NEG_INT".toList = none
  := by
  decide

namespace IntegerToken

/-- The token of the node. -/
def literal (token : IntegerToken) (negative : Bool) : LiteralToken :=
  if negative then .negInt token.text else .int token.text

variable (token : IntegerToken)

theorem parseIntegerValue_getText (negative : Bool) :
  parseIntegerValue (token.literal negative).getText =
    if negative = false ∧ token.number < 2 ^ 31 then some (token.number : Int) else none
  := by
  cases negative with
  | true =>
    have hname : (token.literal true).getText = "NEG_INT".toList := rfl
    rw [hname, parseIntegerValue_name]
    simp
  | false =>
    have hname : (token.literal false).getText = token.text := rfl
    rw [hname, parseIntegerValue_text]
    simp

/-- The number is written behind its sign, where -0 is -0. -/
theorem constructText_literal (negative : Bool) (type : PlexilDataType) :
  (LiteralNode.mk (token.literal negative) type).constructText =
    if token.number < 2 ^ 31 then some (numeral negative token.number) else none
  := by
  have hnonneg : ¬ (token.number : Int) < 0 := by omega
  have hnumeral : integerToString (token.number : Int) = numeral false token.number := by
    rw [integerToString, decide_eq_false hnonneg, Int.natAbs_natCast]
  unfold LiteralNode.constructText
  cases negative with
  | true =>
    simp only [literal, if_true, parseIntegerValue_text]
    split
    · rw [Option.map_some, hnumeral]
      rfl
    · rfl
  | false =>
    simp only [literal, Bool.false_eq_true, if_false, parseIntegerValue_text]
    split
    · rw [Option.map_some, hnumeral]
    · rfl

/-- A literal answers by its type, unless its value is needed. -/
theorem assumeType_literal (negative : Bool) {type : PlexilDataType} (htype : type.isValid = true)
    (t : PlexilDataType) :
  (LiteralNode.mk (token.literal negative) type).assumeType t =
    match answerTo type t with
    | some (answer, type') => some (answer, ⟨token.literal negative, type'⟩)
    | none =>
      if negative = false ∧ token.number < 2 ^ 31 then
        if token.number = 0 ∨ token.number = 1 then
          some (.accepted, ⟨token.literal negative, .boolean⟩)
        else some (.refused, ⟨token.literal negative, type⟩)
      else none
  := by
  have htemporal : (token.literal negative).isTemporal = false := by
    cases negative <;> rfl
  unfold LiteralNode.assumeType answerTo
  simp only [htype, htemporal, Bool.not_true, Bool.false_eq_true, if_false]
  by_cases hvalid : (!t.isValid) = true
  · rw [if_pos hvalid, if_pos hvalid]
  rw [if_neg hvalid, if_neg hvalid]
  by_cases hsame : (t = .any || type = t) = true
  · rw [if_pos hsame, if_pos hsame]
  rw [if_neg hsame, if_neg hsame]
  by_cases hreal : (type.isNumeric && t = .real) = true
  · rw [if_pos hreal, if_pos hreal]
  rw [if_neg hreal, if_neg hreal]
  by_cases hboolean : (t = .boolean && type = .integer) = true
  · rw [if_pos hboolean, if_pos hboolean]
    simp only [Bool.and_eq_true, decide_eq_true_eq] at hboolean
    obtain ⟨rfl, rfl⟩ := hboolean
    rw [token.parseIntegerValue_getText]
    by_cases hread : negative = false ∧ token.number < 2 ^ 31
    · simp only [if_pos hread, Option.bind_eq_bind, Option.bind_some, Nat.cast_eq_zero,
        Nat.cast_eq_one]
    · simp only [if_neg hread]
      rfl
  · rw [if_neg hboolean, if_neg hboolean]

end IntegerToken

/-- The types which a literal can have: a Boolean has the value 0 or 1. -/
def Possible (token : IntegerToken) (negative : Bool) (type : PlexilDataType) : Prop :=
  type = .integer ∨ type = .real ∨
    type = .boolean ∧ negative = false ∧ (token.number = 0 ∨ token.number = 1)

/-- What a context needs is there. -/
def Supplies (token : IntegerToken) (negative : Bool) : Demand → Prop
  | .nothing => True
  | .boolean => negative = false ∧ token.number < 2 ^ 31
  | .emission => token.number < 2 ^ 31

theorem Possible.isValid {token : IntegerToken} {negative : Bool} {type : PlexilDataType}
    (h : Possible token negative type) :
  type.isValid = true
  := by
  obtain rfl | rfl | ⟨rfl, -⟩ := h <;> rfl

theorem Possible.answerTo {token : IntegerToken} {negative : Bool} {type type' : PlexilDataType}
    (h : Possible token negative type) {t : PlexilDataType} {answer : Answer}
    (hanswer : answerTo type t = some (answer, type')) :
  Possible token negative type'
  := by
  unfold Compiler.answerTo at hanswer
  split_ifs at hanswer <;> cases hanswer <;> first | exact h | skip
  rename_i hreal
  simp only [Bool.and_eq_true, decide_eq_true_eq] at hreal
  exact .inr (.inl hreal.2)

/-- A literal whose value is needed for an answer is an Integer. -/
theorem eq_integer_of_answerTo {type t : PlexilDataType} (h : answerTo type t = none) :
  type = .integer
  := by
  unfold answerTo at h
  split_ifs at h with _ _ _ hboolean
  simp only [Bool.and_eq_true, decide_eq_true_eq] at hboolean
  exact hboolean.2

/-- What is written is read as the number. -/
theorem readsAs_numeral {token : IntegerToken} {negative : Bool} {type : PlexilDataType}
    (h : Possible token negative type) (hnumber : token.number < 2 ^ 31) :
  ReadsAs type (numeral negative token.number) (signed negative token.number)
  := by
  obtain rfl | rfl | ⟨rfl, rfl, hbit⟩ := h
  · exact parseInteger_numeral negative hnumber
  · exact parseRealValue_numeral negative hnumber
  · obtain hbit | hbit := hbit
    · rw [hbit]
      exact ⟨false, rfl, rfl⟩
    · rw [hbit]
      exact ⟨true, rfl, rfl⟩

/-- A literal which can be read supplies everything. -/
theorem supplies_of_readable {token : IntegerToken} {negative : Bool}
    (h : negative = false ∧ token.number < 2 ^ 31) (demand : Demand) :
  Supplies token negative demand
  := by
  cases demand with
  | nothing => trivial
  | boolean => exact h
  | emission => exact h.2

theorem run_of_supplies {token : IntegerToken} {negative : Bool} {type : PlexilDataType}
    (hpossible : Possible token negative type) {context : Context}
    (h : Supplies token negative (context.demand type)) :
  ∃ outcome, context.run ⟨token.literal negative, type⟩ = some outcome ∧
    ∀ type text, outcome = .element type text → ReadsAs type text (signed negative token.number)
  := by
  induction context generalizing type with
  | emit =>
    have hnumber : token.number < 2 ^ 31 := h
    refine ⟨.element type (numeral negative token.number), ?_, ?_⟩
    · rw [Context.run, token.constructText_literal, if_pos hnumber]
      rfl
    · rintro _ _ heq
      cases heq
      exact readsAs_numeral hpossible hnumber
  | report => exact ⟨.diagnostic, rfl, fun _ _ heq => by cases heq⟩
  | ask t next ih =>
    rw [Context.run, token.assumeType_literal negative hpossible.isValid]
    rw [Context.demand] at h
    cases hanswer : answerTo type t with
    | some answered =>
      obtain ⟨answer, type'⟩ := answered
      rw [hanswer] at h
      exact ih answer (hpossible.answerTo hanswer) h
    | none =>
      rw [hanswer] at h
      have hread : negative = false ∧ token.number < 2 ^ 31 := h
      dsimp only
      rw [if_pos hread]
      split
      · rename_i hbit
        exact ih .accepted (.inr (.inr ⟨rfl, hread.1, hbit⟩)) (supplies_of_readable hread _)
      · exact ih .refused hpossible (supplies_of_readable hread _)

theorem run_of_not_supplies {token : IntegerToken} {negative : Bool} {type : PlexilDataType}
    (hpossible : Possible token negative type) {context : Context}
    (h : ¬ Supplies token negative (context.demand type)) :
  context.run ⟨token.literal negative, type⟩ = none
  := by
  induction context generalizing type with
  | emit =>
    have hnumber : ¬ token.number < 2 ^ 31 := h
    rw [Context.run, token.constructText_literal, if_neg hnumber]
    rfl
  | report => exact absurd trivial h
  | ask t next ih =>
    rw [Context.run, token.assumeType_literal negative hpossible.isValid]
    rw [Context.demand] at h
    cases hanswer : answerTo type t with
    | some answered =>
      obtain ⟨answer, type'⟩ := answered
      rw [hanswer] at h
      exact ih answer (hpossible.answerTo hanswer) h
    | none =>
      rw [hanswer] at h
      have hread : ¬(negative = false ∧ token.number < 2 ^ 31) := h
      dsimp only
      rw [if_neg hread]
      rfl

/-! ### Integer literals -/

theorem keepsValue_expression (token : IntegerToken) (negative : Bool) (context : Context) :
  KeepsValue token (.expression negative context) ↔
    Supplies token negative (context.demand .integer)
  := by
  have hnode : LiteralNode.ofToken (if negative then .negInt token.text else .int token.text) =
      ⟨token.literal negative, .integer⟩ := by
    cases negative <;> rfl
  unfold KeepsValue
  dsimp only
  rw [hnode]
  constructor
  · rintro ⟨outcome, hrun, -⟩
    by_contra hsupplies
    rw [run_of_not_supplies (.inl rfl) hsupplies] at hrun
    cases hrun
  · exact run_of_supplies (.inl rfl)

/-- The initial value of a variable. -/
theorem keepsValue_variableInitialValue (token : IntegerToken) (negative : Bool)
    (type : PlexilDataType) :
  KeepsValue token (.expression negative (variableInitialValue type)) ↔
    (type = .integer ∨ type = .real → token.number < 2 ^ 31) ∧
      (type = .boolean → negative = false ∧ token.number < 2 ^ 31)
  := by
  have hdemand : (variableInitialValue type).demand .integer =
      if type = .integer ∨ type = .real then .emission
      else if type = .boolean then .boolean else .nothing := by
    cases type <;> rfl
  rw [keepsValue_expression, hdemand]
  by_cases hnumber : type = .integer ∨ type = .real
  · rw [if_pos hnumber]
    have hboolean : type ≠ .boolean := by
      rintro rfl
      simp at hnumber
    simp [Supplies, hnumber, hboolean]
  · rw [if_neg hnumber]
    by_cases hboolean : type = .boolean
    · rw [if_pos hboolean]
      simp [Supplies, hboolean]
    · rw [if_neg hboolean]
      simp [Supplies, hnumber, hboolean]

end Plexil.Compiler

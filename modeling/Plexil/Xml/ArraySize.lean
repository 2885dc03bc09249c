import Plexil.Util.Strtol
import Plexil.Xml.Plan

/-!
# The size of an array variable

The `MaxSize` of an array declaration is read three times.  The check reads it in base 0 and
bounds array literals by it; the size of the variable is read in base 10; and the size by which
an initial value is checked is what pugixml makes of the text, in base 10 or 16.  The check and
the construction of the variable look for it behind the type, the initialization looks for it
among all elements of the declaration.
-/

open Strtol

namespace Plexil.Xml

/-! ### Declarations -/

/-- Of the control characters, documents have only white space. -/
def isXmlChar (c : Char) : Bool := ' ' ≤ c || c = '\t' || c = '\n' || c = '\r'

def isXmlSpace (c : Char) : Bool := c = ' ' || c = '\t' || c = '\n' || c = '\r'

abbrev XmlText := { text : List Char // ∀ c ∈ text, isXmlChar c = true }

/-- The element which is the initial value, with the number of its children. -/
structure InitialValueXml where
  tag : String
  children : Nat
  deriving DecidableEq

/-- An element of a `DeclareArray` behind the name and the type. -/
inductive DeclareArrayXml where
  | maxSize (text : XmlText)
  | initialValue (contents : List InitialValueXml)
  | other (tag : String)

structure ArrayDeclaration where
  name : String
  elementType : ValueType
  children : List DeclareArrayXml

/-! ### The check -/

inductive ParseValueError where
  | invalid
  | outOfRange
  deriving DecidableEq

/-- `parseValue<Integer>`: no value is read from the empty text and from `UNKNOWN`. -/
def parseInteger (str : List Char) : Except ParseValueError (Option Int) :=
  if str = [] ∨ str = ['U', 'N', 'K', 'N', 'O', 'W', 'N'] then .ok none
  else
    let temp := strtol str 0
    if temp.ends = str ∨ temp.ends ≠ [] then .error .invalid
    else if temp.outOfRange ∨ 2 ^ 31 - 1 < temp.value ∨ temp.value < -2 ^ 31 then
      .error .outOfRange
    else .ok (some temp.value)

inductive DeclareArrayError where
  | invalidType
  | emptyMaxSize
  | maxSizeNotNonNegative
  | parseValue (error : ParseValueError)
  | invalidElement
  | emptyInitialValue
  | invalidInitialValue
  | extraElements
  | checkExpression
  | incompatibleType
  | largerThanMaxSize
  deriving DecidableEq

namespace ArrayDeclaration

/-- The size which the check reads, and the elements behind it; the size is -1 when there is no
`MaxSize` behind the type. -/
def readMaxSize : List DeclareArrayXml → Except DeclareArrayError (Int × List DeclareArrayXml)
  | .maxSize text :: rest =>
    if text.1 = [] then .error .emptyMaxSize
    else
      match parseInteger text.1 with
      | .error e => .error (.parseValue e)
      | .ok none => .error .maxSizeNotNonNegative
      | .ok (some size) => if 0 ≤ size then .ok (size, rest) else .error .maxSizeNotNonNegative
  | children => .ok (-1, children)

/-- The element of the initial value, whose type is `v`. -/
def checkContents (checkExpression : InitialValueXml → Option ValueType)
    (elementType : ValueType) (maxSize : Int) (xml : InitialValueXml) :
    Except DeclareArrayError Unit :=
  match checkExpression xml with
  | none => .error .checkExpression
  | some v =>
    if xml.tag = "ArrayValue" ∨ xml.tag = "ArrayVariable" then
      if v ≠ elementType.arrayType then .error .incompatibleType
      else if xml.tag = "ArrayValue" ∧ 0 ≤ maxSize ∧ maxSize < xml.children then
        .error .largerThanMaxSize
      else .ok ()
    else if elementType.areTypesCompatible v then .ok ()
    else .error .incompatibleType

/-- The elements behind the size. -/
def checkInitialValue (checkExpression : InitialValueXml → Option ValueType)
    (elementType : ValueType) (maxSize : Int) :
    List DeclareArrayXml → Except DeclareArrayError Unit
  | [] => .ok ()
  | .initialValue [] :: _ => .error .emptyInitialValue
  | .initialValue (xml :: more) :: _ =>
    if ¬ xml.tag.endsWith "Value" ∧ xml.tag ≠ "ArrayVariable" then .error .invalidInitialValue
    else if more ≠ [] then .error .extraElements
    else checkContents checkExpression elementType maxSize xml
  | _ :: _ => .error .invalidElement

/-- `factoryCheck<ArrayVariable>`. -/
def factoryCheck (checkExpression : InitialValueXml → Option ValueType)
    (decl : ArrayDeclaration) : Except DeclareArrayError ValueType :=
  if decl.elementType.arrayType = .unknown then .error .invalidType
  else do
    let (maxSize, rest) ← readMaxSize decl.children
    checkInitialValue checkExpression decl.elementType maxSize rest
    return decl.elementType.arrayType

/-! ### The variable -/

/-- The size expression which `factoryAllocate<ArrayVariable>` makes. -/
def sizeExpression (decl : ArrayDeclaration) : Option (BitVec 32) :=
  match decl.children with
  | .maxSize text :: _ => some (BitVec.ofInt 32 (strtol text.1 10).value)
  | _ => none

/-! ### The initial value -/

/-- `decl.child(MAX_SIZE_TAG)`. -/
def maxSizeChild (decl : ArrayDeclaration) : Option XmlText :=
  decl.children.findSome? fun
    | .maxSize text => some text
    | _ => none

/-- The size in `parseVariableInitializer`.  The function `asInt` is that of pugixml for a text;
without a text the size is -1. -/
def sizeSpec (asInt : List Char → Int) (decl : ArrayDeclaration) : Int :=
  match decl.maxSizeChild with
  | some text => if text.1 = [] then -1 else asInt text.1
  | none => -1

/-- The expression of the initial value: an array, with its size when it is a constant, or
another expression. -/
inductive Initializer where
  | array (constantSize : Option Nat)
  | other (type : ValueType)
  deriving DecidableEq

inductive InitializerError where
  | exceedsSize
  | scalarRequiresMaxSize
  | invalidInitialValue
  deriving DecidableEq

/-- The part of `parseVariableInitializer` for an array variable. -/
def checkInitializer (asInt : List Char → Int) (decl : ArrayDeclaration) :
    Initializer → Except InitializerError Unit
  | .array (some size) =>
    if 0 ≤ decl.sizeSpec asInt ∧ decl.sizeSpec asInt < size then .error .exceedsSize else .ok ()
  | .array none => .ok ()
  | .other type =>
    if decl.elementType.areTypesCompatible type then
      if 0 ≤ decl.sizeSpec asInt then .ok () else .error .scalarRequiresMaxSize
    else .error .invalidInitialValue

/-! ### One size -/

/-- The three readers find the same number. -/
def OneSize (asInt : List Char → Int) (decl : ArrayDeclaration) : Prop :=
  ∃ (size : Nat) (rest : List DeclareArrayXml),
    readMaxSize decl.children = .ok ((size : Int), rest) ∧
    decl.sizeExpression.map BitVec.toInt = some (size : Int) ∧
    decl.sizeSpec asInt = size

end ArrayDeclaration

/-- The function of pugixml for texts which are numbers of 32 bits: white space, a sign, and
decimal digits, or hexadecimal ones behind `0x`. -/
structure ReadsIntegers (asInt : List Char → Int) : Prop where
  decimal : ∀ {text : List Char} {negative : Bool} {digits : List Char},
    splitSign (text.dropWhile isXmlSpace) = (negative, digits) → digits ≠ [] →
    (∀ c ∈ digits, isDigit 10 c = true) →
    -2 ^ 31 ≤ signed negative (value 10 digits) → signed negative (value 10 digits) < 2 ^ 31 →
    asInt text = signed negative (value 10 digits)
  hexadecimal : ∀ {text : List Char} {negative : Bool} {t digits : List Char},
    splitSign (text.dropWhile isXmlSpace) = (negative, t) → hexadecimal t = some digits →
    (∀ c ∈ digits, isDigit 16 c = true) →
    -2 ^ 31 ≤ signed negative (value 16 digits) → signed negative (value 16 digits) < 2 ^ 31 →
    asInt text = signed negative (value 16 digits)

/-! ### Spellings -/

/-- The digits mean the same in base 10 as with a prefix: they do not begin with a zero, or
there are only zeros in front of the last octal digit, or all hexadecimal digits are zeros. -/
def plainDigits (t : List Char) : Bool :=
  match Strtol.hexadecimal t with
  | some digits => digits.all fun c => c = '0'
  | none => t.head? ≠ some '0' || t.dropLast.all fun c => c = '0'

def plain (text : List Char) : Bool := plainDigits (splitSign (text.dropWhile isSpace)).2

/-- The `MaxSize` stands behind the type, and its digits are plain. -/
def ArrayDeclaration.plainSize (decl : ArrayDeclaration) : Bool :=
  match decl.children with
  | .maxSize text :: _ => plain text.1
  | _ => false

/-- The numbers which the check reads, from digits in base 16, 8 or 10. -/
inductive Numeral (negative : Bool) : List Char → Int → Prop where
  | hexadecimal {t digits : List Char} (ht : Strtol.hexadecimal t = some digits)
    (hdigits : ∀ c ∈ digits, isDigit 16 c = true) :
    Numeral negative t (signed negative (value 16 digits))
  | octal {t : List Char} (hhex : Strtol.hexadecimal t = none) (hhead : t.head? = some '0')
    (hdigits : ∀ c ∈ t, isDigit 8 c = true) : Numeral negative t (signed negative (value 8 t))
  | decimal {t : List Char} (hhex : Strtol.hexadecimal t = none) (hhead : t.head? ≠ some '0')
    (ht : t ≠ []) (hdigits : ∀ c ∈ t, isDigit 10 c = true) :
    Numeral negative t (signed negative (value 10 t))

theorem parseInteger_eq_some {text : List Char} {n : Int}
    (h : parseInteger text = .ok (some n)) :
  text ≠ [] ∧ (strtol text 0).ends = [] ∧ (strtol text 0).outOfRange = false ∧
    (strtol text 0).value = n ∧ -2 ^ 31 ≤ n ∧ n < 2 ^ 31
  := by
  unfold parseInteger at h
  split at h
  · cases h
  · rename_i hempty
    rw [not_or] at hempty
    dsimp only at h
    split at h
    · contradiction
    · rename_i hends
      split at h
      · contradiction
      · rename_i hrange
        obtain rfl := Option.some.inj (Except.ok.inj h)
        rw [not_or, not_not] at hends
        simp only [not_or, Bool.not_eq_true] at hrange
        refine ⟨hempty.1, hends.2, hrange.1, rfl, ?_, ?_⟩ <;> omega

/-- The numeral of a number of 32 bits is read as the number. -/
theorem parseInteger_numeral (negative : Bool) {n : Nat} (h : -2 ^ 31 ≤ signed negative n)
    (h' : signed negative n < 2 ^ 31) :
  parseInteger (numeral negative n) = .ok (some (signed negative n))
  := by
  have hbound : n < 2 ^ 63 := by
    cases negative <;> simp only [signed] at h h' <;> grind
  have hread := strtol_numeral negative hbound
  have hne : numeral negative n ≠ [] := by
    cases negative with
    | true => exact List.cons_ne_nil _ _
    | false => exact Nat.toDigits_ne_nil
  have hunknown : numeral negative n ≠ ['U', 'N', 'K', 'N', 'O', 'W', 'N'] := by
    intro heq
    cases negative with
    | true => cases heq
    | false =>
      have hU := isDigit_toDigits n 'U' (by rw [show Nat.toDigits 10 n = _ from heq]; simp)
      exact absurd hU (by decide)
  unfold parseInteger
  rw [if_neg (by simp [hne, hunknown]), hread]
  dsimp only
  rw [if_neg (by simp [hne.symm]), if_neg (by simp; omega)]

theorem numeral_of_parseInteger {text : List Char} {n : Int} {negative : Bool} {t : List Char}
    (h : parseInteger text = .ok (some n))
    (hsign : splitSign (text.dropWhile isSpace) = (negative, t)) :
  Numeral negative t n
  := by
  obtain ⟨hs, hends, hrange, rfl, -, -⟩ := parseInteger_eq_some h
  cases hhex : Strtol.hexadecimal t with
  | some digits =>
    have hbase : chooseBase 0 t = (16, digits) := by
      simp [chooseBase, hhex]
    obtain ⟨-, hdigits, hvalue⟩ := strtol_toEnd hsign hbase hs hends hrange
    rw [hvalue]
    exact .hexadecimal hhex hdigits
  | none =>
    by_cases hhead : t.head? = some '0'
    · have hbase : chooseBase 0 t = (8, t) := by
        simp [chooseBase, hhex, hhead]
      obtain ⟨-, hdigits, hvalue⟩ := strtol_toEnd hsign hbase hs hends hrange
      rw [hvalue]
      exact .octal hhex hhead hdigits
    · have hbase : chooseBase 0 t = (10, t) := by
        simp [chooseBase, hhex, hhead]
      obtain ⟨ht, hdigits, hvalue⟩ := strtol_toEnd hsign hbase hs hends hrange
      rw [hvalue]
      exact .decimal hhex hhead ht hdigits

/-- The white space of documents is all white space which they can contain. -/
theorem dropWhile_isXmlSpace (text : XmlText) :
  text.1.dropWhile isXmlSpace = text.1.dropWhile isSpace
  := by
  obtain ⟨text, htext⟩ := text
  dsimp only
  induction text with
  | nil => rfl
  | cons c rest ih =>
    have hc : isXmlSpace c = isSpace c := by
      have hchar := htext c (by simp)
      unfold isXmlChar at hchar
      unfold isXmlSpace isSpace
      by_cases h : c = '\x0b' ∨ c = '\x0c'
      · rcases h with rfl | rfl <;> exact absurd hchar (by decide)
      · rw [not_or] at h
        simp [h.1, h.2]
    rw [List.dropWhile_cons, List.dropWhile_cons, hc, ih fun d hd => htext d (by simp [hd])]

/-! ### Sizes of 32 bits -/

/-- The size which is made of a number. -/
theorem toInt_ofInt_of_inRange {n : Int} (h : -2 ^ 31 ≤ n) (h' : n < 2 ^ 31) :
  (BitVec.ofInt 32 n).toInt = n
  := by
  rw [BitVec.toInt_ofInt]
  apply Int.bmod_eq_of_le <;> omega

/-- Octal digits are read as the same size in base 10 only when there are zeros in front of the
last one. -/
theorem octal_size_eq_iff {negative : Bool} {digits : List Char}
    (hdigits : ∀ c ∈ digits, isDigit 8 c = true) (hpos : 0 ≤ signed negative (value 8 digits))
    (hrange : signed negative (value 8 digits) < 2 ^ 31) :
  (BitVec.ofInt 32 (clamp (signed negative (value 10 digits)) []).value).toInt
      = signed negative (value 8 digits)
    ↔ value 8 digits < 8
  := by
  rw [value_ten hdigits]
  constructor
  · intro h
    cases negative with
    | true =>
      unfold signed at hpos
      simp at hpos
      omega
    | false =>
      change 0 ≤ ((value 8 digits : Nat) : Int) at hpos
      change ((value 8 digits : Nat) : Int) < 2 ^ 31 at hrange
      change (BitVec.ofInt 32 (clamp (decimalReading (value 8 digits) : Nat) []).value).toInt
        = (value 8 digits : Nat) at h
      by_cases hbig : ((decimalReading (value 8 digits) : Nat) : Int) < 2 ^ 63
      · rw [clamp_of_inRange (by omega) hbig, BitVec.toInt_ofInt] at h
        exact lt_eight_of_decimalReading (by omega) h
      · have hclamp : (clamp (decimalReading (value 8 digits) : Nat) []).value = 2 ^ 63 - 1 := by
          unfold clamp
          rw [if_neg (by omega), if_pos (by omega)]
        rw [hclamp] at h
        have : (BitVec.ofInt 32 (2 ^ 63 - 1)).toInt = -1 := by decide
        omega
  · intro h
    rw [decimalReading_of_lt_eight h]
    have hlarge : -2 ^ 31 ≤ signed negative (value 8 digits) := by omega
    rw [clamp_of_inRange (by omega) (by omega), toInt_ofInt_of_inRange hlarge hrange]

/-- The size which is made of a number that the check has read. -/
theorem size_eq_iff {text : List Char} {n : Int} {negative : Bool} {t : List Char}
    (hsign : splitSign (text.dropWhile isSpace) = (negative, t)) (hn : Numeral negative t n)
    (hpos : 0 ≤ n) (hrange : n < 2 ^ 31) :
  (BitVec.ofInt 32 (strtol text 10).value).toInt = n ↔ plainDigits t = true
  := by
  cases hn with
  | hexadecimal ht hdigits =>
    rename_i digits
    rw [strtol_ten_of_hexadecimal hsign ht]
    have hzero : (0 : Int) = signed negative (value 16 digits) ↔ value 16 digits = 0 := by
      cases negative <;> simp [signed]; omega
    rw [show (BitVec.ofInt 32 0).toInt = 0 from rfl, hzero, value_eq_zero (by decide)]
    simp [plainDigits, ht]
  | octal hhex hhead hdigits =>
    have hten : ∀ c ∈ t, isDigit 10 c = true :=
      fun c hc => isDigit_mono (by decide) (hdigits c hc)
    have ht : t ≠ [] := by
      rintro rfl
      contradiction
    rw [strtol_ten hsign ht hten, octal_size_eq_iff hdigits hpos hrange, value_lt_eight hdigits]
    simp [plainDigits, hhex, hhead]
  | decimal hhex hhead ht hdigits =>
    rw [strtol_ten hsign ht hdigits, clamp_of_inRange (by omega) (by omega),
      toInt_ofInt_of_inRange (by omega) hrange]
    simp [plainDigits, hhex, hhead]

/-- A number with plain digits is read by pugixml as the check has read it. -/
theorem asInt_eq {asInt : List Char → Int} (h : ReadsIntegers asInt) (text : XmlText) {n : Int}
    {negative : Bool} {t : List Char}
    (hsign : splitSign (text.1.dropWhile isSpace) = (negative, t)) (hn : Numeral negative t n)
    (hpos : 0 ≤ n) (hrange : n < 2 ^ 31) (hplain : plainDigits t = true) :
  asInt text.1 = n
  := by
  rw [← dropWhile_isXmlSpace] at hsign
  cases hn with
  | hexadecimal ht hdigits => exact h.hexadecimal hsign ht hdigits (by omega) hrange
  | octal hhex hhead hdigits =>
    have hten : ∀ c ∈ t, isDigit 10 c = true :=
      fun c hc => isDigit_mono (by decide) (hdigits c hc)
    have ht : t ≠ [] := by
      rintro rfl
      contradiction
    have hsmall : value 8 t < 8 := by
      rw [value_lt_eight hdigits]
      simpa [plainDigits, hhex, hhead] using hplain
    have hvalue : value 10 t = value 8 t := by
      rw [value_ten hdigits, decimalReading_of_lt_eight hsmall]
    rw [← hvalue] at hpos hrange ⊢
    exact h.decimal hsign ht hten (by omega) hrange
  | decimal hhex hhead ht hdigits => exact h.decimal hsign ht hdigits (by omega) hrange

namespace ArrayDeclaration

theorem readMaxSize_eq_ok {text : XmlText} {rest : List DeclareArrayXml}
    {size : Int} {behind : List DeclareArrayXml}
    (h : readMaxSize (.maxSize text :: rest) = .ok (size, behind)) :
  parseInteger text.1 = .ok (some size) ∧ 0 ≤ size ∧ behind = rest
  := by
  rw [readMaxSize] at h
  split at h
  · contradiction
  · split at h
    · contradiction
    · contradiction
    · rename_i n hparse
      split at h
      · rename_i hpos
        obtain ⟨rfl, rfl⟩ := Prod.mk.inj (Except.ok.inj h)
        exact ⟨hparse, hpos, rfl⟩
      · contradiction

/-- The readers of an accepted declaration find the same number exactly when the `MaxSize`
stands behind the type and its digits are plain. -/
theorem oneSize_iff {asInt : List Char → Int} (hasInt : ReadsIntegers asInt)
    (checkExpression : InitialValueXml → Option ValueType) (decl : ArrayDeclaration)
    (haccepted : (decl.factoryCheck checkExpression).isOk = true) :
  decl.OneSize asInt ↔ decl.plainSize = true
  := by
  obtain ⟨name, elementType, children⟩ := decl
  match children with
  | [] =>
    constructor
    · rintro ⟨size, rest, -, hexpression, -⟩
      cases hexpression
    · intro h
      cases h
  | .initialValue _ :: _ | .other _ :: _ =>
    constructor
    · rintro ⟨size, rest, -, hexpression, -⟩
      cases hexpression
    · intro h
      cases h
  | .maxSize text :: rest =>
    obtain ⟨size, behind, hread⟩ : ∃ size behind,
        readMaxSize (.maxSize text :: rest) = .ok (size, behind) := by
      unfold factoryCheck at haccepted
      split at haccepted
      · cases haccepted
      · dsimp only at haccepted
        cases hread : readMaxSize (.maxSize text :: rest) with
        | error e =>
          rw [hread] at haccepted
          cases haccepted
        | ok r => exact ⟨r.1, r.2, rfl⟩
    obtain ⟨hparse, hpos, rfl⟩ := readMaxSize_eq_ok hread
    obtain ⟨hempty, -, -, -, -, hrange⟩ := parseInteger_eq_some hparse
    obtain ⟨negative, t, hsign⟩ : ∃ negative t,
        splitSign (text.1.dropWhile isSpace) = (negative, t) := ⟨_, _, rfl⟩
    have hnumeral := numeral_of_parseInteger hparse hsign
    have hsize := size_eq_iff hsign hnumeral hpos hrange
    have hplain : plain text.1 = plainDigits t := by
      unfold plain
      rw [hsign]
    change _ ↔ plain text.1 = true
    rw [hplain, ← hsize]
    constructor
    · rintro ⟨n, rest, hn, hexpression, -⟩
      obtain ⟨rfl, rfl⟩ := Prod.mk.inj (Except.ok.inj (hread.symm.trans hn))
      exact Option.some.inj hexpression
    · intro h
      refine ⟨size.toNat, behind, ?_, ?_, ?_⟩
      · rw [Int.toNat_of_nonneg hpos]
        exact hread
      · rw [Int.toNat_of_nonneg hpos]
        exact congrArg some h
      · rw [Int.toNat_of_nonneg hpos]
        have hspec : sizeSpec asInt ⟨name, elementType, .maxSize text :: behind⟩
            = asInt text.1 := if_neg hempty
        rw [hspec]
        exact asInt_eq hasInt text hsign hnumeral hpos hrange (hsize.mp h)

/-- A declaration of Integers with a size and no initial value. -/
def ofSize (text : XmlText) : ArrayDeclaration := ⟨"a", .integer, [.maxSize text]⟩

end ArrayDeclaration

/-- The numbers of 32 bits at the beginning of texts, as pugixml reads them: another number is
replaced by the nearest one. -/
def readInteger (text : List Char) : Int :=
  let (negative, t) := splitSign (text.dropWhile isXmlSpace)
  let n := match Strtol.hexadecimal t with
    | some digits => signed negative (value 16 (digits.takeWhile (isDigit 16)))
    | none => signed negative (value 10 (t.takeWhile (isDigit 10)))
  max (-2 ^ 31) (min n (2 ^ 31 - 1))

theorem hexadecimal_of_isDigit {t : List Char} (h : ∀ c ∈ t, isDigit 10 c = true) :
  Strtol.hexadecimal t = none
  := by
  unfold Strtol.hexadecimal
  split
  · rename_i x c rest
    rw [if_neg]
    intro hx
    rw [Bool.and_eq_true, Bool.or_eq_true, decide_eq_true_eq, decide_eq_true_eq] at hx
    have hdigit := h x (by simp)
    rw [isDigit_ten_x hx.1] at hdigit
    contradiction
  · rfl

theorem readsIntegers_readInteger : ReadsIntegers readInteger
  := by
  constructor
  · intro text negative digits hsign ht hdigits hlow hhigh
    unfold readInteger
    rw [hsign]
    dsimp only
    rw [hexadecimal_of_isDigit hdigits, List.takeWhile_eq_self_iff.mpr hdigits]
    dsimp only
    omega
  · intro text negative t digits hsign ht hdigits hlow hhigh
    unfold readInteger
    rw [hsign]
    dsimp only
    rw [ht]
    dsimp only
    rw [List.takeWhile_eq_self_iff.mpr hdigits]
    omega

namespace ArrayDeclaration

/-- A size of ten elements. -/
theorem oneSize_iff_ten :
  (ofSize ⟨['1', '0'], List.all_eq_true.mp rfl⟩).OneSize readInteger
  := (oneSize_iff readsIntegers_readInteger (fun _ => none) _ (by decide)).mpr (by decide)

/-- The size `010` is 8 for the check, and 10 for the variable. -/
theorem not_oneSize :
  ¬ ∀ (asInt : List Char → Int), ReadsIntegers asInt →
    ∀ (checkExpression : InitialValueXml → Option ValueType) (decl : ArrayDeclaration),
      (decl.factoryCheck checkExpression).isOk = true → decl.maxSizeChild ≠ none →
      decl.OneSize asInt
  := by
  intro h
  obtain ⟨size, rest, hread, hexpression, -⟩ :=
    h readInteger readsIntegers_readInteger (fun _ => none)
      (ofSize ⟨['0', '1', '0'], List.all_eq_true.mp rfl⟩) (by decide) (by decide)
  have hsize : (8 : Int) = size := congrArg (fun r => r.1) (Except.ok.inj hread)
  have hten : (10 : Int) = size := Option.some.inj hexpression
  omega

end ArrayDeclaration

end Plexil.Xml

import Plexil.Compiler.StringLiteralNode
import Mathlib.Tactic.Ring

/-!
# String tokens

The rule `STRING` of the lexer takes a token apart into ordinary characters and escapes, the
longest one at each place.  The compiler takes every token apart in the same way; it decodes it
as long as all escapes denote code points.
-/

namespace Plexil.Compiler

/-! ### The lexer rule -/

/-- What stands between the quotes of a token: `~('"'|'\\')` and the alternatives of `Escape`. -/
inductive Piece where
  | ordinary (c : JavaChar)
  | simple (c : JavaChar)
  | unicodeEscape (digits : JavaString)
  | unicodeLongEscape (digits : JavaString)
  | hexEscape (digits : JavaString)
  | octalEscape (first : JavaChar) (more : JavaString)

/-- `'b' | 'f' | 'n' | 't' | '\n' | '\r' | '"' | '\'' | '\\'` -/
def simpleEscapes : JavaString :=
  [unit 'b', unit 'f', unit 'n', unit 't', unit '\n', unit '\r', unit '"', unit '\'', unit '\\']

/-- How many octal digits may follow the first one. -/
def octalLimit (first : JavaChar) : Nat := if isDigitBetween '0' '3' first then 2 else 1

namespace Piece

def text : Piece → JavaString
  | ordinary c => [c]
  | simple c => [unit '\\', c]
  | unicodeEscape digits => unit '\\' :: unit 'u' :: digits
  | unicodeLongEscape digits => unit '\\' :: unit 'U' :: digits
  | hexEscape digits => unit '\\' :: unit 'x' :: digits
  | octalEscape first more => unit '\\' :: first :: more

/-- The piece is one of those which the rule has. -/
def Matches (quote : JavaChar) : Piece → Prop
  | ordinary c => c ≠ quote ∧ c ≠ unit '\\'
  | simple c => c ∈ simpleEscapes
  | unicodeEscape digits => digits.length = 4 ∧ ∀ d ∈ digits, isHexDigit d = true
  | unicodeLongEscape digits => digits.length = 8 ∧ ∀ d ∈ digits, isHexDigit d = true
  | hexEscape digits => digits ≠ [] ∧ ∀ d ∈ digits, isHexDigit d = true
  | octalEscape first more => isOctalDigit first = true ∧ more.length ≤ octalLimit first ∧
    ∀ d ∈ more, isOctalDigit d = true

/-- The piece with another character in it, if the rule has it. -/
def extend (p : Piece) (c : JavaChar) : Option Piece :=
  match p with
  | hexEscape digits => if isHexDigit c then some (hexEscape (digits ++ [c])) else none
  | octalEscape first more =>
    if more.length < octalLimit first ∧ isOctalDigit c = true then
      some (octalEscape first (more ++ [c]))
    else none
  | _ => none

/-- The next character does not belong to the piece. -/
def Longest (rest : JavaString) (p : Piece) : Prop := ∀ c ∈ rest.head?, p.extend c = none

end Piece

/-- The text from a piece on, with the closing quote. -/
def tokenTail (quote : JavaChar) (pieces : List Piece) : JavaString :=
  pieces.flatMap Piece.text ++ [quote]

theorem tokenTail_cons (quote : JavaChar) (p : Piece) (pieces : List Piece) :
  tokenTail quote (p :: pieces) = p.text ++ tokenTail quote pieces
  := by
  simp [tokenTail]

/-- The lexer takes the text apart into the pieces. -/
def Lexes (quote : JavaChar) : List Piece → Prop
  | [] => True
  | p :: pieces => p.Matches quote ∧ p.Longest (tokenTail quote pieces) ∧ Lexes quote pieces

structure StringToken where
  quote : JavaChar
  isQuote : quote = unit '"' ∨ quote = unit '\''
  pieces : List Piece
  lexes : Lexes quote pieces

def StringToken.text (token : StringToken) : JavaString :=
  token.quote :: tokenTail token.quote token.pieces

/-! ### What the pieces denote -/

/-- The value of a hexadecimal digit. -/
def digitValue (c : JavaChar) : Nat :=
  if isDigitBetween '0' '9' c then c.toNat - 48
  else if isDigitBetween 'a' 'f' c then c.toNat - 87
  else c.toNat - 55

/-- The number which continues the digits of `n`. -/
def numberFrom (base n : Nat) (digits : JavaString) : Nat :=
  digits.foldl (fun n d => n * base + digitValue d) n

/-- The code point which a piece denotes. -/
def Piece.codePoint : Piece → Nat
  | ordinary c => c.toNat
  | simple c =>
    if c = unit 'b' then 8
    else if c = unit 'f' then 12
    else if c = unit 'n' then 10
    else if c = unit 't' then 9
    else c.toNat
  | unicodeEscape digits | unicodeLongEscape digits | hexEscape digits => numberFrom 16 0 digits
  | octalEscape first more => numberFrom 8 0 (first :: more)

/-- The code units of a code point. -/
def utf16 (n : Nat) : Option JavaString :=
  if n < 0x10000 then some [BitVec.ofNat 16 n]
  else if n ≤ 0x10FFFF then
    some [BitVec.ofNat 16 (0xD800 + (n - 0x10000) / 0x400),
      BitVec.ofNat 16 (0xDC00 + (n - 0x10000) % 0x400)]
  else none

def Piece.meaning (p : Piece) : Option JavaString := utf16 p.codePoint

/-- What the token means, when all its pieces denote code points. -/
def StringToken.meaning (token : StringToken) : Option JavaString :=
  (token.pieces.mapM Piece.meaning).map List.flatten

/-- The literal gets the value which the token means, or there is a diagnostic. -/
def StringToken.Decodes (token : StringToken) : Prop :=
  parseStringValue token.text = .ok none ∨
    ∃ value, parseStringValue token.text = .ok (some value) ∧ token.meaning = some value

/-! ### Digits -/

theorem isDigitBetween_iff {low high : Char} (hlow : low.toNat < 2 ^ 16)
    (hhigh : high.toNat < 2 ^ 16) (c : JavaChar) :
  isDigitBetween low high c = true ↔ low.toNat ≤ c.toNat ∧ c.toNat ≤ high.toNat
  := by
  simp only [isDigitBetween, unit, BitVec.le_def, BitVec.toNat_ofNat, Bool.and_eq_true,
    decide_eq_true_eq]
  rw [Nat.mod_eq_of_lt hlow, Nat.mod_eq_of_lt hhigh]

theorem isDecimalDigit_iff (c : JavaChar) :
  isDigitBetween '0' '9' c = true ↔ 48 ≤ c.toNat ∧ c.toNat ≤ 57
  := isDigitBetween_iff (by decide) (by decide) c

theorem isOctalDigit_iff (c : JavaChar) :
  isOctalDigit c = true ↔ 48 ≤ c.toNat ∧ c.toNat ≤ 55
  := isDigitBetween_iff (by decide) (by decide) c

theorem isHexDigit_iff (c : JavaChar) :
  isHexDigit c = true ↔ (isDigitBetween '0' '9' c = true ∨ isDigitBetween 'a' 'f' c = true) ∨
    isDigitBetween 'A' 'F' c = true
  := by
  rw [isHexDigit, Bool.or_eq_true, Bool.or_eq_true]

theorem isHexDigit_of_isOctalDigit {c : JavaChar} (h : isOctalDigit c = true) :
  isHexDigit c = true
  := by
  have h := (isOctalDigit_iff c).mp h
  rw [isHexDigit_iff, isDecimalDigit_iff]
  omega

/-! ### The longest pieces -/

/-- A hexadecimal digit is neither a quote nor a backslash. -/
theorem isHexDigit_ne {c quote : JavaChar} (hquote : quote = unit '"' ∨ quote = unit '\'')
    (hc : isHexDigit c = true) :
  c ≠ quote ∧ c ≠ unit '\\'
  := by
  constructor
  · rintro rfl
    obtain rfl | rfl := hquote <;> exact absurd hc (by decide)
  · rintro rfl
    exact absurd hc (by decide)

theorem Piece.extend_spec {p p' : Piece} {c quote : JavaChar} (hmatches : p.Matches quote)
    (h : p.extend c = some p') :
  isHexDigit c = true ∧ p'.Matches quote ∧ p'.text = p.text ++ [c]
  := by
  cases p with
  | hexEscape digits =>
    rw [extend, Option.ite_none_right_eq_some] at h
    obtain ⟨hc, hp'⟩ := h
    cases hp'
    refine ⟨hc, ⟨List.append_ne_nil_of_right_ne_nil _ (List.cons_ne_nil _ _), ?_⟩, rfl⟩
    exact List.forall_mem_append.mpr ⟨hmatches.2, by simpa using hc⟩
  | octalEscape first more =>
    rw [extend, Option.ite_none_right_eq_some] at h
    obtain ⟨⟨hlength, hc⟩, hp'⟩ := h
    cases hp'
    obtain ⟨hfirst, -, hmore⟩ := hmatches
    refine ⟨isHexDigit_of_isOctalDigit hc, ⟨hfirst, ?_, ?_⟩, rfl⟩
    · rw [List.length_append]
      exact hlength
    · exact List.forall_mem_append.mpr ⟨hmore, by simpa using hc⟩
  | _ => cases h

/-- Where the text of pieces begins neither with a backslash nor with the closing quote, the first
piece is an ordinary character. -/
theorem exists_ordinary {quote c : JavaChar} {pieces : List Piece} (hquote : c ≠ quote)
    (hbackslash : c ≠ unit '\\') (h : c ∈ (tokenTail quote pieces).head?) :
  ∃ rest, pieces = .ordinary c :: rest
  := by
  cases pieces with
  | nil =>
    obtain rfl : quote = c := by simpa [tokenTail] using h
    exact absurd rfl hquote
  | cons p rest =>
    rw [tokenTail_cons] at h
    cases p with
    | ordinary c' =>
      obtain rfl : c' = c := by simpa [Piece.text] using h
      exact ⟨rest, rfl⟩
    | _ =>
      obtain rfl : unit '\\' = c := by simpa [Piece.text] using h
      exact absurd rfl hbackslash

/-- A piece in front takes the digits which belong to it. -/
theorem exists_lexes_cons {quote : JavaChar} (hquote : quote = unit '"' ∨ quote = unit '\'')
    {p : Piece} {pieces : List Piece} (hmatches : p.Matches quote) (hlexes : Lexes quote pieces) :
  ∃ pieces', Lexes quote pieces' ∧ tokenTail quote pieces' = p.text ++ tokenTail quote pieces
  := by
  induction pieces generalizing p with
  | nil =>
    refine ⟨[p], ⟨hmatches, ?_, trivial⟩, tokenTail_cons _ _ _⟩
    intro c hc
    by_contra hextend
    obtain ⟨p', hp'⟩ := Option.ne_none_iff_exists'.mp hextend
    obtain ⟨hquote', hbackslash⟩ := isHexDigit_ne hquote (Piece.extend_spec hmatches hp').1
    obtain ⟨rest, hrest⟩ := exists_ordinary hquote' hbackslash hc
    cases hrest
  | cons first pieces ih =>
    by_cases hlongest : p.Longest (tokenTail quote (first :: pieces))
    · exact ⟨p :: first :: pieces, ⟨hmatches, hlongest, hlexes⟩, tokenTail_cons _ _ _⟩
    · -- the first piece is a digit, which belongs to the piece in front
      simp only [Piece.Longest, not_forall] at hlongest
      obtain ⟨c, hc, hextend⟩ := hlongest
      obtain ⟨p', hp'⟩ := Option.ne_none_iff_exists'.mp hextend
      obtain ⟨hdigit, hmatches', htext⟩ := Piece.extend_spec hmatches hp'
      obtain ⟨hquote', hbackslash⟩ := isHexDigit_ne hquote hdigit
      obtain ⟨rest, hrest⟩ := exists_ordinary hquote' hbackslash hc
      cases hrest
      obtain ⟨pieces', hlexes', htail⟩ := ih hmatches' hlexes.2.2
      refine ⟨pieces', hlexes', ?_⟩
      rw [htail, htext, tokenTail_cons, List.append_assoc]
      rfl

/-- Every text which the rule accepts is that of a token. -/
theorem exists_token {quote : JavaChar} (hquote : quote = unit '"' ∨ quote = unit '\'')
    {pieces : List Piece} (hmatches : ∀ p ∈ pieces, p.Matches quote) :
  ∃ token : StringToken, token.text = quote :: tokenTail quote pieces
  := by
  have hlexes : ∃ pieces', Lexes quote pieces' ∧
      tokenTail quote pieces' = tokenTail quote pieces := by
    induction pieces with
    | nil => exact ⟨[], trivial, rfl⟩
    | cons p pieces ih =>
      rw [List.forall_mem_cons] at hmatches
      obtain ⟨pieces', hlexes, htail⟩ := ih hmatches.2
      obtain ⟨pieces'', hlexes', htail'⟩ := exists_lexes_cons hquote hmatches.1 hlexes
      exact ⟨pieces'', hlexes', by rw [htail', htail, tokenTail_cons]⟩
  obtain ⟨pieces', hlexes', htail⟩ := hlexes
  exact ⟨⟨quote, hquote, pieces', hlexes'⟩, congrArg (quote :: ·) htail⟩

/-! ### Numbers -/

theorem toNat_digitToInt {c : JavaChar} (h : isHexDigit c = true) :
  (digitToInt c).toNat = digitValue c
  := by
  have hlower : isDigitBetween 'a' 'f' c = true ↔ 97 ≤ c.toNat ∧ c.toNat ≤ 102 :=
    isDigitBetween_iff (by decide) (by decide) c
  have hupper : isDigitBetween 'A' 'F' c = true ↔ 65 ≤ c.toNat ∧ c.toNat ≤ 70 :=
    isDigitBetween_iff (by decide) (by decide) c
  have hc := c.isLt
  rw [isHexDigit_iff] at h
  unfold digitToInt digitValue
  simp only [isDecimalDigit_iff, hlower, hupper] at h ⊢
  split_ifs with hdecimal h' h''
  · simp only [unit, BitVec.toNat_setWidth, BitVec.toNat_sub]
    simp
    omega
  · simp [BitVec.toNat_sub, unit]
    omega
  · simp [BitVec.toNat_sub, unit]
    omega
  · omega

/-- Another digit, in the arithmetic of an `int`. -/
theorem ofNat_digit (base n : Nat) {d : JavaChar} (h : isHexDigit d = true) :
  BitVec.ofNat 32 n * BitVec.ofNat 32 base + digitToInt d =
    BitVec.ofNat 32 (n * base + digitValue d)
  := by
  rw [BitVec.ofNat_add, BitVec.ofNat_mul, ← toNat_digitToInt h, BitVec.ofNat_toNat,
    BitVec.setWidth_eq]

theorem octalDigits_eq {limit n : Nat} {digits rest : JavaString} (hlimit : digits.length ≤ limit)
    (hdigits : ∀ d ∈ digits, isOctalDigit d = true)
    (hrest : digits.length < limit → ∀ c ∈ rest.head?, isOctalDigit c = false)
    (hne : rest ≠ []) :
  octalDigits limit (BitVec.ofNat 32 n) (digits ++ rest) =
    .ok (BitVec.ofNat 32 (numberFrom 8 n digits), rest)
  := by
  induction limit generalizing n digits with
  | zero =>
    obtain rfl := List.length_eq_zero_iff.mp (Nat.le_zero.mp hlimit)
    rfl
  | succ limit ih =>
    cases digits with
    | nil =>
      obtain ⟨c, rest, rfl⟩ := List.exists_cons_of_ne_nil hne
      have hc := hrest (Nat.succ_pos _) c rfl
      simp [octalDigits, charAt, hc, bind, Except.bind, numberFrom, pure, Except.pure]
    | cons d digits =>
      have hd := hdigits d (by simp)
      have hih := @ih (n * 8 + digitValue d) digits (by simpa using hlimit)
        (fun d' hd' => hdigits d' (by simp [hd'])) (fun h => hrest (by simpa using h))
      rw [← ofNat_digit 8 n (isHexDigit_of_isOctalDigit hd)] at hih
      simp only [octalDigits, charAt, List.cons_append, bind, Except.bind, hd, if_true]
      exact hih

theorem unicodeDigits_eq {n : Nat} {digits : JavaString}
    (hdigits : ∀ d ∈ digits, isHexDigit d = true) (rest : JavaString) :
  unicodeDigits digits.length (BitVec.ofNat 32 n) (digits ++ rest) =
    .ok (some (BitVec.ofNat 32 (numberFrom 16 n digits), rest))
  := by
  induction digits generalizing n with
  | nil => rfl
  | cons d digits ih =>
    have hd := hdigits d (by simp)
    have hih := ih (n := n * 16 + digitValue d) fun d' hd' => hdigits d' (by simp [hd'])
    rw [← ofNat_digit 16 n hd] at hih
    simp only [unicodeDigits, charAt, List.cons_append, List.length_cons, bind, Except.bind, hd,
      if_true]
    exact hih

theorem hexDigits_eq {n : Nat} {digits rest : JavaString}
    (hdigits : ∀ d ∈ digits, isHexDigit d = true)
    (hrest : ∀ c ∈ rest.head?, isHexDigit c = false) (hne : rest ≠ []) :
  hexDigits (BitVec.ofNat 32 n) (digits ++ rest) =
    .ok (BitVec.ofNat 32 (numberFrom 16 n digits), rest)
  := by
  induction digits generalizing n with
  | nil =>
    obtain ⟨c, rest, rfl⟩ := List.exists_cons_of_ne_nil hne
    have hc := hrest c rfl
    simp [hexDigits, hc, numberFrom]
  | cons d digits ih =>
    have hd := hdigits d (by simp)
    have hih := ih (n := n * 16 + digitValue d) fun d' hd' => hdigits d' (by simp [hd'])
    rw [← ofNat_digit 16 n hd] at hih
    simp only [hexDigits, List.cons_append, hd, if_true]
    exact hih

/-! ### One piece -/

/-- What is appended for a piece. -/
def Piece.decode (p : Piece) : Except JavaException JavaString :=
  appendCodePoint (BitVec.ofNat 32 p.codePoint)

theorem appendCodePoint_of_lt {n : Nat} (h : n < 0x10000) :
  appendCodePoint (BitVec.ofNat 32 n) = .ok [BitVec.ofNat 16 n]
  := by
  have hshift : BitVec.ofNat 32 n >>> 16 = 0 := by
    apply BitVec.eq_of_toNat_eq
    simp [Nat.shiftRight_eq_div_pow]
    omega
  rw [appendCodePoint, if_pos hshift, BitVec.setWidth_ofNat_of_le (by decide)]

theorem numberFrom_lt {base : Nat} {digits : JavaString}
    (h : ∀ d ∈ digits, digitValue d < base) (n : Nat) :
  numberFrom base n digits < (n + 1) * base ^ digits.length
  := by
  induction digits generalizing n with
  | nil => simp [numberFrom]
  | cons d digits ih =>
    have hd := h d (by simp)
    calc numberFrom base n (d :: digits)
        = numberFrom base (n * base + digitValue d) digits := rfl
      _ < (n * base + digitValue d + 1) * base ^ digits.length :=
        ih (fun d' hd' => h d' (by simp [hd'])) _
      _ ≤ (n + 1) * base * base ^ digits.length := by
        apply Nat.mul_le_mul_right
        rw [Nat.succ_mul]
        omega
      _ = (n + 1) * base ^ (d :: digits).length := by
        rw [List.length_cons, Nat.pow_succ', Nat.mul_assoc]

theorem digitValue_lt_of_isOctalDigit {d : JavaChar} (h : isOctalDigit d = true) :
  digitValue d < 8
  := by
  have h := (isOctalDigit_iff d).mp h
  rw [digitValue, if_pos ((isDecimalDigit_iff d).mpr (by omega))]
  omega

theorem octal_codePoint_lt {first : JavaChar} {more : JavaString} {quote : JavaChar}
    (h : (Piece.octalEscape first more).Matches quote) :
  (Piece.octalEscape first more).codePoint < 0x10000
  := by
  obtain ⟨hfirst, hlength, hmore⟩ := h
  have hdigits : ∀ d ∈ first :: more, digitValue d < 8 := by
    rw [List.forall_mem_cons]
    exact ⟨digitValue_lt_of_isOctalDigit hfirst,
      fun d hd => digitValue_lt_of_isOctalDigit (hmore d hd)⟩
  have hlimit : more.length ≤ 2 := by
    unfold octalLimit at hlength
    split at hlength <;> omega
  calc numberFrom 8 0 (first :: more)
      < (0 + 1) * 8 ^ (first :: more).length := numberFrom_lt hdigits 0
    _ ≤ (0 + 1) * 8 ^ 3 := by
      apply Nat.mul_le_mul_left
      exact Nat.pow_le_pow_right (by decide) (Nat.succ_le_succ hlimit)
    _ ≤ 0x10000 := by decide

theorem Piece.Longest.octalDigits {first : JavaChar} {more rest : JavaString}
    (h : (Piece.octalEscape first more).Longest rest) (hlength : more.length < octalLimit first) :
  ∀ c ∈ rest.head?, isOctalDigit c = false
  := by
  intro c hc
  have hnone := h c hc
  rw [extend, ite_eq_right_iff] at hnone
  by_contra hdigit
  cases hnone ⟨hlength, by simpa using hdigit⟩

theorem Piece.Longest.hexDigits {digits rest : JavaString}
    (h : (Piece.hexEscape digits).Longest rest) :
  ∀ c ∈ rest.head?, isHexDigit c = false
  := by
  intro c hc
  have hnone := h c hc
  rw [extend, ite_eq_right_iff] at hnone
  by_contra hdigit
  cases hnone (by simpa using hdigit)

/-- The first digit as the start of the number. -/
theorem digitToInt_eq (base : Nat) {d : JavaChar} (h : isHexDigit d = true) :
  digitToInt d = BitVec.ofNat 32 (0 * base + digitValue d)
  := by
  rw [← ofNat_digit base 0 h]
  simp

theorem parseEscape_octal {first : JavaChar} {more rest : JavaString}
    (h : (Piece.octalEscape first more).Matches (unit '"'))
    (hlongest : (Piece.octalEscape first more).Longest rest) (hne : rest ≠ []) :
  parseEscape (first :: (more ++ rest)) =
    .ok (some ([BitVec.ofNat 16 (numberFrom 8 0 (first :: more))], rest))
  := by
  obtain ⟨hfirst, hlength, hmore⟩ := h
  have hread := octalDigits_eq (n := 0 * 8 + digitValue first) hlength hmore
    (hlongest.octalDigits) hne
  rw [← digitToInt_eq 8 (isHexDigit_of_isOctalDigit hfirst), octalLimit] at hread
  have hcode : (BitVec.ofNat 32 (numberFrom 8 (0 * 8 + digitValue first) more)).setWidth 16 =
      BitVec.ofNat 16 (numberFrom 8 0 (first :: more)) :=
    BitVec.setWidth_ofNat_of_le (by decide) _
  by_cases hlow : isDigitBetween '0' '3' first = true
  · rw [if_pos hlow] at hread
    simp only [parseEscape, charAt, bind, Except.bind, hlow, if_true, hread, hcode, pure,
      Except.pure]
  · have hhigh : isDigitBetween '4' '7' first = true := by
      have hlow' := @isDigitBetween_iff '0' '3' (by decide) (by decide) first
      have hdigit := (isOctalDigit_iff first).mp hfirst
      apply (isDigitBetween_iff (by decide) (by decide) first).mpr
      rw [hlow'] at hlow
      simp only [Char.reduceToNat] at hlow ⊢
      omega
    rw [if_neg hlow] at hread
    simp only [parseEscape, charAt, bind, Except.bind, if_neg hlow, if_pos hhigh, hread, hcode,
      pure, Except.pure]

theorem bind_pure_map {α β : Type} (x : Except JavaException α) (f : α → β) :
  (x >>= fun a => pure (f a)) = x.map f
  := by
  cases x <;> rfl

theorem unicodeEscape_eq {digits : JavaString} (hdigits : ∀ d ∈ digits, isHexDigit d = true)
    (rest : JavaString) :
  unicodeEscape digits.length (digits ++ rest) =
    (appendCodePoint (BitVec.ofNat 32 (numberFrom 16 0 digits))).map fun chars =>
      some (chars, rest)
  := by
  have hread : unicodeDigits digits.length 0 (digits ++ rest) = _ :=
    unicodeDigits_eq (n := 0) hdigits rest
  unfold unicodeEscape
  rw [hread]
  exact bind_pure_map _ _

theorem parseEscape_hex {digits rest : JavaString}
    (h : (Piece.hexEscape digits).Matches (unit '"'))
    (hlongest : (Piece.hexEscape digits).Longest rest) (hne : rest ≠ []) :
  parseEscape (unit 'x' :: (digits ++ rest)) =
    (appendCodePoint (BitVec.ofNat 32 (numberFrom 16 0 digits))).map fun chars =>
      some (chars, rest)
  := by
  obtain ⟨hdigits_ne, hdigits⟩ := h
  obtain ⟨d, digits, rfl⟩ := List.exists_cons_of_ne_nil hdigits_ne
  have hd := hdigits d (by simp)
  have hread := @hexDigits_eq (0 * 16 + digitValue d) digits rest
    (fun d' hd' => hdigits d' (by simp [hd'])) hlongest.hexDigits hne
  rw [← digitToInt_eq 16 hd] at hread
  have hescape : parseEscape (unit 'x' :: (d :: digits ++ rest)) =
      if isHexDigit d then do
        let read ← hexDigits (digitToInt d) (digits ++ rest)
        return some (← appendCodePoint read.1, read.2)
      else .ok none := rfl
  rw [hescape, if_pos hd, hread]
  exact bind_pure_map _ _

theorem parseEscape_eq {p : Piece} {quote : JavaChar} {rest : JavaString}
    (hmatches : p.Matches quote) (hlongest : p.Longest rest) (hne : rest ≠ [])
    (hescape : ∀ c, p ≠ .ordinary c) :
  parseEscape (p.text.tail ++ rest) = p.decode.map fun chars => some (chars, rest)
  := by
  cases p with
  | ordinary c => exact absurd rfl (hescape c)
  | simple c =>
    have hc : c ∈ simpleEscapes := hmatches
    simp only [simpleEscapes, List.mem_cons, List.not_mem_nil, or_false] at hc
    rcases hc with rfl | rfl | rfl | rfl | rfl | rfl | rfl | rfl | rfl <;> rfl
  | unicodeEscape digits =>
    obtain ⟨hlength, hdigits⟩ := hmatches
    have hread := unicodeEscape_eq hdigits rest
    rw [hlength] at hread
    exact hread
  | unicodeLongEscape digits =>
    obtain ⟨hlength, hdigits⟩ := hmatches
    have hread := unicodeEscape_eq hdigits rest
    rw [hlength] at hread
    exact hread
  | hexEscape digits => exact parseEscape_hex hmatches hlongest hne
  | octalEscape first more =>
    have hcode : (Piece.octalEscape first more).codePoint < 0x10000 := octal_codePoint_lt hmatches
    rw [Piece.decode, appendCodePoint_of_lt hcode]
    exact parseEscape_octal hmatches hlongest hne

/-! ### The loop -/

theorem tokenTail_ne_nil (quote : JavaChar) (pieces : List Piece) :
  tokenTail quote pieces ≠ []
  := List.append_ne_nil_of_right_ne_nil _ (List.cons_ne_nil _ _)

theorem parseStringLoop_nil (quote : JavaChar) (myContent : JavaString) :
  parseStringLoop quote [] myContent = .ok (some myContent)
  := by
  rw [parseStringLoop, if_pos rfl]

/-- One pass of the loop. -/
theorem parseStringLoop_step (quote : JavaChar) {text : JavaString} (htext : text ≠ [])
    (myContent : JavaString) :
  parseStringLoop quote text myContent =
    if unit '\\' ∈ text then do
      match ← parseEscape (text.dropWhile (· ≠ unit '\\')).tail with
      | none => return none
      | some (chars, rest) =>
        parseStringLoop quote rest (myContent ++ text.takeWhile (· ≠ unit '\\') ++ chars)
    else if quote ∈ text then
      parseStringLoop quote (text.dropWhile (· ≠ quote)).tail
        (myContent ++ text.takeWhile (· ≠ quote))
    else .ok none
  := by
  rw [parseStringLoop, if_neg htext]
  by_cases hbackslash : unit '\\' ∈ text
  · rw [if_pos hbackslash, if_pos hbackslash]
    dsimp only
    split
    case h_1 e h | h_2 h | h_3 chars rest h =>
      rw [h]
      rfl
  · rw [if_neg hbackslash, if_neg hbackslash]

/-- The closing quote. -/
theorem parseStringLoop_quote {quote : JavaChar} (hquote : quote ≠ unit '\\')
    (myContent : JavaString) :
  parseStringLoop quote [quote] myContent = .ok (some myContent)
  := by
  rw [parseStringLoop_step quote (List.cons_ne_nil _ _), if_neg (by simpa using hquote.symm),
    if_pos (by simp)]
  simp [parseStringLoop_nil]

/-- An ordinary character is copied. -/
theorem parseStringLoop_ordinary {quote c : JavaChar} (hquote : c ≠ quote)
    (hbackslash : c ≠ unit '\\') {text : JavaString} (htext : text ≠ [])
    (myContent : JavaString) :
  parseStringLoop quote (c :: text) myContent = parseStringLoop quote text (myContent ++ [c])
  := by
  rw [parseStringLoop_step quote (List.cons_ne_nil _ _), parseStringLoop_step quote htext]
  simp [hquote, hbackslash, hquote.symm, hbackslash.symm]

/-- An escape is replaced. -/
theorem parseStringLoop_escape (quote : JavaChar) (text myContent : JavaString) :
  parseStringLoop quote (unit '\\' :: text) myContent = (do
    match ← parseEscape text with
    | none => return none
    | some (chars, rest) => parseStringLoop quote rest (myContent ++ chars))
  := by
  rw [parseStringLoop_step quote (List.cons_ne_nil _ _), if_pos (by simp)]
  simp

/-- Escapes begin with a backslash. -/
theorem Piece.text_escape {p : Piece} (hescape : ∀ c, p ≠ .ordinary c) :
  p.text = unit '\\' :: p.text.tail
  := by
  cases p with
  | ordinary c => exact absurd rfl (hescape c)
  | _ => rfl

theorem parseStringLoop_eq {quote : JavaChar} (hquote : quote ≠ unit '\\') {pieces : List Piece}
    (hlexes : Lexes quote pieces) (myContent : JavaString) :
  parseStringLoop quote (tokenTail quote pieces) myContent =
    (pieces.mapM Piece.decode).map fun chars => some (myContent ++ chars.flatten)
  := by
  induction pieces generalizing myContent with
  | nil =>
    rw [tokenTail, List.flatMap_nil, List.nil_append, parseStringLoop_quote hquote]
    simp [pure, Except.pure, Except.map]
  | cons p pieces ih =>
    obtain ⟨hmatches, hlongest, hlexes⟩ := hlexes
    have hne := tokenTail_ne_nil quote pieces
    rw [tokenTail_cons, List.mapM_cons]
    by_cases hordinary : ∃ c, p = .ordinary c
    · obtain ⟨c, rfl⟩ := hordinary
      have hdecode : (Piece.ordinary c).decode = .ok [c] :=
        (appendCodePoint_of_lt c.isLt).trans (by rw [BitVec.ofNat_toNat, BitVec.setWidth_eq])
      have hloop := parseStringLoop_ordinary hmatches.1 hmatches.2 hne myContent
      rw [ih hlexes] at hloop
      rw [hdecode]
      apply hloop.trans
      cases pieces.mapM Piece.decode with
      | error e => rfl
      | ok chars => simp [bind, Except.bind, pure, Except.pure, Except.map]
    · have hescape : ∀ c, p ≠ .ordinary c := by simpa using hordinary
      rw [Piece.text_escape hescape, List.cons_append, parseStringLoop_escape,
        parseEscape_eq hmatches hlongest hne hescape]
      cases p.decode with
      | error e => rfl
      | ok chars =>
        have hrest := ih hlexes (myContent ++ chars)
        simp only [Except.map, bind, Except.bind]
        rw [hrest]
        cases pieces.mapM Piece.decode with
        | error e => rfl
        | ok chars => simp [pure, Except.pure, Except.map]

/-! ### Tokens -/

namespace StringToken

variable (token : StringToken)

theorem quote_ne :
  token.quote ≠ unit '\\'
  := by
  obtain h | h := token.isQuote
  · rw [h]
    decide
  · rw [h]
    decide

/-- The pieces of a token are decoded one after the other. -/
theorem parseStringValue_eq :
  parseStringValue token.text =
    (token.pieces.mapM Piece.decode).map fun chars => some chars.flatten
  := by
  have hquotes : ¬(token.quote ≠ unit '\'' ∧ token.quote ≠ unit '"') := by
    rintro ⟨hsingle, hdouble⟩
    exact token.isQuote.elim hdouble hsingle
  have hlast : ¬ some token.quote ≠ token.text.getLast? := by
    simp [text, tokenTail, List.getLast?_cons]
  calc parseStringValue token.text
    _ = if token.quote ≠ unit '\'' ∧ token.quote ≠ unit '"' then .ok none
        else if some token.quote ≠ token.text.getLast? then .ok none
        else parseStringLoop token.quote (tokenTail token.quote token.pieces) [] := rfl
    _ = parseStringLoop token.quote (tokenTail token.quote token.pieces) [] := by
      rw [if_neg hquotes, if_neg hlast]
    _ = _ := parseStringLoop_eq token.quote_ne token.lexes []

end StringToken

/-- The code units which are appended are those of the code point. -/
theorem appendCodePoint_eq {n : Nat} (h : n ≤ 0x10FFFF) :
  ∃ chars, utf16 n = some chars ∧ appendCodePoint (BitVec.ofNat 32 n) = .ok chars
  := by
  by_cases hlt : n < 0x10000
  · exact ⟨_, if_pos hlt, appendCodePoint_of_lt hlt⟩
  · refine ⟨_, (if_neg hlt).trans (if_pos h), ?_⟩
    have hn : (BitVec.ofNat 32 n).toNat = n := by
      rw [BitVec.toNat_ofNat]
      omega
    have hplane : (BitVec.ofNat 32 n >>> 16).toNat = n / 2 ^ 16 := by
      rw [BitVec.toNat_ushiftRight, hn, Nat.shiftRight_eq_div_pow]
    have hsupplementary : ¬ BitVec.ofNat 32 n >>> 16 = 0 := by
      intro hzero
      rw [hzero] at hplane
      simp at hplane
      omega
    have hvalid : BitVec.ofNat 32 n >>> 16 < 0x11 := by
      rw [BitVec.lt_def, hplane]
      simp
      omega
    have hhigh : ((BitVec.ofNat 32 n >>> 10) + 0xD7C0).setWidth 16 =
        BitVec.ofNat 16 (0xD800 + (n - 0x10000) / 0x400) := by
      apply BitVec.eq_of_toNat_eq
      rw [BitVec.toNat_setWidth, BitVec.toNat_add, BitVec.toNat_ushiftRight, hn,
        Nat.shiftRight_eq_div_pow, BitVec.toNat_ofNat]
      simp
      omega
    have hlow : ((BitVec.ofNat 32 n &&& 0x3FF) + 0xDC00).setWidth 16 =
        BitVec.ofNat 16 (0xDC00 + (n - 0x10000) % 0x400) := by
      have hmask : (BitVec.ofNat 32 n &&& 0x3FF).toNat = n % 2 ^ 10 := by
        rw [BitVec.toNat_and, hn]
        exact Nat.and_two_pow_sub_one_eq_mod n 10
      apply BitVec.eq_of_toNat_eq
      rw [BitVec.toNat_setWidth, BitVec.toNat_add, hmask, BitVec.toNat_ofNat]
      simp
      omega
    rw [appendCodePoint, if_neg hsupplementary, if_pos hvalid, hhigh, hlow]

theorem utf16_isSome_iff (n : Nat) :
  (utf16 n).isSome = true ↔ n ≤ 0x10FFFF
  := by
  unfold utf16
  split_ifs with hlt h
  · simp
    omega
  · simpa using h
  · simpa using h

theorem mapM_meaning {pieces : List Piece} (h : ∀ p ∈ pieces, p.codePoint ≤ 0x10FFFF) :
  ∃ chars, pieces.mapM Piece.meaning = some chars ∧ pieces.mapM Piece.decode = .ok chars
  := by
  induction pieces with
  | nil => exact ⟨[], rfl, rfl⟩
  | cons p pieces ih =>
    rw [List.forall_mem_cons] at h
    obtain ⟨chars, hmeaning, hdecode⟩ := appendCodePoint_eq h.1
    obtain ⟨rest, hmeaning', hdecode'⟩ := ih h.2
    refine ⟨chars :: rest, ?_, ?_⟩
    · simp [List.mapM_cons, Piece.meaning, hmeaning, hmeaning']
    · rw [List.mapM_cons, Piece.decode, hdecode, hdecode']
      rfl

theorem codePoint_le_of_mapM {pieces : List Piece} {chars : List JavaString}
    (h : pieces.mapM Piece.meaning = some chars) :
  ∀ p ∈ pieces, p.codePoint ≤ 0x10FFFF
  := by
  induction pieces generalizing chars with
  | nil => simp
  | cons p pieces ih =>
    simp only [List.mapM_cons, Option.bind_eq_bind, Option.bind_eq_some_iff] at h
    obtain ⟨code, hcode, rest, hrest, -⟩ := h
    rw [List.forall_mem_cons]
    refine ⟨(utf16_isSome_iff _).mp ?_, ih hrest⟩
    exact Option.isSome_iff_exists.mpr ⟨code, hcode⟩

/-- A token is decoded as the lexer reads it exactly when its escapes denote code points. -/
theorem decodes_iff (token : StringToken) :
  token.Decodes ↔ ∀ p ∈ token.pieces, p.codePoint ≤ 0x10FFFF
  := by
  constructor
  · rintro (hdiagnostic | ⟨value, -, hmeaning⟩)
    · rw [token.parseStringValue_eq, Except.map_eq_ok] at hdiagnostic
      obtain ⟨chars, -, hchars⟩ := hdiagnostic
      cases hchars
    · obtain ⟨chars, hchars, -⟩ := Option.map_eq_some_iff.mp hmeaning
      exact codePoint_le_of_mapM hchars
  · intro h
    obtain ⟨chars, hmeaning, hdecode⟩ := mapM_meaning h
    right
    refine ⟨chars.flatten, ?_, ?_⟩
    · rw [token.parseStringValue_eq, hdecode]
      rfl
    · rw [StringToken.meaning, hmeaning]
      rfl

/-- The escape `\x110000` in a token. -/
def beyondUnicode : StringToken where
  quote := unit '"'
  isQuote := .inl rfl
  pieces := [.hexEscape [unit '1', unit '1', unit '0', unit '0', unit '0', unit '0']]
  lexes := by
    refine ⟨⟨List.cons_ne_nil _ _, List.all_eq_true.mp (by decide)⟩, ?_, trivial⟩
    simp only [Piece.Longest, tokenTail, List.flatMap_nil, List.nil_append, List.head?_cons,
      Option.mem_some_iff, forall_eq']
    rfl

/-- There is no diagnostic for a number which is not that of a code point. -/
theorem not_decodes :
  ¬ ∀ token : StringToken, token.Decodes
  := by
  intro h
  have hthrows : parseStringValue beyondUnicode.text = .error .illegalArgument := by
    rw [StringToken.parseStringValue_eq]
    rfl
  obtain hdiagnostic | ⟨value, hvalue, -⟩ := h beyondUnicode
  · rw [hthrows] at hdiagnostic
    cases hdiagnostic
  · rw [hthrows] at hvalue
    cases hvalue

end Plexil.Compiler

import Plexil.Util.Exceptions
import Mathlib.Data.List.TakeWhile

/-!
# String literals

The compiler takes the text of a `STRING` token apart a second time to replace its escapes.  A
position in the text is given by what is left of the text from there on.  An `int` is a
`BitVec 32`, and a Java string is the list of its code units.
-/

namespace Plexil.Compiler

abbrev JavaChar := BitVec 16

abbrev JavaString := List JavaChar

inductive JavaException where
  | stringIndexOutOfBounds
  | illegalArgument
  deriving DecidableEq

/-- A character literal. -/
def unit (c : Char) : JavaChar := BitVec.ofNat 16 c.toNat

/-! ### Digits -/

def isDigitBetween (low high : Char) (c : JavaChar) : Bool := unit low ≤ c && c ≤ unit high

def isOctalDigit (c : JavaChar) : Bool := isDigitBetween '0' '7' c

def isHexDigit (c : JavaChar) : Bool :=
  isDigitBetween '0' '9' c || isDigitBetween 'a' 'f' c || isDigitBetween 'A' 'F' c

/-- The value of a digit; -1 is for what is not a digit. -/
def digitToInt (c : JavaChar) : BitVec 32 :=
  if isDigitBetween '0' '9' c then (c - unit '0').setWidth 32
  else if isDigitBetween 'a' 'f' c then (c - unit 'a').setWidth 32 + 10
  else if isDigitBetween 'A' 'F' c then (c - unit 'A').setWidth 32 + 10
  else -1

/-! ### Escapes -/

/-- `charAt` of the next index. -/
def charAt : JavaString → Except JavaException (JavaChar × JavaString)
  | [] => .error .stringIndexOutOfBounds
  | c :: text => .ok (c, text)

/-- Up to `n` more octal digits. -/
def octalDigits : Nat → BitVec 32 → JavaString → Except JavaException (BitVec 32 × JavaString)
  | 0, charcode, text => .ok (charcode, text)
  | n + 1, charcode, text => do
    let (escaped, rest) ← charAt text
    if isOctalDigit escaped then octalDigits n (charcode * 8 + digitToInt escaped) rest
    else return (charcode, text)

/-- Exactly `n` hexadecimal digits; there is a diagnostic when one is missing. -/
def unicodeDigits :
    Nat → BitVec 32 → JavaString → Except JavaException (Option (BitVec 32 × JavaString))
  | 0, charcode, text => .ok (some (charcode, text))
  | n + 1, charcode, text => do
    let (hex, rest) ← charAt text
    if isHexDigit hex then unicodeDigits n (charcode * 16 + digitToInt hex) rest
    else return none

/-- All hexadecimal digits which follow. -/
def hexDigits : BitVec 32 → JavaString → Except JavaException (BitVec 32 × JavaString)
  | _, [] => .error .stringIndexOutOfBounds
  | charcode, hex :: text =>
    if isHexDigit hex then hexDigits (charcode * 16 + digitToInt hex) text
    else .ok (charcode, hex :: text)

/-- `StringBuilder.appendCodePoint` of the Java library: what it appends. -/
def appendCodePoint (codePoint : BitVec 32) : Except JavaException JavaString :=
  if codePoint >>> 16 = 0 then .ok [codePoint.setWidth 16]
  else if codePoint >>> 16 < 0x11 then
    .ok [((codePoint >>> 10) + 0xD7C0).setWidth 16, ((codePoint &&& 0x3FF) + 0xDC00).setWidth 16]
  else .error .illegalArgument

/-- An escape by the number of a code point. -/
def unicodeEscape (n : Nat) (text : JavaString) :
    Except JavaException (Option (JavaString × JavaString)) := do
  match ← unicodeDigits n 0 text with
  | none => return none
  | some (charcode, text) => return some (← appendCodePoint charcode, text)

/-- What is appended for the escape behind a backslash, and the text behind the escape; there is
neither when it reports a diagnostic. -/
def parseEscape (text : JavaString) : Except JavaException (Option (JavaString × JavaString)) := do
  let (escaped, text) ← charAt text
  if isDigitBetween '0' '3' escaped then
    let (charcode, text) ← octalDigits 2 (digitToInt escaped) text
    return some ([charcode.setWidth 16], text)
  else if isDigitBetween '4' '7' escaped then
    let (charcode, text) ← octalDigits 1 (digitToInt escaped) text
    return some ([charcode.setWidth 16], text)
  else if escaped = unit 'U' then unicodeEscape 8 text
  else if escaped = unit 'b' then return some ([unit '\x08'], text)
  else if escaped = unit 'f' then return some ([unit '\x0c'], text)
  else if escaped = unit 'n' then return some ([unit '\n'], text)
  else if escaped = unit 't' then return some ([unit '\t'], text)
  else if escaped = unit 'u' then unicodeEscape 4 text
  else if escaped = unit 'x' then
    let (hex, text) ← charAt text
    if isHexDigit hex then
      let (charcode, text) ← hexDigits (digitToInt hex) text
      return some (← appendCodePoint charcode, text)
    else return none
  -- verbatim (includes backslash, single quote, double quote)
  else return some ([escaped], text)

theorem charAt_length {text rest : JavaString} {c : JavaChar} (h : charAt text = .ok (c, rest)) :
  rest.length < text.length
  := by
  cases text with
  | nil => cases h
  | cons _ _ =>
    cases h
    exact Nat.lt_succ_self _

theorem octalDigits_length {n : Nat} {charcode code : BitVec 32} {text rest : JavaString}
    (h : octalDigits n charcode text = .ok (code, rest)) :
  rest.length ≤ text.length
  := by
  induction n generalizing charcode text with
  | zero =>
    cases h
    exact le_rfl
  | succ n ih =>
    obtain ⟨⟨escaped, text'⟩, hchar, h⟩ := Except.bind_eq_ok.mp h
    dsimp only at h
    split at h
    · exact (ih h).trans (charAt_length hchar).le
    · cases h
      exact le_rfl

theorem unicodeDigits_length {n : Nat} {charcode code : BitVec 32} {text rest : JavaString}
    (h : unicodeDigits n charcode text = .ok (some (code, rest))) :
  rest.length ≤ text.length
  := by
  induction n generalizing charcode text with
  | zero =>
    cases h
    exact le_rfl
  | succ n ih =>
    obtain ⟨⟨hex, text'⟩, hchar, h⟩ := Except.bind_eq_ok.mp h
    dsimp only at h
    split at h
    · exact (ih h).trans (charAt_length hchar).le
    · cases h

theorem hexDigits_length {charcode code : BitVec 32} {text rest : JavaString}
    (h : hexDigits charcode text = .ok (code, rest)) :
  rest.length ≤ text.length
  := by
  induction text generalizing charcode with
  | nil => cases h
  | cons hex text ih =>
    unfold hexDigits at h
    split at h
    · exact (ih h).trans (Nat.le_succ _)
    · cases h
      exact le_rfl

theorem unicodeEscape_length {n : Nat} {text rest chars : JavaString}
    (h : unicodeEscape n text = .ok (some (chars, rest))) :
  rest.length ≤ text.length
  := by
  obtain ⟨digits, hdigits, h⟩ := Except.bind_eq_ok.mp h
  cases digits with
  | none => cases h
  | some digits =>
    obtain ⟨appended, -, h⟩ := Except.bind_eq_ok.mp h
    cases h
    exact unicodeDigits_length hdigits

/-- An escape has a character behind the backslash. -/
theorem parseEscape_length {text rest chars : JavaString}
    (h : parseEscape text = .ok (some (chars, rest))) :
  rest.length < text.length
  := by
  obtain ⟨⟨escaped, text'⟩, hchar, h⟩ := Except.bind_eq_ok.mp h
  apply Nat.lt_of_le_of_lt _ (charAt_length hchar)
  dsimp only at h
  by_cases hthree : isDigitBetween '0' '3' escaped = true
  · rw [if_pos hthree] at h
    obtain ⟨⟨charcode, text''⟩, hdigits, h⟩ := Except.bind_eq_ok.mp h
    cases h
    exact octalDigits_length hdigits
  rw [if_neg hthree] at h
  by_cases hseven : isDigitBetween '4' '7' escaped = true
  · rw [if_pos hseven] at h
    obtain ⟨⟨charcode, text''⟩, hdigits, h⟩ := Except.bind_eq_ok.mp h
    cases h
    exact octalDigits_length hdigits
  rw [if_neg hseven] at h
  by_cases hlong : escaped = unit 'U'
  · rw [if_pos hlong] at h
    exact unicodeEscape_length h
  rw [if_neg hlong] at h
  by_cases hb : escaped = unit 'b'
  · rw [if_pos hb] at h
    cases h
    exact le_rfl
  rw [if_neg hb] at h
  by_cases hf : escaped = unit 'f'
  · rw [if_pos hf] at h
    cases h
    exact le_rfl
  rw [if_neg hf] at h
  by_cases hn : escaped = unit 'n'
  · rw [if_pos hn] at h
    cases h
    exact le_rfl
  rw [if_neg hn] at h
  by_cases ht : escaped = unit 't'
  · rw [if_pos ht] at h
    cases h
    exact le_rfl
  rw [if_neg ht] at h
  by_cases hu : escaped = unit 'u'
  · rw [if_pos hu] at h
    exact unicodeEscape_length h
  rw [if_neg hu] at h
  by_cases hx : escaped = unit 'x'
  · rw [if_pos hx] at h
    obtain ⟨⟨hex, text''⟩, hhex, h⟩ := Except.bind_eq_ok.mp h
    dsimp only at h
    split at h
    · obtain ⟨⟨charcode, text'''⟩, hdigits, h⟩ := Except.bind_eq_ok.mp h
      obtain ⟨appended, -, h⟩ := Except.bind_eq_ok.mp h
      cases h
      exact (hexDigits_length hdigits).trans (charAt_length hhex).le
    · cases h
  · rw [if_neg hx] at h
    cases h
    exact le_rfl

theorem length_tail_dropWhile {text : JavaString} (h : text ≠ []) (p : JavaChar → Bool) :
  (text.dropWhile p).tail.length < text.length
  := by
  have hlength := List.length_dropWhile_le p text
  have hpos := List.length_pos_iff.mpr h
  rw [List.length_tail]
  omega

/-! ### The loop -/

/-- The loop over what is left of the text.  There is no value after a diagnostic. -/
def parseStringLoop (initialQuote : JavaChar) (text : JavaString) (myContent : JavaString) :
    Except JavaException (Option JavaString) :=
  if text = [] then .ok (some myContent)
  else if unit '\\' ∈ text then
    let copied := myContent ++ text.takeWhile (· ≠ unit '\\')
    match _h : parseEscape (text.dropWhile (· ≠ unit '\\')).tail with
    | .error e => .error e
    | .ok none => .ok none
    | .ok (some (chars, rest)) => parseStringLoop initialQuote rest (copied ++ chars)
  else if initialQuote ∈ text then
    let copied := myContent ++ text.takeWhile (· ≠ initialQuote)
    parseStringLoop initialQuote (text.dropWhile (· ≠ initialQuote)).tail copied
  else .ok none
  termination_by text.length
  decreasing_by
    · exact (parseEscape_length _h).trans (length_tail_dropWhile ‹_› _)
    · exact length_tail_dropWhile ‹_› _

/-- The value of the literal; there is none when a diagnostic is reported. -/
def parseStringValue (myText : JavaString) : Except JavaException (Option JavaString) := do
  let (initialQuote, text) ← charAt myText
  if initialQuote ≠ unit '\'' ∧ initialQuote ≠ unit '"' then return none
  else if some initialQuote ≠ myText.getLast? then return none
  else parseStringLoop initialQuote text []

end Plexil.Compiler

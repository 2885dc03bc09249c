import Plexil.Compiler.StringTokens
import Mathlib.Data.List.TakeWhile

/-!
# The lexer

The lexer cuts a text into tokens, the longest one at each place; white space and comments are
hidden.  The tokens of the expression grammar are told apart, and all others are kept with their
text.

A name or a number is the same token wherever its text stands before a space, a comma or a
parenthesis.  Conversely the text of every name and number which the lexer finds is that token
by itself.
-/

namespace Plexil.Compiler

/-- A string literal. -/
def units (s : String) : JavaString := s.toList.map unit

inductive Token where
  | ncName (text : JavaString)
  | int (text : JavaString)
  | double (text : JavaString)
  | string (text : JavaString)
  | andKywd | orKywd | xorKywd | notKywd | modKywd | trueKywd | falseKywd
  | absKywd | sqrtKywd | ceilKywd | floorKywd | roundKywd | truncKywd | realToIntKywd
  | strlenKywd | arraySizeKywd | arrayMaxSizeKywd | maxKywd | minKywd
  | lparen | rparen | comma | bar | plus | minus | asterisk | slash | percent
  | less | leq | greater | geq | dequals | nequals
  | other (text : JavaString)
  deriving DecidableEq

/-! ### Words -/

/-- The keywords of the expression grammar. -/
def expressionKeywords : List (String × Token) :=
  [("AND", .andKywd), ("OR", .orKywd), ("XOR", .xorKywd), ("NOT", .notKywd), ("mod", .modKywd),
    ("true", .trueKywd), ("false", .falseKywd), ("abs", .absKywd), ("sqrt", .sqrtKywd),
    ("ceil", .ceilKywd), ("floor", .floorKywd), ("round", .roundKywd), ("trunc", .truncKywd),
    ("real_to_int", .realToIntKywd), ("strlen", .strlenKywd), ("arraySize", .arraySizeKywd),
    ("arrayMaxSize", .arrayMaxSizeKywd), ("max", .maxKywd), ("min", .minKywd)]

def otherKeywords : List String :=
  ["StartCondition", "Start", "RepeatCondition", "Repeat", "SkipCondition", "Skip", "PreCondition",
    "Pre", "PostCondition", "Post", "InvariantCondition", "Invariant", "EndCondition", "End",
    "ExitCondition", "Exit", "Comment", "Command", "Lookup", "Mutex", "Returns", "Resource", "Name",
    "UpperBound", "ReleaseAtTermination", "Priority", "Using", "In", "InOut", "Any", "Boolean",
    "Integer", "Real", "String", "Date", "Duration", "Update", "LibraryCall", "LibraryAction",
    "LibraryNode", "state", "outcome", "command_handle", "failure", "WAITING", "EXECUTING",
    "FINISHING", "FAILING", "FINISHED", "ITERATION_ENDED", "INACTIVE", "SUCCESS", "FAILURE",
    "SKIPPED", "INTERRUPTED", "COMMAND_ABORTED", "COMMAND_ABORT_FAILED", "COMMAND_ACCEPTED",
    "COMMAND_DENIED", "COMMAND_FAILED", "COMMAND_INTERFACE_ERROR", "COMMAND_RCVD_BY_SYSTEM",
    "COMMAND_SENT_TO_SYSTEM", "COMMAND_SUCCESS", "PRE_CONDITION_FAILED", "POST_CONDITION_FAILED",
    "INVARIANT_CONDITION_FAILED", "PARENT_FAILED", "PARENT_EXITED", "EXITED", "START", "END",
    "LookupOnChange", "LookupNow", "isKnown", "Child", "Parent", "Self", "Sibling",
    "NodeExecuting", "NodeFailed", "NodeFinished", "NodeInactive", "NodeInvariantFailed",
    "NodeIterationEnded", "NodeIterationFailed", "NodeIterationSucceeded", "NodeParentFailed",
    "NodePostconditionFailed", "NodePreconditionFailed", "NodeSkipped", "NodeSucceeded",
    "NodeWaiting", "NoChildFailed", "Concurrence", "OnCommand", "OnMessage", "SynchronousCommand",
    "Timeout", "Checked", "Try", "UncheckedSequence", "CheckedSequence", "Sequence", "Wait", "do",
    "else", "elseif", "endif", "for", "if", "while", "MessageReceived"]

/-- The token of a word. -/
def wordToken (word : JavaString) : Token :=
  match expressionKeywords.find? fun keyword => units keyword.1 = word with
  | some keyword => keyword.2
  | none => if word ∈ otherKeywords.map units then .other word else .ncName word

/-- `Letter | '_'` -/
def isNameStart (c : JavaChar) : Bool :=
  isDigitBetween 'a' 'z' c || isDigitBetween 'A' 'Z' c || c = unit '_'

/-- `Letter | Digit | '_'` -/
def isNameChar (c : JavaChar) : Bool := isNameStart c || isDigitBetween '0' '9' c

def scanWord (c : JavaChar) (s : JavaString) : JavaString × JavaString :=
  (c :: s.takeWhile isNameChar, s.dropWhile isNameChar)

/-! ### Numbers -/

def isDecimalDigit (c : JavaChar) : Bool := isDigitBetween '0' '9' c

def isBinaryDigit (c : JavaChar) : Bool := isDigitBetween '0' '1' c

/-- The digits which follow `0x`, `0o` and `0b`. -/
def markedDigits (c : JavaChar) : Option (JavaChar → Bool) :=
  if c = unit 'x' ∨ c = unit 'X' then some isHexDigit
  else if c = unit 'o' ∨ c = unit 'O' then some isOctalDigit
  else if c = unit 'b' ∨ c = unit 'B' then some isBinaryDigit
  else none

/-- `(PERIOD (Digit)*)?` -/
def scanFraction : JavaString → JavaString × JavaString
  | [] => ([], [])
  | c :: s =>
    if c = unit '.' then (c :: s.takeWhile isDecimalDigit, s.dropWhile isDecimalDigit)
    else ([], c :: s)

/-- `(PLUS | MINUS)?` -/
def scanSign : JavaString → JavaString × JavaString
  | [] => ([], [])
  | c :: s => if c = unit '+' ∨ c = unit '-' then ([c], s) else ([], c :: s)

/-- `(Exponent)?`; there is an error when the digits are missing. -/
def scanExponent : JavaString → Option (JavaString × JavaString)
  | [] => some ([], [])
  | c :: s =>
    if c = unit 'e' ∨ c = unit 'E' then
      let (sign, s) := scanSign s
      let digits := s.takeWhile isDecimalDigit
      if digits = [] then none else some (c :: (sign ++ digits), s.dropWhile isDecimalDigit)
    else some ([], c :: s)

def scanDecimal (s : JavaString) : Option (JavaString × JavaString) :=
  let whole := s.takeWhile isDecimalDigit
  let (fraction, s) := scanFraction (s.dropWhile isDecimalDigit)
  (scanExponent s).map fun (exponent, s) => (whole ++ (fraction ++ exponent), s)

/-- The rule `INT_OR_DOUBLE`: the text of the token, and what is behind it. -/
def scanNumber : JavaString → Option (JavaString × JavaString)
  | c :: d :: s =>
    match if c = unit '0' then markedDigits d else none with
    | some isDigit =>
      let digits := s.takeWhile isDigit
      if digits = [] then none else some (c :: d :: digits, s.dropWhile isDigit)
    | none => scanDecimal (c :: d :: s)
  | s => scanDecimal s

/-- The type of the token: a text with a point or an exponent is a `DOUBLE`. -/
def numberToken : JavaString → Token
  | c :: d :: s =>
    if (c = unit '0' ∧ (markedDigits d).isSome) ∨ (c :: d :: s).all isDecimalDigit then
      .int (c :: d :: s)
    else .double (c :: d :: s)
  | s => .int s

/-! ### Strings -/

/-- What follows a backslash. -/
def scanEscape : JavaString → Option (Piece × JavaString)
  | [] => none
  | c :: s =>
    if simpleEscapes.contains c then some (.simple c, s)
    else if c = unit 'u' then
      if (s.take 4).length = 4 ∧ (s.take 4).all isHexDigit then
        some (.unicodeEscape (s.take 4), s.drop 4)
      else none
    else if c = unit 'U' then
      if (s.take 8).length = 8 ∧ (s.take 8).all isHexDigit then
        some (.unicodeLongEscape (s.take 8), s.drop 8)
      else none
    else if c = unit 'x' then
      if s.takeWhile isHexDigit = [] then none
      else some (.hexEscape (s.takeWhile isHexDigit), s.dropWhile isHexDigit)
    else if isOctalDigit c then
      let more := (s.takeWhile isOctalDigit).take (octalLimit c)
      some (.octalEscape c more, s.drop more.length)
    else none

/-- The pieces up to the closing quote, and what is behind it. -/
def scanPieces (quote : JavaChar) : Nat → JavaString → Option (List Piece × JavaString)
  | 0, _ | _, [] => none
  | n + 1, c :: s =>
    if c = quote then some ([], s)
    else do
      let (piece, s) ← if c = unit '\\' then scanEscape s else some (.ordinary c, s)
      let (pieces, s) ← scanPieces quote n s
      return (piece :: pieces, s)

def scanString (quote : JavaChar) (s : JavaString) : Option (JavaString × JavaString) :=
  (scanPieces quote s.length s).map fun (pieces, s) => (quote :: tokenTail quote pieces, s)

/-! ### Tokens -/

/-- `' ' | '\t' | '\f' | '\n' | '\r'` -/
def isWhiteSpace (c : JavaChar) : Bool :=
  [unit ' ', unit '\t', unit '\x0c', unit '\n', unit '\r'].contains c

/-- What is behind the end of a comment `/* */`. -/
def afterComment : JavaString → Option JavaString
  | c :: d :: s => if c = unit '*' ∧ d = unit '/' then some s else afterComment (d :: s)
  | _ => none

/-- The tokens without letters, digits and quotes; a token comes before those it begins with. -/
def punctuation : List (String × Token) :=
  [("&&", .andKywd), ("||", .orKywd), ("==", .dequals), ("!=", .nequals), ("<=", .leq),
    (">=", .geq), ("...", .other (units "...")), ("#(", .other (units "#(")), ("!", .notKywd),
    ("|", .bar), ("<", .less), (">", .greater), ("=", .other (units "=")), ("+", .plus),
    ("-", .minus), ("*", .asterisk), ("/", .slash), ("%", .percent), ("(", .lparen),
    (")", .rparen), (",", .comma), (".", .other (units ".")), ("[", .other (units "[")),
    ("]", .other (units "]")), ("\x7b", .other (units "\x7b")), ("\x7d", .other (units "\x7d")),
    (":", .other (units ":")), (";", .other (units ";"))]

def scanPunctuation (s : JavaString) : Option (Token × JavaString) :=
  (punctuation.find? fun p => (units p.1).isPrefixOf s).map fun p =>
    (p.2, s.drop (units p.1).length)

/-- The token at the beginning of a text, unless it is hidden, and what is behind it. -/
def nextToken (c : JavaChar) (s : JavaString) : Option (Option Token × JavaString) :=
  if isWhiteSpace c then some (none, s)
  else if isNameStart c then
    let (word, s) := scanWord c s
    some (some (wordToken word), s)
  else if isDecimalDigit c || (c = unit '.' && s.head?.any isDecimalDigit) then
    (scanNumber (c :: s)).map fun (text, s) => (some (numberToken text), s)
  else if c = unit '"' ∨ c = unit '\'' then
    (scanString c s).map fun (text, s) => (some (.string text), s)
  else if c = unit '/' ∧ s.head? = some (unit '/') then
    some (none, s.dropWhile fun c => c ≠ unit '\n' && c ≠ unit '\r')
  else if c = unit '/' ∧ s.head? = some (unit '*') then
    (afterComment s.tail).map fun s => (none, s)
  else (scanPunctuation (c :: s)).map fun (token, s) => (some token, s)

/-- The tokens of a text; there are none when the lexer reports an error. -/
def lexFrom : Nat → JavaString → Option (List Token)
  | _, [] => some []
  | 0, _ :: _ => none
  | n + 1, c :: s => do
    let (token, s) ← nextToken c s
    let tokens ← lexFrom n s
    return token.toList ++ tokens

def lex (s : JavaString) : Option (List Token) := lexFrom s.length s

/-! ### What follows a token -/

def delimiters : JavaString := [unit ' ', unit ',', unit '(', unit ')']

def Delimits (rest : JavaString) : Prop := ∀ c ∈ rest.head?, c ∈ delimiters

/-- A text which ends the same tokens as another one. -/
def Continues (rest rest' : JavaString) : Prop := rest'.head? = rest.head? ∨ Delimits rest'

theorem Continues.append {rest rest' : JavaString} (h : Continues rest rest') (w : JavaString) :
  Continues (w ++ rest) (w ++ rest')
  := by
  cases w with
  | nil => exact h
  | cons c w => exact .inl rfl

/-- What does not go on at a delimiter does not go on. -/
theorem Continues.stops {p : JavaChar → Bool} (hp : ∀ c ∈ delimiters, p c = false)
    {rest rest' : JavaString} (h : Continues rest rest') (hrest : ∀ c ∈ rest.head?, p c = false) :
  ∀ c ∈ rest'.head?, p c = false
  := by
  obtain h | h := h
  · rwa [h]
  · exact fun c hc => hp c (h c hc)

/-- The text is the token by itself. -/
def Token.IsText (token : Token) : JavaString → Prop
  | [] => False
  | c :: s => nextToken c s = some (some token, [])

/-- A string literal with the value, in double quotes. -/
def quoted (value : JavaString) : JavaString := unit '"' :: (value ++ [unit '"'])

/-- Neither a quotation mark nor a backslash. -/
def Unescaped (value : JavaString) : Prop := unit '"' ∉ value ∧ unit '\\' ∉ value

end Plexil.Compiler

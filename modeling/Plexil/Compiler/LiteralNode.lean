import Plexil.Compiler.PlexilDataType
import Plexil.Util.Exceptions
import Plexil.Util.Strtol

/-!
# Literals

A literal has the type which its token says until it is persuaded to assume another one.  The
text of an Integer literal is read when the literal is asked to become a Boolean, and when it
is written to the plan.
-/

open Strtol

namespace Plexil.Compiler

/-! ### Reading Integers -/

/-- `Integer.parseInt` of the Java library, for texts without digits of other scripts; `none` is a
`NumberFormatException`. -/
def parseInt (s : List Char) (radix : Nat) : Option Int :=
  let (negative, digits) := splitSign s
  if digits ≠ [] ∧ digits.all (isDigit radix) = true then
    let result := signed negative (value radix digits)
    if -2 ^ 31 ≤ result ∧ result < 2 ^ 31 then some result else none
  else none

/-- The radix which the prefix of a text says, and the digits behind it. -/
def splitPrefix (txt : List Char) : Nat × List Char :=
  match txt with
  | '0' :: c :: d :: digits =>
    if isDigit 10 c then (10, txt)
    else if c = 'b' ∨ c = 'B' then (2, d :: digits)
    else if c = 'o' ∨ c = 'O' then (8, d :: digits)
    else if c = 'x' ∨ c = 'X' then (16, d :: digits)
    else (10, txt)
  | _ => (10, txt)

def parseIntegerValue (txt : List Char) : Option Int :=
  let (radix, digits) := splitPrefix txt
  parseInt digits radix

/-- `Integer.toString` -/
def integerToString (n : Int) : List Char := numeral (n < 0) n.natAbs

/-! ### Literals -/

/-- The token of a literal with its text.  A minus sign makes a node of its own above the token;
temporal literals have their string below them. -/
inductive LiteralToken where
  | int (text : List Char)
  | negInt (text : List Char)
  | double (text : List Char)
  | negDouble (text : List Char)
  | boolean (text : List Char)
  | string (value : List Char)
  | dateLiteral (value : List Char)
  | durationLiteral (value : List Char)
  deriving DecidableEq

namespace LiteralToken

/-- `earlyCheckSelf` -/
def dataType : LiteralToken → PlexilDataType
  | int _ | negInt _ => .integer
  | double _ | negDouble _ => .real
  | boolean _ => .boolean
  | string _ => .string
  | dateLiteral _ => .date
  | durationLiteral _ => .duration

/-- The text of the token of the node: that of an imaginary token is its name. -/
def getText : LiteralToken → List Char
  | int text | double text | boolean text | string text => text
  | negInt _ => "NEG_INT".toList
  | negDouble _ => "NEG_DOUBLE".toList
  | dateLiteral _ => "DATE_LITERAL".toList
  | durationLiteral _ => "DURATION_LITERAL".toList

/-- The literals of the class `TemporalLiteralNode`. -/
def isTemporal : LiteralToken → Bool
  | dateLiteral _ | durationLiteral _ => true
  | _ => false

end LiteralToken

structure LiteralNode where
  token : LiteralToken
  m_dataType : PlexilDataType

/-- What `assumeType` answers; `invalid` is the answer false with a diagnostic about the type it
is called with. -/
inductive Answer where
  | accepted
  | refused
  | invalid
  deriving DecidableEq

namespace LiteralNode

/-- A literal behind its early check. -/
def ofToken (token : LiteralToken) : LiteralNode := ⟨token, token.dataType⟩

/-- `LiteralNode.assumeType` and `TemporalLiteralNode.assumeType`; `none` is an exception. -/
def assumeType (node : LiteralNode) (t : PlexilDataType) : Option (Answer × LiteralNode) :=
  if !node.m_dataType.isValid then some (.refused, node)
  else if !t.isValid then some (.invalid, node)
  else if t = .any || node.m_dataType = t then some (.accepted, node)
  else if node.token.isTemporal then
    if t = .real then some (.accepted, node) else some (.refused, node)
  else if node.m_dataType.isNumeric && t = .real then
    some (.accepted, { node with m_dataType := t })
  else if t = .boolean && node.m_dataType = .integer then do
    let value ← parseIntegerValue node.token.getText
    if value = 0 ∨ value = 1 then some (.accepted, { node with m_dataType := t })
    else some (.refused, node)
  else some (.refused, node)

/-- The text of the element which `constructXML` makes; `none` is an exception. -/
def constructText (node : LiteralNode) : Option (List Char) :=
  match node.token with
  | .negInt childTxt => (parseIntegerValue childTxt).map fun n => '-' :: integerToString n
  | .negDouble childTxt => some ('-' :: childTxt)
  | .int txt => (parseIntegerValue txt).map integerToString
  | .double txt | .boolean txt | .string txt | .dateLiteral txt | .durationLiteral txt => some txt

def getXMLElementName (node : LiteralNode) : String := node.m_dataType.typeName ++ "Value"

end LiteralNode

end Plexil.Compiler

import Plexil.Compiler.ExpressionTokens
import Plexil.Compiler.LiteralNode
import Plexil.Util.NaryTerms
import Plexil.Xml.ArraySize

/-!
# The expression grammar

The grammar has a level for every precedence of binary operators.  Operators associate to the left
at all levels but those of equality and comparison, where there is one operator at most.  Lookups,
node references, array elements and the other alternatives which begin with tokens of their own are
a parameter of the grammar, and so is what they stand for.

The trees are compared up to associativity.
-/

open NaryTerms

namespace Plexil.Compiler

/-! ### Trees -/

/-- The operators of the tree.  The plus sign is an addition or a concatenation by the type of its
operands, and equality is that of the type. -/
inductive TreeOp where
  | or | xor | and
  | equals | notEquals
  | greater | geq | less | leq
  | plus | minus
  | times | divides | mod
  | not | negative
  | abs | sqrt | ceil | floor | round | trunc | realToInt | strlen | arraySize | arrayMaxSize
  | max | min
  deriving DecidableEq

/-- A literal number keeps its text.  An integer has the value which the executive reads from what
the compiler writes for it. -/
inductive TreeLeaf where
  | variableName (name : JavaString)
  | boolean (value : Bool)
  | integer (text : JavaString) (value : Option Int)
  | real (text : JavaString)
  | string (value : JavaString)
  | other
  deriving DecidableEq

abbrev Tree := Term TreeOp TreeLeaf

/-- The operators which take any number of operands in a plan. -/
def TreeOp.associativity : TreeOp → Associativity
  | or | xor | and | plus | times => .full
  | minus => .left
  | _ => .none

def charsOf (s : JavaString) : List Char := s.map fun c => Char.ofNat c.toNat

/-- What the executive reads. -/
def readInteger (text : List Char) : Option Int :=
  match Xml.parseInteger text with
  | .ok value => value
  | .error _ => none

/-- What the executive reads from the literal which the compiler writes. -/
def compiledInteger (negative : Bool) (text : JavaString) : Option Int := do
  let token := if negative then .negInt (charsOf text) else .int (charsOf text)
  readInteger (← (LiteralNode.ofToken token).constructText)

/-- A text behind a minus sign, if there is one. -/
def withSign (negative : Bool) (text : JavaString) : JavaString :=
  if negative then unit '-' :: text else text

def integerLeaf (negative : Bool) (text : JavaString) : TreeLeaf :=
  match compiledInteger negative text with
  | some value => .integer (withSign negative text) (some value)
  | none => .other

def stringLeaf (text : JavaString) : TreeLeaf :=
  match parseStringValue text with
  | .ok (some value) => .string value
  | _ => .other

/-! ### Derivations -/

inductive Level where
  | logicalOr | logicalXOR | logicalAnd | equality | relational | additive | multiplicative
  deriving DecidableEq

inductive Nonterminal where
  | binary (level : Level)
  | unary
  | numericQuantity | logicalQuantity | quantity
  deriving DecidableEq

namespace Level

def operators : Level → List (Token × TreeOp)
  | logicalOr => [(.orKywd, .or)]
  | logicalXOR => [(.xorKywd, .xor)]
  | logicalAnd => [(.andKywd, .and)]
  | equality => [(.dequals, .equals), (.nequals, .notEquals)]
  | relational => [(.greater, .greater), (.geq, .geq), (.less, .less), (.leq, .leq)]
  | additive => [(.plus, .plus), (.minus, .minus)]
  | multiplicative =>
    [(.asterisk, .times), (.slash, .divides), (.percent, .mod), (.modKywd, .mod)]

/-- The operators of the level may be repeated: `( )*` instead of `( )?`. -/
def repeats : Level → Bool
  | equality | relational => false
  | _ => true

def next : Level → Nonterminal
  | logicalOr => .binary logicalXOR
  | logicalXOR => .binary logicalAnd
  | logicalAnd => .binary equality
  | equality => .binary relational
  | relational => .binary additive
  | additive => .binary multiplicative
  | multiplicative => .unary

/-- What stands before an operator of the level. -/
def first (level : Level) : Nonterminal := if level.repeats then .binary level else level.next

end Level

def expression : Nonterminal := .binary .logicalOr

def oneArgNumericFn : List (Token × TreeOp) :=
  [(.sqrtKywd, .sqrt), (.absKywd, .abs), (.ceilKywd, .ceil), (.floorKywd, .floor),
    (.roundKywd, .round), (.truncKywd, .trunc), (.realToIntKywd, .realToInt),
    (.strlenKywd, .strlen), (.arraySizeKywd, .arraySize), (.arrayMaxSizeKywd, .arrayMaxSize)]

def twoArgNumericFn : List (Token × TreeOp) := [(.maxKywd, .max), (.minKywd, .min)]

inductive NumericLiteral : List Token → TreeLeaf → Prop
  | int (text : JavaString) : NumericLiteral [.int text] (integerLeaf false text)
  | double (text : JavaString) : NumericLiteral [.double text] (.real text)
  | negInt (text : JavaString) : NumericLiteral [.minus, .int text] (integerLeaf true text)
  | negDouble (text : JavaString) : NumericLiteral [.minus, .double text] (.real (withSign true text))

inductive BooleanLiteral : List Token → TreeLeaf → Prop
  | trueKywd : BooleanLiteral [.trueKywd] (.boolean true)
  | falseKywd : BooleanLiteral [.falseKywd] (.boolean false)

/-- The literals among the alternatives of a quantity. -/
def Literal : Nonterminal → List Token → TreeLeaf → Prop
  | .numericQuantity, tokens, leaf => NumericLiteral tokens leaf
  | .logicalQuantity, tokens, leaf => BooleanLiteral tokens leaf
  | .quantity, tokens, leaf => BooleanLiteral tokens leaf ∨ NumericLiteral tokens leaf ∨
    ∃ text, tokens = [.string text] ∧ leaf = stringLeaf text
  | _, _, _ => False

namespace Nonterminal

def IsQuantity (n : Nonterminal) : Prop := n = numericQuantity ∨ n = logicalQuantity ∨ n = quantity

end Nonterminal

end Plexil.Compiler

import Plexil.Compiler.ExpressionTrees

/-!
# Decompiled expressions

The decompiler makes a model for every element of a plan and asks the models for their text.  A
model takes over the leaf elements below its own element as qualities, and it generates the models
of the other ones.  The constructor of a model may be called with a model, whose children are
generated anew then; the models of functions do this once more when they are translated.

A condition, and the right side of an assignment, have the expression as their only element.

The texts of operands, and what stands between them, are the tokens which they look like, unless
an operand is none by itself.  Spaces before commas make no difference.
-/

open NaryTerms

namespace Plexil.Decompiler

open Compiler

/-! ### Expressions -/

/-- The elements of operators and functions. -/
inductive Operator where
  | add | sub | mul | div | mod | concat
  | and | or | not
  | gt | ge | lt | le
  | eqNumeric | eqString | eqBoolean | eqArray
  | neNumeric | neString | neBoolean | neArray
  | max | min | abs | sqrt
  deriving DecidableEq

inductive ExprType where
  | boolean | numeric | string | array
  deriving DecidableEq

inductive VariableElement where
  | integerVariable | realVariable | booleanVariable | stringVariable | arrayVariable
  deriving DecidableEq

/-- The elements without elements.  A Boolean value is written as a digit or as a word. -/
inductive Operand where
  | booleanValue (value digit : Bool)
  | integerValue (text : JavaString)
  | realValue (text : JavaString)
  | stringValue (text : JavaString)
  | variableRef (element : VariableElement) (name : JavaString)
  deriving DecidableEq

abbrev Expr := Term Operator Operand

namespace Operator

/-- How many operands the schema allows. -/
def Accepts : Operator → Nat → Prop
  | add, n | sub, n | mul, n | max, n | min, n => 1 ≤ n
  | and, _ | or, _ | concat, _ => True
  | not, n | abs, n | sqrt, n => n = 1
  | _, n => n = 2

def operandType : Operator → ExprType
  | and | or | not | eqBoolean | neBoolean => .boolean
  | concat | eqString | neString => .string
  | eqArray | neArray => .array
  | _ => .numeric

def resultType : Operator → ExprType
  | add | sub | mul | div | mod | max | min | abs | sqrt => .numeric
  | concat => .string
  | _ => .boolean

end Operator

namespace Operand

/-- The text in the element. -/
def text : Operand → JavaString
  | booleanValue true true => units "1"
  | booleanValue false true => units "0"
  | booleanValue true false => units "true"
  | booleanValue false false => units "false"
  | integerValue text | realValue text | stringValue text => text
  | variableRef _ name => name

def type : Operand → ExprType
  | booleanValue _ _ | variableRef .booleanVariable _ => .boolean
  | stringValue _ | variableRef .stringVariable _ => .string
  | variableRef .arrayVariable _ => .array
  | _ => .numeric

def IsStringValue : Operand → Prop
  | stringValue _ => True
  | _ => False

end Operand

def exprType : Expr → ExprType
  | .leaf operand => operand.type
  | .node op _ => op.resultType

/-- The expression is one of the schema.  Only a string may be empty. -/
structure WellFormed (e : Expr) : Prop where
  operators : Term.Everywhere
    (fun op es => op.Accepts es.length ∧ ∀ e ∈ es, exprType e = op.operandType) e
  operands : ∀ operand ∈ e.leaves, operand.text = [] → operand.IsStringValue

/-! ### Models -/

inductive ModelClass where
  | operator (type : String)
  | function (type : String)
  | notCondition
  | base
  deriving DecidableEq

/-- The models which are added for an element. -/
def generateChild : Operator → List ModelClass
  | .abs => [.function "abs"]
  | .max => [.function "max"]
  | .min => [.function "min"]
  | .sqrt => [.function "sqrt"]
  | .add | .concat => [.operator "+"]
  | .and => [.operator "&&"]
  | .div => [.operator "/"]
  | .eqBoolean | .eqNumeric | .eqString => [.operator "=="]
  | .ge => [.operator ">="]
  | .gt => [.operator ">"]
  | .le => [.operator "<="]
  | .lt => [.operator "<"]
  | .mod => [.operator "%"]
  | .mul => [.operator "*"]
  | .neBoolean | .neNumeric => [.operator "!="]
  | .or => [.operator "||"]
  -- the case has no `break`
  | .sub => [.operator "-", .notCondition]
  | .not => [.notCondition]
  | .eqArray | .neArray | .neString => [.base]

/-- The models of an element when its model has been made from a model so many times. -/
def regenerate : Nat → Operator → List ModelClass
  | 0, op => generateChild op
  | generation + 1, op => (regenerate generation op).flatMap fun _ => generateChild op

/-- What an element is for the model above it: a quality, or the texts of the models among the
children, by how many times these have been generated anew. -/
inductive Branch where
  | quality (operand : Operand)
  | children (texts : Nat → List JavaString)

/-- An element without a text is not a quality. -/
def operandBranch : Operand → Branch
  | .stringValue [] => .children fun _ => [units "\"\""]
  | operand => if operand.text = [] then .children fun _ => [units "null"] else .quality operand

/-- The texts of the models for the element at a place. -/
def Branch.childTexts (generation order : Nat) : Branch → List (Nat × JavaString)
  | quality _ => []
  | children texts => (texts generation).map fun text => (order, text)

def Branch.qualities (order : Nat) : Branch → List (Nat × Operand)
  | quality operand => [(order, operand)]
  | children _ => []

/-- The texts of the children of a model. -/
def childTexts (generation : Nat) (branches : List Branch) : List (Nat × JavaString) :=
  branches.zipIdx.flatMap fun (branch, order) => branch.childTexts generation order

def qualities (branches : List Branch) : List (Nat × Operand) :=
  branches.zipIdx.flatMap fun (branch, order) => branch.qualities order

/-- A Boolean value, or the name of a Boolean variable. -/
def booleanText (value : JavaString) : JavaString :=
  if value = units "0" then units "false"
  else if value = units "1" then units "true"
  else value

/-- The text of a quality in the loop of `OperatorModel.translate`. -/
def qualityText (childRemains : Bool) : Operand → JavaString
  | .stringValue value =>
    if childRemains ∧ value.head? = some (unit '"') then value else quoted value
  | .booleanValue value digit => booleanText (Operand.booleanValue value digit).text
  | operand => operand.text

/-- The loop of `OperatorModel.translate`: the texts in the order of the elements. -/
def interleave : List (Nat × JavaString) → List (Nat × Operand) → List JavaString
  | [], [] => []
  | (order, child) :: children, (order', quality) :: qualities =>
    if order < order' then child :: interleave children ((order', quality) :: qualities)
    else qualityText true quality :: interleave ((order, child) :: children) qualities
  | (_, child) :: children, [] => child :: interleave children []
  | [], (_, quality) :: qualities => qualityText false quality :: interleave [] qualities
termination_by children qualities => children.length + qualities.length

def separator (type : String) : JavaString := units " " ++ (units type ++ units " ")

/-- `OperatorModel.translate` -/
def operatorText (type : String) (children : List (Nat × JavaString))
    (qualities : List (Nat × Operand)) : JavaString :=
  (separator type).intercalate (interleave children qualities)

/-- `ConditionModel.translate` -/
def conditionText (children : List (Nat × JavaString)) (qualities : List (Nat × Operand)) :
    JavaString :=
  let booleanValues := qualities.filterMap fun (_, operand) =>
    match operand with
    | .booleanValue _ _ => some operand.text
    | _ => none
  let booleanVariables := qualities.filterMap fun (_, operand) =>
    match operand with
    | .variableRef .booleanVariable name => some name
    | _ => none
  match booleanValues, booleanVariables, children with
  | value :: _, _, _ => booleanText value
  | [], name :: _, _ => booleanText name
  | [], [], (_, child) :: _ => child
  | [], [], [] => []

/-- The text of a model.  A function makes an operator model from itself. -/
def translate (generation : Nat) (branches : List Branch) : ModelClass → JavaString
  | .operator type => operatorText type (childTexts generation branches) (qualities branches)
  | .function type =>
    units type ++ (units "(" ++
      (operatorText "," (childTexts (generation + 1) branches) (qualities branches) ++ units ")"))
  | .notCondition =>
    units "NOT (" ++ (conditionText (childTexts generation branches) (qualities branches) ++
      units ")")
  | .base => units "null"

def branchOf : Expr → Branch :=
  Term.fold operandBranch fun op branches => .children fun generation =>
    (regenerate generation op).map (translate generation branches)

/-! ### Where an expression stands -/

inductive Site where
  | condition
  | rightSide
  deriving DecidableEq

/-- The first quality of a right side. -/
def rightSideText : Operand → JavaString
  | .stringValue value => if value.head? = some (unit '"') then value else quoted value
  | operand => operand.text

/-- A right side looks for the model of an operator first, and then for that of a function.  When
there is neither, and no quality, an exception is thrown. -/
def rightSide : Expr → Option JavaString
  | .leaf operand => if operand.text = [] then none else some (rightSideText operand)
  | .node op es =>
    let isOperator : ModelClass → Bool := fun model =>
      match model with
      | .operator _ => true
      | _ => false
    let isFunction : ModelClass → Bool := fun model =>
      match model with
      | .function _ => true
      | _ => false
    (((generateChild op).find? isOperator).or ((generateChild op).find? isFunction)).map
      (translate 0 (es.map branchOf))

/-- `decompilation.replace(" , ", ", ")` -/
def replaceCommas : JavaString → JavaString
  | c :: d :: e :: s =>
    if c = unit ' ' ∧ d = unit ',' ∧ e = unit ' ' then unit ',' :: unit ' ' :: replaceCommas s
    else c :: replaceCommas (d :: e :: s)
  | s => s

/-- What stands behind an operand or the name of a function. -/
def Follows (rest : JavaString) : Prop :=
  ∀ c ∈ rest.head?, c = unit ' ' ∨ c = unit '(' ∨ c = unit ')'

/-- Behind the text, the lexer goes on with what follows. -/
def LexesAs (text : JavaString) (tokens : List Token) : Prop :=
  ∀ rest, Follows rest → lex (replaceCommas (text ++ rest)) =
    (lex (replaceCommas rest)).map (tokens ++ ·)

theorem LexesAs.append {text text' : JavaString} {tokens tokens' : List Token}
    (h : LexesAs text tokens) (h' : LexesAs text' tokens')
    (hfollows : ∀ rest, Follows rest → Follows (text' ++ rest)) :
  LexesAs (text ++ text') (tokens ++ tokens')
  := by
  intro rest hrest
  rw [List.append_assoc, h _ (hfollows rest hrest), h' rest hrest, Option.map_map]
  congr 1
  funext ts
  exact (List.append_assoc _ _ _).symm

def Operator.treeOp : Operator → TreeOp
  | add | concat => .plus
  | sub => .minus
  | mul => .times
  | div => .divides
  | mod => .mod
  | and => .and
  | or => .or
  | not => .not
  | gt => .greater
  | ge => .geq
  | lt => .less
  | le => .leq
  | eqNumeric | eqString | eqBoolean | eqArray => .equals
  | neNumeric | neString | neBoolean | neArray => .notEquals
  | max => .max
  | min => .min
  | abs => .abs
  | sqrt => .sqrt

/-- An integer is what the executive reads. -/
def Operand.treeLeaf : Operand → TreeLeaf
  | booleanValue value _ => .boolean value
  | integerValue text => .integer text (readInteger (charsOf text))
  | realValue text => .real text
  | stringValue value => .string value
  | variableRef _ name => .variableName name

def treeOf : Expr → Tree := Term.map Operator.treeOp Operand.treeLeaf

/-- A string which is printed as it is.  Lines with the text `__@__` are removed from the plan. -/
structure PlainString (value : JavaString) : Prop where
  unescaped : Unescaped value
  commas : replaceCommas value = value
  reference : ¬ units "__@__" <:+: value

/-- The operand is printed as its token. -/
def Operand.Stands : Operand → Prop
  | stringValue value => PlainString value
  | operand => operand.treeLeaf.Stands

/-- The texts for an element. -/
def items (generation : Nat) : Branch → List JavaString
  | .quality operand => [qualityText false operand]
  | .children texts => texts generation

end Plexil.Decompiler

import Plexil.Compiler.ExpressionGrammar

/-!
# Trees and precedence

Where no parentheses stand but those of functions and negations, an operand of a binary operator
has an operator of a higher level.  The first operand may have one of the same level, if the
operators of the level may be repeated.  Conversely every tree of this kind is derived from its
tokens.  No sequence of tokens is derived with two trees.
-/

open NaryTerms

namespace Plexil.Compiler

/-! ### Levels -/

def Level.rank : Level → Nat
  | logicalOr => 0
  | logicalXOR => 1
  | logicalAnd => 2
  | equality => 3
  | relational => 4
  | additive => 5
  | multiplicative => 6

def Nonterminal.rank : Nonterminal → Nat
  | binary level => level.rank
  | _ => 7

/-- The level of a binary operator. -/
def TreeOp.level : TreeOp → Option Level
  | or => some .logicalOr
  | xor => some .logicalXOR
  | and => some .logicalAnd
  | equals | notEquals => some .equality
  | greater | geq | less | leq => some .relational
  | plus | minus => some .additive
  | times | divides | mod => some .multiplicative
  | _ => none

/-- How many operands an operator has in a flattened tree. -/
def TreeOp.Takes (op : TreeOp) (n : Nat) : Prop :=
  match op.level with
  | some _ => if op.associativity = .none then n = 2 else 2 ≤ n
  | none => if op = max ∨ op = min then n = 2 else n = 1

def rank : Tree → Nat
  | .leaf _ => 7
  | .node op _ =>
    match op.level with
    | some level => level.rank
    | none => 7

/-- The operands of a binary operator are of higher levels. -/
structure Leveled (op : TreeOp) (ts : List Tree) : Prop where
  takes : op.Takes ts.length
  first : ∀ level ∈ op.level, ∀ t ∈ ts.head?, level.first.rank ≤ rank t
  next : ∀ level ∈ op.level, ∀ t ∈ ts.tail, level.next.rank ≤ rank t

/-- An operand in parentheses may follow. -/
def Token.opens : Token → Bool
  | notKywd | absKywd | sqrtKywd | ceilKywd | floorKywd | roundKywd | truncKywd | realToIntKywd
  | strlenKywd | arraySizeKywd | arrayMaxSizeKywd | maxKywd | minKywd => true
  | _ => false

/-- Parentheses stand only behind the names of functions and the keyword `NOT`. -/
def NoBareParentheses : Bool → List Token → Prop
  | _, [] => True
  | opened, token :: ts => (token = .lparen → opened = true) ∧ NoBareParentheses token.opens ts

theorem NoBareParentheses.left {opened : Bool} {ts ts' : List Token}
    (h : NoBareParentheses opened (ts ++ ts')) :
  NoBareParentheses opened ts
  := by
  induction ts generalizing opened with
  | nil => trivial
  | cons token ts ih => exact ⟨h.1, ih h.2⟩

theorem NoBareParentheses.right {opened : Bool} {ts ts' : List Token} {token : Token}
    (h : NoBareParentheses opened (ts ++ token :: ts')) :
  NoBareParentheses token.opens ts'
  := by
  induction ts generalizing opened with
  | nil => exact h.2
  | cons token' ts ih => exact ih h.2

def flattenTree : Tree → Tree := Term.flatten TreeOp.associativity

variable {others : Nonterminal → List Token → Prop} {n : Nonterminal} {ts : List Token} {t : Tree}

/-- The token of a leaf stands among the tokens. -/
def TreeLeaf.From (ts : List Token) : TreeLeaf → Prop
  | variableName name => .ncName name ∈ ts
  | boolean value => (if value then .trueKywd else .falseKywd) ∈ ts
  | integer text value => ∃ negative w, text = withSign negative w ∧ .int w ∈ ts ∧
    compiledInteger negative w = value ∧ value ≠ none
  | real text => ∃ negative w, text = withSign negative w ∧ .double w ∈ ts
  | _ => True

theorem TreeLeaf.From.mono {leaf : TreeLeaf} {ts ts' : List Token} (h : leaf.From ts)
    (hts : ∀ token ∈ ts, token ∈ ts') :
  leaf.From ts'
  := by
  cases leaf with
  | variableName name => exact hts _ h
  | boolean value => exact hts _ h
  | integer text value =>
    obtain ⟨negative, w, htext, hw, hvalue⟩ := h
    exact ⟨negative, w, htext, hts _ hw, hvalue⟩
  | real text =>
    obtain ⟨negative, w, htext, hw⟩ := h
    exact ⟨negative, w, htext, hts _ hw⟩
  | _ => trivial

theorem integerLeaf_from {negative : Bool} {w : JavaString} (h : .int w ∈ ts) :
  (integerLeaf negative w).From ts
  := by
  cases hvalue : compiledInteger negative w with
  | none =>
    rw [integerLeaf, hvalue]
    trivial
  | some value =>
    rw [integerLeaf, hvalue]
    exact ⟨negative, w, rfl, h, hvalue, Option.some_ne_none value⟩

theorem NumericLiteral.from {leaf : TreeLeaf} (h : NumericLiteral ts leaf) :
  leaf.From ts
  := by
  cases h with
  | int text => exact integerLeaf_from (by simp)
  | double text => exact ⟨false, text, rfl, by simp⟩
  | negInt text => exact integerLeaf_from (by simp)
  | negDouble text => exact ⟨true, text, rfl, by simp⟩

theorem stringLeaf_from (text : JavaString) :
  (stringLeaf text).From ts
  := by
  unfold stringLeaf
  split
  · trivial
  · trivial

theorem Literal.from {leaf : TreeLeaf} (h : Literal n ts leaf) :
  leaf.From ts
  := by
  have hboolean (h : BooleanLiteral ts leaf) : leaf.From ts := by
    cases h <;> simp [TreeLeaf.From]
  cases n with
  | numericQuantity => exact NumericLiteral.from h
  | logicalQuantity => exact hboolean h
  | quantity =>
    obtain h | h | ⟨text, -, rfl⟩ := h
    · exact hboolean h
    · exact h.from
    · exact stringLeaf_from text
  | _ => cases h

/-- The tokens which count are those of the operators which count. -/
structure Counts (counted : Token → Bool) (p : TreeOp → Bool) : Prop where
  binary {level : Level} {token : Token} {op : TreeOp} (h : (token, op) ∈ level.operators) :
    counted token = p op
  oneArg {token : Token} {op : TreeOp} (h : (token, op) ∈ oneArgNumericFn) : counted token = p op
  twoArg {token : Token} {op : TreeOp} (h : (token, op) ∈ twoArgNumericFn) : counted token = p op
  not : counted .notKywd = p .not
  negative : p .negative = false
  abs : p .abs = false
  marks : ∀ token ∈ [.minus, .lparen, .rparen, .comma, .bar, .trueKywd, .falseKywd],
    counted token = false
  texts : ∀ text, counted (.ncName text) = false ∧ counted (.int text) = false ∧
    counted (.double text) = false ∧ counted (.string text) = false

theorem NumericLiteral.counts {counted : Token → Bool} {p : TreeOp → Bool} (hp : Counts counted p)
    {leaf : TreeLeaf} (h : NumericLiteral ts leaf) :
  ts.countP counted = 0
  := by
  have hminus : counted .minus = false := hp.marks _ (by simp)
  rw [List.countP_eq_zero]
  cases h with
  | int text => simp [hp.texts]
  | double text => simp [hp.texts]
  | negInt text => simp [hp.texts, hminus]
  | negDouble text => simp [hp.texts, hminus]

theorem Literal.counts {counted : Token → Bool} {p : TreeOp → Bool} (hp : Counts counted p)
    {leaf : TreeLeaf} (h : Literal n ts leaf) :
  ts.countP counted = 0
  := by
  have hboolean (h : BooleanLiteral ts leaf) : ts.countP counted = 0 := by
    rw [List.countP_eq_zero]
    cases h with
    | trueKywd => simp [hp.marks .trueKywd (by simp)]
    | falseKywd => simp [hp.marks .falseKywd (by simp)]
  cases n with
  | numericQuantity => exact NumericLiteral.counts hp h
  | logicalQuantity => exact hboolean h
  | quantity =>
    obtain h | h | ⟨text, rfl, -⟩ := h
    · exact hboolean h
    · exact h.counts hp
    · simp [hp.texts]
  | _ => cases h

/-- The token of an operator; that of a negative number is its sign. -/
def TreeOp.token : TreeOp → Token
  | or => .orKywd
  | xor => .xorKywd
  | and => .andKywd
  | equals => .dequals
  | notEquals => .nequals
  | greater => .greater
  | geq => .geq
  | less => .less
  | leq => .leq
  | plus => .plus
  | minus | negative => .minus
  | times => .asterisk
  | divides => .slash
  | mod => .percent
  | not => .notKywd
  | abs => .absKywd
  | sqrt => .sqrtKywd
  | ceil => .ceilKywd
  | floor => .floorKywd
  | round => .roundKywd
  | trunc => .truncKywd
  | realToInt => .realToIntKywd
  | strlen => .strlenKywd
  | arraySize => .arraySizeKywd
  | arrayMaxSize => .arrayMaxSizeKywd
  | max => .maxKywd
  | min => .minKywd

/-- The sign of a text and its other characters. -/
def signedTokens (token : JavaString → Token) : JavaString → List Token
  | c :: text => if c = unit '-' then [.minus, token text] else [token (c :: text)]
  | [] => [token []]

def TreeLeaf.tokens : TreeLeaf → List Token
  | variableName name => [.ncName name]
  | boolean value => [if value then .trueKywd else .falseKywd]
  | integer text _ => signedTokens .int text
  | real text => signedTokens .double text
  | string value => [.string (quoted value)]
  | other => []

/-- Binary operators stand between their operands, and all other ones before parentheses. -/
def TreeOp.tokens (op : TreeOp) (operands : List (List Token)) : List Token :=
  if op.level.isSome then [op.token].intercalate operands
  else op.token :: .lparen :: ([Token.comma].intercalate operands ++ [.rparen])

/-- The tokens without any parentheses but those of functions and negations. -/
def treeTokens : Tree → List Token := Term.fold TreeLeaf.tokens TreeOp.tokens

@[simp] theorem treeTokens_leaf (leaf : TreeLeaf) :
  treeTokens (.leaf leaf) = leaf.tokens
  := rfl

/-- The text of a leaf is that of a token. -/
def TreeLeaf.Stands : TreeLeaf → Prop
  | variableName name => (Token.ncName name).IsText name
  | boolean _ => True
  | integer text value => ∃ negative w, text = withSign negative w ∧ (Token.int w).IsText w ∧
    compiledInteger negative w = value ∧ value ≠ none
  | real text => ∃ negative w, text = withSign negative w ∧ (Token.double w).IsText w
  | string value => Unescaped value
  | other => False

theorem NoBareParentheses.append {opened : Bool} {ts ts' : List Token}
    (h : NoBareParentheses opened ts) (h' : ∀ opened, NoBareParentheses opened ts') :
  NoBareParentheses opened (ts ++ ts')
  := by
  induction ts generalizing opened with
  | nil => exact h' opened
  | cons token ts ih => exact ⟨h.1, ih h.2⟩

/-- A part may end before the tokens: the first of them closes an expression around it, or is an
operator of a lower level. -/
def Nonterminal.Ends (n : Nonterminal) (rest : List Token) : Prop :=
  ∀ token ∈ rest.head?, token ∈ [Token.rparen, .comma, .bar] ∨
    ∃ level : Level, level.rank < n.rank ∧ ∃ op, (token, op) ∈ level.operators

/-- What the first token of a quantity tells about it. -/
inductive Lead where
  | parentheses | bars | sign
  | oneArg (op : TreeOp)
  | twoArg (op : TreeOp)
  | leaf (leaf : TreeLeaf)
  | none
  deriving DecidableEq

def Token.lead : Token → Lead
  | lparen => .parentheses
  | bar => .bars
  | minus => .sign
  | sqrtKywd => .oneArg .sqrt
  | absKywd => .oneArg .abs
  | ceilKywd => .oneArg .ceil
  | floorKywd => .oneArg .floor
  | roundKywd => .oneArg .round
  | truncKywd => .oneArg .trunc
  | realToIntKywd => .oneArg .realToInt
  | strlenKywd => .oneArg .strlen
  | arraySizeKywd => .oneArg .arraySize
  | arrayMaxSizeKywd => .oneArg .arrayMaxSize
  | maxKywd => .twoArg .max
  | minKywd => .twoArg .min
  | ncName name => .leaf (.variableName name)
  | int text => .leaf (integerLeaf false text)
  | double text => .leaf (.real text)
  | string text => .leaf (stringLeaf text)
  | trueKywd => .leaf (.boolean true)
  | falseKywd => .leaf (.boolean false)
  | _ => .none

/-- A number which may stand behind a sign. -/
def Token.signed : Token → Option TreeLeaf
  | int text => some (integerLeaf true text)
  | double text => some (.real (withSign true text))
  | _ => none

/-- The other alternatives are told by their tokens: they begin with tokens of their own, or with a
name which is not followed by the end of the part. -/
structure ReadsOthers (others : Nonterminal → List Token → Prop)
    (readOther : Nonterminal → List Token → Option (List Token)) : Prop where
  reads {n ts rest} : others n ts → Nonterminal.quantity.Ends rest →
    readOther n (ts ++ rest) = some rest
  name {n name rest} : Nonterminal.quantity.Ends rest → readOther n (.ncName name :: rest) = none
  apart {n token rest} : (∀ name, token ≠ .ncName name) → (∀ text, token ≠ .other text) →
    readOther n (token :: rest) = none

/-- What is to be read next: a part, or the operators of a level behind the tree. -/
inductive Task where
  | read (n : Nonterminal)
  | goOn (level : Level) (t : Tree)

/-- Reading from the left: the task takes tokens, has a tree, and leaves the rest.  Every choice is
made by the next tokens. -/
inductive Descends (readOther : Nonterminal → List Token → Option (List Token)) :
    Task → List Token → Tree → List Token → Prop
  | operand {level ts t rest t' rest'} (h : Descends readOther (.read level.next) ts t rest)
      (hrest : Descends readOther (.goOn level t) rest t' rest') :
      Descends readOther (.read (.binary level)) ts t' rest'
  | stop {level t ts} (hstop : ∀ token ∈ ts.head?, ∀ op, (token, op) ∉ level.operators) :
      Descends readOther (.goOn level t) ts t ts
  | repeated {level : Level} {token op ts t t₂ rest t' rest'} (hop : (token, op) ∈ level.operators)
      (hrepeats : level.repeats = true) (h : Descends readOther (.read level.next) ts t₂ rest)
      (hrest : Descends readOther (.goOn level (.node op [t, t₂])) rest t' rest') :
      Descends readOther (.goOn level t) (token :: ts) t' rest'
  | once {level : Level} {token op ts t t₂ rest} (hop : (token, op) ∈ level.operators)
      (hrepeats : level.repeats = false) (h : Descends readOther (.read level.next) ts t₂ rest) :
      Descends readOther (.goOn level t) (token :: ts) (.node op [t, t₂]) rest
  | minus {ts t rest} (hsigned : ∀ token ∈ ts.head?, token.signed = none)
      (h : Descends readOther (.read .numericQuantity) ts t rest) :
      Descends readOther (.read .unary) (.minus :: ts) (.node .negative [t]) rest
  | unaryOp {ts t rest} (h : Descends readOther (.read .logicalQuantity) ts t rest) :
      Descends readOther (.read .unary) (.notKywd :: ts) (.node .not [t]) rest
  | quantity {ts t rest} (hhead : ∀ token ∈ ts.head?, token ≠ .minus ∧ token ≠ .notKywd)
      (h : Descends readOther (.read .quantity) ts t rest) :
      Descends readOther (.read .unary) ts t rest
  | signed {n token leaf rest} (hn : n.rank = 7) (hsigned : token.signed = some leaf) :
      Descends readOther (.read n) (.minus :: token :: rest) (.leaf leaf) rest
  | parentheses {n ts t rest} (hn : n.IsQuantity)
      (h : Descends readOther (.read expression) ts t (.rparen :: rest)) :
      Descends readOther (.read n) (.lparen :: ts) t rest
  | bars {n ts t rest} (hn : n.IsQuantity)
      (h : Descends readOther (.read expression) ts t (.bar :: rest)) :
      Descends readOther (.read n) (.bar :: ts) (.node .abs [t]) rest
  | oneArgFn {n token op ts t rest} (hn : n.IsQuantity) (hlead : token.lead = .oneArg op)
      (h : Descends readOther (.read expression) ts t (.rparen :: rest)) :
      Descends readOther (.read n) (token :: .lparen :: ts) (.node op [t]) rest
  | twoArgFn {n token op ts t₁ rest₁ t₂ rest} (hn : n.IsQuantity) (hlead : token.lead = .twoArg op)
      (h₁ : Descends readOther (.read expression) ts t₁ (.comma :: rest₁))
      (h₂ : Descends readOther (.read expression) rest₁ t₂ (.rparen :: rest)) :
      Descends readOther (.read n) (token :: .lparen :: ts) (.node op [t₁, t₂]) rest
  | leaf {n token leaf rest} (hn : n.IsQuantity) (hlead : token.lead = .leaf leaf)
      (hother : readOther n (token :: rest) = none) :
      Descends readOther (.read n) (token :: rest) (.leaf leaf) rest
  | other {n ts rest} (hn : n.IsQuantity) (hother : readOther n ts = some rest) :
      Descends readOther (.read n) ts (.leaf .other) rest

variable {readOther : Nonterminal → List Token → Option (List Token)}

theorem eq_of_mem_operators {level level' : Level} {token : Token} {op op' : TreeOp}
    (h : (token, op) ∈ level.operators) (h' : (token, op') ∈ level'.operators) :
  level = level' ∧ op = op'
  := by
  have hsame : ∀ p ∈ level.operators, ∀ p' ∈ level'.operators, p.1 = p'.1 →
      level = level' ∧ p.2 = p'.2 := by
    revert level'
    cases level <;> intro level' <;> cases level' <;> simp [Level.operators]
  exact hsame _ h _ h' rfl

/-- Another alternative does not begin with a token which tells what it begins. -/
theorem readOther_eq_none (hothers : ReadsOthers others readOther) {token : Token}
    (hnone : token.lead ≠ .none) (hname : ∀ name, token ≠ .ncName name) (rest : List Token) :
  readOther n (token :: rest) = none
  := by
  apply hothers.apart hname
  rintro text rfl
  exact hnone rfl

theorem Nonterminal.Ends.mono {n n' : Nonterminal} {rest : List Token} (h : n.Ends rest)
    (hrank : n.rank ≤ n'.rank) :
  n'.Ends rest
  := by
  intro token htoken
  obtain hcloses | ⟨level, hlevel, hop⟩ := h token htoken
  · exact .inl hcloses
  · exact .inr ⟨level, hlevel.trans_le hrank, hop⟩

/-- A quantity is read where an operand without `NOT` is. -/
theorem Descends.unary (hothers : ReadsOthers others readOther) {rest : List Token}
    (h : Descends readOther (.read .quantity) ts t rest) :
  Descends readOther (.read .unary) ts t rest
  := by
  have hlead {token : Token} (htoken : token.lead ≠ .sign ∧ token.lead ≠ .none) :
      token ≠ .minus ∧ token ≠ .notKywd := by
    constructor <;> rintro rfl <;> simp [Token.lead] at htoken
  cases h with
  | signed hn hsigned => exact .signed rfl hsigned
  | parentheses hn h => exact .quantity (by simp) (.parentheses hn h)
  | bars hn h => exact .quantity (by simp) (.bars hn h)
  | oneArgFn hn hop h => exact .quantity (by simpa using hlead (by simp [hop])) (.oneArgFn hn hop h)
  | twoArgFn hn hop h₁ h₂ =>
    exact .quantity (by simpa using hlead (by simp [hop])) (.twoArgFn hn hop h₁ h₂)
  | leaf hn hleaf hother =>
    exact .quantity (by simpa using hlead (by simp [hleaf])) (.leaf hn hleaf hother)
  | other hn hother =>
    refine .quantity (fun token htoken => ?_) (.other hn hother)
    obtain ⟨tokens, rfl⟩ := List.head?_eq_some_iff.mp htoken
    constructor
    · rintro rfl
      rw [hothers.apart (by simp) (by simp)] at hother
      cases hother
    · rintro rfl
      rw [hothers.apart (by simp) (by simp)] at hother
      cases hother

theorem not_isQuantity_binary {level : Level} :
  ¬ (Nonterminal.binary level).IsQuantity
  := by
  rintro (h | h | h) <;> cases h

theorem not_isQuantity_unary :
  ¬ Nonterminal.unary.IsQuantity
  := by
  rintro (h | h | h) <;> cases h

theorem not_readOther (hothers : ReadsOthers others readOther) {token : Token}
    (hlead : token.lead ≠ .none) (hname : ∀ name, token ≠ .ncName name) {ts rest : List Token} :
  readOther n (token :: ts) ≠ some rest
  := by
  rw [readOther_eq_none hothers hlead hname]
  exact nofun

/-- The next tokens make every choice. -/
theorem Descends.unique (hothers : ReadsOthers others readOther) {task : Task} {rest : List Token}
    (h : Descends readOther task ts t rest) {t' : Tree} {rest' : List Token}
    (h' : Descends readOther task ts t' rest') :
  t' = t ∧ rest' = rest
  := by
  induction h generalizing t' rest' with
  | @operand level ts t rest _ _ h hrest ih ihrest =>
    cases h' with
    | operand h' hrest' =>
      obtain ⟨rfl, rfl⟩ := ih h'
      exact ihrest hrest'
    | signed hn => cases level <;> cases hn
    | parentheses hn | bars hn | oneArgFn hn | twoArgFn hn | leaf hn | other hn =>
      exact (not_isQuantity_binary hn).elim
  | stop hstop =>
    cases h' with
    | stop => exact ⟨rfl, rfl⟩
    | repeated hop => exact absurd hop (hstop _ rfl _)
    | once hop => exact absurd hop (hstop _ rfl _)
  | repeated hop hrepeats h hrest ih ihrest =>
    cases h' with
    | stop hstop => exact absurd hop (hstop _ rfl _)
    | repeated hop' _ h' hrest' =>
      obtain ⟨-, rfl⟩ := eq_of_mem_operators hop hop'
      obtain ⟨rfl, rfl⟩ := ih h'
      exact ihrest hrest'
    | once _ hrepeats' =>
      rw [hrepeats] at hrepeats'
      cases hrepeats'
  | once hop hrepeats h ih =>
    cases h' with
    | stop hstop => exact absurd hop (hstop _ rfl _)
    | repeated _ hrepeats' =>
      rw [hrepeats] at hrepeats'
      cases hrepeats'
    | once hop' _ h' =>
      obtain ⟨-, rfl⟩ := eq_of_mem_operators hop hop'
      obtain ⟨rfl, rfl⟩ := ih h'
      exact ⟨rfl, rfl⟩
  | minus hsigned h ih =>
    cases h' with
    | minus _ h' =>
      obtain ⟨rfl, rfl⟩ := ih h'
      exact ⟨rfl, rfl⟩
    | quantity hhead => exact absurd rfl (hhead _ rfl).1
    | signed _ hsigned' =>
      rw [hsigned _ rfl] at hsigned'
      cases hsigned'
    | oneArgFn hn | twoArgFn hn | leaf hn | other hn => exact (not_isQuantity_unary hn).elim
  | unaryOp h ih =>
    cases h' with
    | unaryOp h' =>
      obtain ⟨rfl, rfl⟩ := ih h'
      exact ⟨rfl, rfl⟩
    | quantity hhead => exact absurd rfl (hhead _ rfl).2
    | oneArgFn hn | twoArgFn hn | leaf hn | other hn => exact (not_isQuantity_unary hn).elim
  | quantity hhead h ih =>
    cases h' with
    | minus => exact absurd rfl (hhead _ rfl).1
    | unaryOp => exact absurd rfl (hhead _ rfl).2
    | quantity _ h' => exact ih h'
    | signed => exact absurd rfl (hhead _ rfl).1
    | parentheses hn | bars hn | oneArgFn hn | twoArgFn hn | leaf hn | other hn =>
      exact (not_isQuantity_unary hn).elim
  | signed hn hsigned =>
    cases h' with
    | @operand level => cases level <;> cases hn
    | minus hsigned' =>
      rw [hsigned' _ rfl] at hsigned
      cases hsigned
    | quantity hhead => exact absurd rfl (hhead _ rfl).1
    | signed _ hsigned' =>
      rw [hsigned] at hsigned'
      cases hsigned'
      exact ⟨rfl, rfl⟩
    | oneArgFn _ hlead | twoArgFn _ hlead | leaf _ hlead => cases hlead
    | other _ hother => exact (not_readOther hothers (by simp [Token.lead]) (by simp) hother).elim
  | parentheses hn h ih =>
    cases h' with
    | operand => exact (not_isQuantity_binary hn).elim
    | quantity => exact (not_isQuantity_unary hn).elim
    | parentheses _ h' =>
      obtain ⟨rfl, hrest⟩ := ih h'
      exact ⟨rfl, (List.cons.inj hrest).2⟩
    | oneArgFn _ hlead | twoArgFn _ hlead | leaf _ hlead => cases hlead
    | other _ hother => exact (not_readOther hothers (by simp [Token.lead]) (by simp) hother).elim
  | bars hn h ih =>
    cases h' with
    | operand => exact (not_isQuantity_binary hn).elim
    | quantity => exact (not_isQuantity_unary hn).elim
    | bars _ h' =>
      obtain ⟨rfl, hrest⟩ := ih h'
      exact ⟨rfl, (List.cons.inj hrest).2⟩
    | oneArgFn _ hlead | twoArgFn _ hlead | leaf _ hlead => cases hlead
    | other _ hother => exact (not_readOther hothers (by simp [Token.lead]) (by simp) hother).elim
  | oneArgFn hn hlead h ih =>
    cases h' with
    | operand => exact (not_isQuantity_binary hn).elim
    | minus | unaryOp | quantity => exact (not_isQuantity_unary hn).elim
    | signed | parentheses | bars => cases hlead
    | oneArgFn _ hlead' h' =>
      obtain ⟨rfl, hrest⟩ := ih h'
      obtain rfl := Lead.oneArg.inj (hlead.symm.trans hlead')
      exact ⟨rfl, (List.cons.inj hrest).2⟩
    | twoArgFn _ hlead' | leaf _ hlead' => cases hlead.symm.trans hlead'
    | other _ hother =>
      refine (not_readOther hothers (by simp [hlead]) ?_ hother).elim
      rintro name rfl
      cases hlead
  | twoArgFn hn hlead h₁ h₂ ih₁ ih₂ =>
    cases h' with
    | operand => exact (not_isQuantity_binary hn).elim
    | minus | unaryOp | quantity => exact (not_isQuantity_unary hn).elim
    | signed | parentheses | bars => cases hlead
    | twoArgFn _ hlead' h₁' h₂' =>
      obtain ⟨rfl, hcomma⟩ := ih₁ h₁'
      obtain rfl := (List.cons.inj hcomma).2
      obtain ⟨rfl, hrest⟩ := ih₂ h₂'
      obtain rfl := Lead.twoArg.inj (hlead.symm.trans hlead')
      exact ⟨rfl, (List.cons.inj hrest).2⟩
    | oneArgFn _ hlead' | leaf _ hlead' => cases hlead.symm.trans hlead'
    | other _ hother =>
      refine (not_readOther hothers (by simp [hlead]) ?_ hother).elim
      rintro name rfl
      cases hlead
  | leaf hn hlead hother =>
    cases h' with
    | operand => exact (not_isQuantity_binary hn).elim
    | minus | unaryOp | quantity => exact (not_isQuantity_unary hn).elim
    | signed | parentheses | bars => cases hlead
    | oneArgFn _ hlead' | twoArgFn _ hlead' => cases hlead.symm.trans hlead'
    | leaf _ hlead' =>
      obtain rfl := Lead.leaf.inj (hlead.symm.trans hlead')
      exact ⟨rfl, rfl⟩
    | other _ hother' =>
      rw [hother] at hother'
      cases hother'
  | other hn hother =>
    cases h' with
    | operand => exact (not_isQuantity_binary hn).elim
    | minus | unaryOp | quantity => exact (not_isQuantity_unary hn).elim
    | signed | parentheses | bars =>
      exact (not_readOther hothers (by simp [Token.lead]) (by simp) hother).elim
    | oneArgFn _ hlead | twoArgFn _ hlead =>
      refine (not_readOther hothers (by simp [hlead]) ?_ hother).elim
      rintro name rfl
      cases hlead
    | leaf _ _ hother' =>
      rw [hother] at hother'
      cases hother'
    | other _ hother' =>
      rw [hother] at hother'
      cases hother'
      exact ⟨rfl, rfl⟩

end Plexil.Compiler

import Plexil.Compiler.IntegerLiterals

/-!
# Array literals

An array literal looks at its elements from the first to the last, and keeps a working type.
Integers become Reals or Booleans where they stand behind one; where they stand before it, the
working type changes, and the whole array is asked to assume it in the end.
-/

open Strtol

namespace Plexil.Compiler

/-! ### Elements -/

/-- `literalScalarValue` -/
inductive ScalarLiteral where
  | boolean (value : Bool)
  | integer (negative : Bool) (token : IntegerToken)
  | real (negative : Bool) (text : List Char)
  | string (value : List Char)
  | date (value : List Char)
  | duration (value : List Char)

namespace ScalarLiteral

def token : ScalarLiteral → LiteralToken
  | boolean value => .boolean (if value then "true".toList else "false".toList)
  | integer negative token => token.literal negative
  | real negative text => if negative then .negDouble text else .double text
  | string value => .string value
  | date value => .dateLiteral value
  | duration value => .durationLiteral value

def dataType (x : ScalarLiteral) : PlexilDataType := x.token.dataType

/-- The value of an Integer. -/
def number : ScalarLiteral → Option Int
  | integer negative token => some (signed negative token.number)
  | _ => none

end ScalarLiteral

/-- The strings which the parsers of the Java library accept as dates and as durations. -/
structure TemporalSyntax where
  isDate : List Char → Bool
  isDuration : List Char → Bool

/-- `TemporalLiteralNode.earlyCheck` reports no diagnostic. -/
def TemporalSyntax.accepts (java : TemporalSyntax) : LiteralToken → Bool
  | .dateLiteral value => value.isEmpty || java.isDate value
  | .durationLiteral value => value.isEmpty || java.isDuration value
  | _ => true

/-! ### The check -/

structure ArrayLiteralNode where
  elements : List LiteralNode
  /-- The type, or null. -/
  m_dataType : Option PlexilDataType
  /-- There has been a diagnostic. -/
  reported : Bool

/-- The local variables of `earlyCheck`, and the elements. -/
structure Scan where
  workingType : PlexilDataType
  workingTypeChanged : Bool
  elements : List LiteralNode
  reported : Bool

def Scan.cons (elt : LiteralNode) (s : Scan) : Scan := { s with elements := elt :: s.elements }

/-- The loop of `earlyCheck` behind the first element; `none` is an exception. -/
def scan (workingType : PlexilDataType) (workingTypeChanged : Bool) :
    List LiteralNode → Option Scan
  | [] => some ⟨workingType, workingTypeChanged, [], false⟩
  | elt :: elts =>
    if elt.m_dataType = .error then some ⟨.unknownArray, workingTypeChanged, elt :: elts, false⟩
    else if workingType = elt.m_dataType then
      (scan workingType workingTypeChanged elts).map (.cons elt)
    else if elt.m_dataType = .integer ∧ (workingType = .real ∨ workingType = .boolean) then do
      let (answer, elt) ← elt.assumeType workingType
      if answer = .accepted then (scan workingType workingTypeChanged elts).map (.cons elt)
      else some ⟨.error, workingTypeChanged, elt :: elts, true⟩
    else if elt.m_dataType = .real ∧ workingType = .integer then
      (scan .real true elts).map (.cons elt)
    else if elt.m_dataType = .boolean ∧ workingType = .integer then
      (scan .boolean true elts).map (.cons elt)
    else some ⟨.error, workingTypeChanged, elt :: elts, true⟩

/-- The loop of `assumeType`, which stops at the first element which refuses. -/
def assumeElements (eltType : PlexilDataType) :
    List LiteralNode → Option (Bool × List LiteralNode)
  | [] => some (true, [])
  | elt :: elts => do
    let (answer, elt) ← elt.assumeType eltType
    if answer = .accepted then do
      let (success, elts) ← assumeElements eltType elts
      some (success, elt :: elts)
    else some (false, elt :: elts)

/-- The loop of `checkTypeConsistency`, and whether there has been a diagnostic. -/
def checkElements (eltType : PlexilDataType) :
    List LiteralNode → Option (Bool × List LiteralNode)
  | [] => some (false, [])
  | elt :: elts => do
    let (answer, elt) ← elt.assumeType eltType
    let (reported, elts) ← checkElements eltType elts
    some (decide (answer ≠ .accepted) || reported, elt :: elts)

namespace ArrayLiteralNode

def assumeType (node : ArrayLiteralNode) (t : Option PlexilDataType) :
    Option (Bool × ArrayLiteralNode) :=
  match t with
  | none => some (false, { node with reported := true })
  | some t =>
    if !t.isValid then some (false, { node with reported := true })
    else if t = .any then some (true, node)
    else if node.m_dataType = some t then some (true, node)
    else match t.arrayElementType with
      | some eltType => do
        let (success, elements) ← assumeElements eltType node.elements
        if success then some (true, { node with elements, m_dataType := some t })
        else some (false, { node with elements, reported := true })
      -- The elements refuse null, which has no name for the diagnostic.
      | none =>
        if node.elements = [] then some (true, { node with m_dataType := some t }) else none

/-- An array without elements has no working type to make an array type of. -/
def earlyCheck (java : TemporalSyntax) (tokens : List LiteralToken) : Option ArrayLiteralNode :=
  match tokens.map .ofToken with
  | [] => none
  | first :: elts => do
    let s ← scan first.m_dataType false elts
    let node : ArrayLiteralNode :=
      ⟨first :: s.elements, some .unknownArray, !tokens.all java.accepts || s.reported⟩
    if s.workingType = .error then some node
    else if s.workingTypeChanged then do
      let (_, node) ← node.assumeType s.workingType.arrayType
      some node
    else some { node with m_dataType := s.workingType.arrayType }

def checkTypeConsistency (node : ArrayLiteralNode) : Option ArrayLiteralNode := do
  let type ← node.m_dataType
  match type.arrayElementType with
  | some eltType => do
    let (reported, elements) ← checkElements eltType node.elements
    some { node with elements, reported := node.reported || reported }
  | none => if node.elements = [] then some node else none

/-- The semantic check of an array literal. -/
def semanticCheck (java : TemporalSyntax) (tokens : List LiteralToken) :
    Option ArrayLiteralNode :=
  (earlyCheck java tokens).bind checkTypeConsistency

/-- The type of the elements, which the array is written with. -/
def elementType (node : ArrayLiteralNode) : Option PlexilDataType :=
  node.m_dataType.bind PlexilDataType.arrayElementType

end ArrayLiteralNode

/-! ### Order -/

/-- The check accepts the array with elements of a type. -/
def AcceptedAs (java : TemporalSyntax) (xs : List ScalarLiteral) (t : PlexilDataType) : Prop :=
  ∃ node, ArrayLiteralNode.semanticCheck java (xs.map ScalarLiteral.token) = some node ∧
    node.reported = false ∧ node.elementType = some t

/-- An element is written as a value of a type; an Integer has the same value there. -/
def EmittedAs (t : PlexilDataType) (x : ScalarLiteral) (node : LiteralNode) : Prop :=
  ∃ text, Context.emit.run node = some (.element t text) ∧
    ∀ n, x.number = some n → ReadsAs t text n

/-- There are elements of two kinds, and no others. -/
def IsMix (P Q : ScalarLiteral → Prop) (xs : List ScalarLiteral) : Prop :=
  (∃ x ∈ xs, P x) ∧ (∃ x ∈ xs, Q x) ∧ ∀ x ∈ xs, P x ∨ Q x

/-- The order of the elements does not matter. -/
structure OrderFree (java : TemporalSyntax) (xs : List ScalarLiteral) : Prop where
  semanticCheck_ne : ∀ ys : List ScalarLiteral, ys.Perm xs →
    ArrayLiteralNode.semanticCheck java (ys.map ScalarLiteral.token) ≠ none
  acceptedAs_iff : ∀ ys : List ScalarLiteral, ys.Perm xs →
    ∀ t, AcceptedAs java ys t ↔ AcceptedAs java xs t
  real : IsMix (·.dataType = .integer) (·.dataType = .real) xs → AcceptedAs java xs .real
  boolean : IsMix (·.dataType = .boolean) (fun x => x.number = some 0 ∨ x.number = some 1) xs →
    AcceptedAs java xs .boolean
  emittedAs : ∀ ys : List ScalarLiteral, ys.Perm xs → ∀ node t,
    ArrayLiteralNode.semanticCheck java (ys.map ScalarLiteral.token) = some node →
    node.reported = false → node.elementType = some t → List.Forall₂ (EmittedAs t) ys node.elements

namespace ScalarLiteral

theorem dataType_integer (negative : Bool) (token : IntegerToken) :
  (integer negative token).dataType = .integer
  := by
  cases negative <;> rfl

theorem dataType_eq_integer {x : ScalarLiteral} (h : x.dataType = .integer) :
  ∃ negative token, x = integer negative token
  := by
  cases x with
  | integer negative token => exact ⟨negative, token, rfl⟩
  | real negative text => cases negative <;> cases h
  | _ => cases h

theorem isValid_dataType (x : ScalarLiteral) :
  x.dataType.isValid = true
  := by
  cases x with
  | integer negative token => rw [dataType_integer]; rfl
  | real negative text => cases negative <;> rfl
  | _ => rfl

/-- An Integer which is 0 or 1. -/
def IsBit (x : ScalarLiteral) : Prop :=
  ∃ token, x = integer false token ∧ (token.number = 0 ∨ token.number = 1)

/-- The literal can be an element of an array of a type. -/
def Fits (t : PlexilDataType) (x : ScalarLiteral) : Prop :=
  x.dataType = t ∨ t = .real ∧ x.dataType = .integer ∨ t = .boolean ∧ x.IsBit

theorem IsBit.dataType {x : ScalarLiteral} (h : x.IsBit) :
  x.dataType = .integer
  := by
  obtain ⟨token, rfl, -⟩ := h
  exact dataType_integer false token

theorem assumeType_self {node : LiteralNode} (h : node.m_dataType.isValid = true) :
  node.assumeType node.m_dataType = some (.accepted, node)
  := by
  unfold LiteralNode.assumeType
  simp [h]

theorem assumeType_of_fits {t : PlexilDataType} {x : ScalarLiteral} (hfits : x.Fits t)
    {type : PlexilDataType} (htype : type = x.dataType ∨ type = t) :
  LiteralNode.assumeType ⟨x.token, type⟩ t = some (.accepted, ⟨x.token, t⟩)
  := by
  have hvalid : t.isValid = true := by
    obtain rfl | ⟨rfl, -⟩ | ⟨rfl, -⟩ := hfits
    · exact x.isValid_dataType
    · rfl
    · rfl
  by_cases hself : type = t
  · subst hself
    exact assumeType_self hvalid
  obtain rfl : type = x.dataType := htype.resolve_right hself
  obtain hsame | ⟨rfl, hinteger⟩ | ⟨rfl, token, rfl, hbit⟩ := hfits
  · exact absurd hsame hself
  · obtain ⟨negative, token, rfl⟩ := dataType_eq_integer hinteger
    rw [hinteger]
    exact token.assumeType_literal negative rfl .real
  · rw [dataType_integer, ScalarLiteral.token, token.assumeType_literal false rfl .boolean]
    have hnumber : token.number < 2 ^ 31 := by omega
    have hanswer : answerTo .integer .boolean = none := rfl
    rw [hanswer]
    dsimp only
    rw [if_pos ⟨rfl, hnumber⟩, if_pos hbit]

end ScalarLiteral

open ScalarLiteral

/-! ### The working type -/

/-- The array has elements of a type: one is of that type from the start. -/
structure TypeOf (t : PlexilDataType) (xs : List ScalarLiteral) : Prop where
  mem : ∃ x ∈ xs, x.dataType = t
  fits : ∀ x ∈ xs, x.Fits t

theorem TypeOf.unique {t t' : PlexilDataType} {xs : List ScalarLiteral} (h : TypeOf t xs)
    (h' : TypeOf t' xs) :
  t = t'
  := by
  obtain ⟨x, hx, rfl⟩ := h.mem
  obtain ⟨y, hy, rfl⟩ := h'.mem
  obtain hsame | ⟨hreal, hinteger⟩ | ⟨hboolean, hbit⟩ := h'.fits x hx
  · exact hsame
  · obtain hsame | ⟨hreal', -⟩ | ⟨hboolean', -⟩ := h.fits y hy
    · exact hsame.symm
    · rw [hinteger] at hreal'
      cases hreal'
    · rw [hinteger] at hboolean'
      cases hboolean'
  · have hinteger := hbit.dataType
    obtain hsame | ⟨hreal', -⟩ | ⟨hboolean', -⟩ := h.fits y hy
    · exact hsame.symm
    · rw [hinteger] at hreal'
      cases hreal'
    · rw [hinteger] at hboolean'
      cases hboolean'

theorem TypeOf.perm {t : PlexilDataType} {xs ys : List ScalarLiteral} (hperm : ys.Perm xs) :
  TypeOf t ys ↔ TypeOf t xs
  := by
  constructor
  · rintro ⟨⟨x, hx, htype⟩, hfits⟩
    exact ⟨⟨x, hperm.mem_iff.mp hx, htype⟩, fun y hy => hfits y (hperm.mem_iff.mpr hy)⟩
  · rintro ⟨⟨x, hx, htype⟩, hfits⟩
    exact ⟨⟨x, hperm.mem_iff.mpr hx, htype⟩, fun y hy => hfits y (hperm.mem_iff.mp hy)⟩

/-- The working type behind some elements. -/
structure WorkingType (w : PlexilDataType) (ps : List ScalarLiteral) : Prop where
  mem : ∃ x ∈ ps, x.dataType = w
  all : ∀ x ∈ ps, x.dataType = w ∨ x.dataType = .integer ∧ (w = .real ∨ w = .boolean)

theorem WorkingType.append {w : PlexilDataType} {ps : List ScalarLiteral} (h : WorkingType w ps)
    {x : ScalarLiteral}
    (hx : x.dataType = w ∨ x.dataType = .integer ∧ (w = .real ∨ w = .boolean)) :
  WorkingType w (ps ++ [x])
  := by
  obtain ⟨⟨p, hp, hptype⟩, hall⟩ := h
  refine ⟨⟨p, List.mem_append_left _ hp, hptype⟩, ?_⟩
  intro y hy
  obtain hy | hy := List.mem_append.mp hy
  · exact hall y hy
  · rw [List.mem_singleton.mp hy]
    exact hx

/-- An Integer array becomes one of Reals or Booleans. -/
theorem WorkingType.change {ps : List ScalarLiteral} (h : WorkingType .integer ps)
    {x : ScalarLiteral} (hx : x.dataType = .real ∨ x.dataType = .boolean) :
  WorkingType x.dataType (ps ++ [x])
  := by
  refine ⟨⟨x, by simp, rfl⟩, ?_⟩
  intro y hy
  obtain hy | hy := List.mem_append.mp hy
  · obtain hinteger | ⟨hinteger, -⟩ := h.all y hy
    · exact .inr ⟨hinteger, hx⟩
    · exact .inr ⟨hinteger, hx⟩
  · rw [List.mem_singleton.mp hy]
    exact .inl rfl

/-- The element behind its early check. -/
def ScalarLiteral.node (x : ScalarLiteral) : LiteralNode := ⟨x.token, x.dataType⟩

/-- An element which has been looked at may have been persuaded to be of the working type. -/
def Scanned (w : PlexilDataType) (x : ScalarLiteral) (elt : LiteralNode) : Prop :=
  elt = x.node ∨ elt = ⟨x.token, w⟩ ∧ x.Fits w

/-- What the loop of `earlyCheck` leaves behind. -/
inductive ScanSpec (ps xs : List ScalarLiteral) (w : PlexilDataType) (s : Scan) : Prop where
  | failed (workingType : s.workingType = .error) (reported : s.reported = true)
      (typeOf : ¬∃ t, TypeOf t (ps ++ xs))
  | passed (workingType : WorkingType s.workingType (ps ++ xs)) (reported : s.reported = false)
      (fits : s.workingTypeChanged = false → ∀ x ∈ ps ++ xs, x.Fits s.workingType)
      (eq : w ≠ .integer → s.workingType = w)
      (elements : List.Forall₂ (Scanned s.workingType) xs s.elements)

/-- No Integer throws when it is to be a Boolean. -/
def Coercible (xs : List ScalarLiteral) : Prop :=
  (∃ x ∈ xs, x.dataType = .boolean) → ∀ negative token,
    .integer negative token ∈ xs → negative = false ∧ token.number < 2 ^ 31

theorem ScanSpec.cons {ps xs : List ScalarLiteral} {w w' : PlexilDataType} {s : Scan}
    {x : ScalarLiteral} {elt : LiteralNode} (h : ScanSpec (ps ++ [x]) xs w' s)
    (hw : w ≠ .integer → w' = w ∧ w' ≠ .integer)
    (helt : elt = x.node ∨ elt = ⟨x.token, w⟩ ∧ x.Fits w ∧ w ≠ .integer) :
  ScanSpec ps (x :: xs) w (s.cons elt)
  := by
  cases h with
  | failed workingType reported typeOf =>
    rw [List.append_assoc] at typeOf
    exact .failed workingType reported typeOf
  | passed workingType reported fits eq elements =>
    rw [List.append_assoc] at workingType fits
    have heq : w ≠ .integer → s.workingType = w :=
      fun hne => (eq (hw hne).2).trans (hw hne).1
    refine .passed workingType reported fits heq (.cons ?_ elements)
    obtain helt | ⟨helt, hfits, hne⟩ := helt
    · exact .inl helt
    · show elt = x.node ∨ elt = ⟨x.token, s.workingType⟩ ∧ x.Fits s.workingType
      rw [heq hne]
      exact .inr ⟨helt, hfits⟩

theorem Scanned.assumeType {t : PlexilDataType} {x : ScalarLiteral} {elt : LiteralNode}
    (h : Scanned t x elt) (hfits : x.Fits t) :
  elt.assumeType t = some (.accepted, ⟨x.token, t⟩)
  := by
  obtain rfl | ⟨rfl, -⟩ := h
  · exact assumeType_of_fits hfits (.inl rfl)
  · exact assumeType_of_fits hfits (.inr rfl)

theorem Coercible.perm {xs ys : List ScalarLiteral} (h : Coercible xs) (hperm : ys.Perm xs) :
  Coercible ys
  := by
  rintro ⟨x, hx, htype⟩ negative token hmem
  exact h ⟨x, hperm.mem_iff.mp hx, htype⟩ negative token (hperm.mem_iff.mp hmem)

end Plexil.Compiler

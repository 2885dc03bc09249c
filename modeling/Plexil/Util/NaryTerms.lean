import Mathlib.Algebra.BigOperators.Group.List.Basic
import Mathlib.Algebra.Ring.Nat

/-!
# Terms up to associativity

A term applies operators to lists of operands.  Flattening writes an operand with the operator of
the term around it into the list of operands: at every place when the operator is associative, and
at the first place when it associates to the left.  An operand is written into the list only when
its operator stands between operands of its own, so that there are at least two of them.

What is computed from the bottom up is the same before and after flattening, when the computation
at an operator respects its associativity.
-/

namespace NaryTerms

inductive Associativity where
  | none
  | left
  | full
  deriving DecidableEq

inductive Term (ω α : Type) where
  | leaf (a : α)
  | node (op : ω) (operands : List (Term ω α))

namespace Term

variable {ω α β : Type}

@[elab_as_elim, induction_eliminator]
theorem induction {motive : Term ω α → Prop} (leaf : ∀ a, motive (leaf a))
    (node : ∀ op operands, (∀ t ∈ operands, motive t) → motive (node op operands)) :
  ∀ t, motive t
  | .leaf a => leaf a
  | .node op operands => node op operands fun t _ => induction leaf node t

/-! ### Computations from the bottom up -/

section Fold

variable (leaf : α → β) (node : ω → List β → β)

mutual

def fold : Term ω α → β
  | .leaf a => leaf a
  | .node op operands => node op (foldAll operands)

def foldAll : List (Term ω α) → List β
  | [] => []
  | t :: ts => fold t :: foldAll ts

end

@[simp] theorem fold_leaf (a : α) : fold leaf node (.leaf a) = leaf a := rfl

end Fold

/-- The leaves from left to right. -/
def leaves : Term ω α → List α := fold (fun a => [a]) fun _ => List.flatten

/-- How many operators have the property. -/
def occurrences (p : ω → Bool) : Term ω α → Nat :=
  fold (fun _ => 0) fun op counts => (if p op then 1 else 0) + counts.sum

/-- The term with other operators and other leaves. -/
def map {ω' α' : Type} (f : ω → ω') (g : α → α') : Term ω α → Term ω' α' :=
  fold (fun a => leaf (g a)) fun op ts => node (f op) ts

/-- A property of the operators and their operands, at all places of the term. -/
inductive Everywhere (p : ω → List (Term ω α) → Prop) : Term ω α → Prop
  | leaf (a : α) : Everywhere p (leaf a)
  | node {op : ω} {ts : List (Term ω α)} (h : p op ts) (hts : ∀ t ∈ ts, Everywhere p t) :
      Everywhere p (node op ts)

@[simp] theorem leaves_leaf (a : α) : leaves (.leaf a : Term ω α) = [a] := rfl

@[simp] theorem occurrences_leaf (p : ω → Bool) (a : α) :
  occurrences p (.leaf a : Term ω α) = 0
  := rfl

section Map

variable {ω' α' : Type} (f : ω → ω') (g : α → α')

@[simp] theorem map_leaf (a : α) : map f g (.leaf a : Term ω α) = .leaf (g a) := rfl

end Map

@[simp] theorem everywhere_leaf (p : ω → List (Term ω α) → Prop) (a : α) :
  Everywhere p (.leaf a)
  := .leaf a

variable [DecidableEq ω] (assoc : ω → Associativity)

/-- What an operand becomes in the list of operands of an operator. -/
def operandsUnder (op : ω) : Term ω α → List (Term ω α)
  | leaf a => [leaf a]
  | node op' ts => if op' = op ∧ 2 ≤ ts.length then ts else [node op' ts]

/-- The list of operands with those of the same operator written into it. -/
def splice (op : ω) (ts : List (Term ω α)) : List (Term ω α) :=
  match assoc op, ts with
  | .full, ts => ts.flatMap (operandsUnder op)
  | .left, t :: t' :: ts => operandsUnder op t ++ t' :: ts
  | _, ts => ts

def flatten : Term ω α → Term ω α := fold leaf fun op ts => node op (splice assoc op ts)

@[simp] theorem flatten_leaf (a : α) : flatten assoc (.leaf a) = .leaf a := rfl

variable {assoc}

variable {leaf : α → β} {node : ω → List β → β}

end Term

end NaryTerms

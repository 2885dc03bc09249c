import Mathlib.Algebra.Order.BigOperators.Group.List
import Plexil.Decompiler.DecompiledText

/-!
# What is read back from a decompiled expression

The decompiler writes no parentheses around operands, a second model for a subtraction which is not
the whole right side, and the text `null` for the comparisons which it does not know.  All other
expressions are read back when the levels of the operators make the parentheses unnecessary.
-/

open NaryTerms

namespace Plexil.Decompiler

open Compiler

/-! ### The models of an element -/

/-- The model which stands for an element. -/
def Operator.model (op : Operator) : ModelClass := (generateChild op).headD .base

/-- The decompiler knows the element. -/
def Operator.printed : Operator → Bool
  | eqArray | neArray | neString => false
  | _ => true

def subtractions : Expr → Nat := Term.occurrences fun op => op = .sub

/-- The comparisons which the decompiler does not know. -/
def unprinted : Expr → Nat := Term.occurrences fun op => !op.printed

/-- The subtractions but for one which is the whole expression. -/
def innerSubtractions : Expr → Nat
  | .leaf _ => 0
  | .node _ es => (es.map subtractions).sum

/-- A right side is printed when it is an operator, a function or a text.  A digit is not read as a
Boolean value. -/
def PrintsRightSide : Expr → Prop
  | .node op _ => op ≠ .not
  | .leaf (.booleanValue _ digit) => digit = false
  | .leaf operand => operand.text ≠ []

/-- What is printed at the site shows the operators and the operands, and the levels of the
operators say which operands they have. -/
structure Readable (site : Site) (e : Expr) : Prop where
  operands : ∀ operand ∈ e.leaves, operand.Stands
  subtractions : innerSubtractions e = 0
  comparisons : unprinted e = 0
  leveled : Term.Everywhere Leveled (flattenTree (treeOf e))
  rightSide : site = .rightSide → PrintsRightSide e

theorem Operand.Stands.treeLeaf {operand : Operand} (h : operand.Stands) :
  operand.treeLeaf.Stands
  := by
  cases operand with
  | stringValue value => exact h.unescaped
  | _ => exact h

end Plexil.Decompiler

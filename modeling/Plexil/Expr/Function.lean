import Mathlib.Data.List.Basic

/-!
# Operators and functions

An operator has separate code for one argument, for two, and for any number of them; a
function applies its operator to the values of its arguments.  An argument is an element
of a type `β` and the result of the operator one of a type `R`.
-/

namespace Plexil

/-- An operator on arguments in `β` with results in `R`. -/
structure Operator (β R : Type) where
  name : String
  checkArgCount : Nat → Bool
  calcOne : β → R
  calcTwo : β → β → R
  calcMany : List β → R

/-- The value of a function: functions of one and of two arguments are specialised. -/
def Function.getValue {β R : Type} (oper : Operator β R) : List β → R
  | [arg] => oper.calcOne arg
  | [argA, argB] => oper.calcTwo argA argB
  | args => oper.calcMany args

end Plexil

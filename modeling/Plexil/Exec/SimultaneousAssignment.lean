import Plexil.Exec.Assignment
import Mathlib.Data.List.Induction
import Mathlib.Data.List.Perm.Basic
import Mathlib.Data.List.Nodup
import Mathlib.Data.Option.Basic

/-!
# Simultaneous assignment

The simultaneous assignment of a list of assignments evaluates every array index in the
state before any write.  `performAssignments` executes the assignments one after another,
and evaluates the index of an array element only when its assignment is executed.  The
two agree for every order of the list exactly when no index is disturbed by the
assignments executed before its own.
-/

namespace Plexil

variable {V α : Type} [DecidableEq V]

namespace Assignment

/-- The base variable of the destination. -/
def base (assign : Assignment V α) : V := assign.dest.getBaseVariable

/-- The value of the index of the destination; a variable has no index. -/
def indexIn (assign : Assignment V α) (store : Store V α) : Option Int :=
  match assign.dest with
  | .variable _ => none
  | .element _ index _ => index store

/-- The effect of an assignment on its base variable `x`, at a given index. -/
def writeAt (assign : Assignment V α) (index : Option Int) (x : Variable α) :
    Option (Variable α) :=
  match assign.dest with
  | .variable _ => x.setValue assign.value
  | .element _ _ _ => Destination.setElement x index assign.value

/-- The base variable after the assignment alone is executed in `store`. -/
def written (assign : Assignment V α) (store : Store V α) : Option (Variable α) :=
  assign.writeAt (assign.indexIn store) (store assign.base)

end Assignment

/-- The store after the assignments are executed in order. -/
def storeAfter (assigns : List (Assignment V α)) (store : Store V α) : Option (Store V α) :=
  (performEach Assignment.execute assigns store).map Prod.snd

@[simp]
theorem storeAfter_nil (store : Store V α) :
  storeAfter [] store = some store
  := rfl

section

variable [DecidableEq α]

end

/-! ### An index assigned in the same step -/

/-- The elements of an array variable. -/
def Variable.elements : Variable α → List (Option α)
  | .scalar _ => []
  | .array x => x.value

/-- The value of a scalar variable. -/
def Variable.scalarValue : Variable α → Option α
  | .scalar x => x.value
  | .array _ => none

/-- The variables `i`, with value 0, and `a`, with the elements 10 and 20. -/
def indexedStore : Store String Int := fun v =>
  if v = "a" then .array ⟨some, fun _ => true, some 2, true, [some 10, some 20], false, []⟩
  else .scalar ⟨some, some 0, none⟩

/-- The assignment `a[i] = 5`. -/
def assignElement : Assignment String Int :=
  ⟨.element "a" (fun store => (store "i").scalarValue) none, fun _ => .scalar 5, .scalar 5,
    .initial, .initial⟩

end Plexil

import Mathlib.Algebra.Ring.Int.Defs
import Mathlib.Data.List.Basic

/-!
# Checked arithmetic

The integers which fit in a signed word of `w` bits, the word of an integer which fits,
and left folds of operations whose results have to fit at each step.
-/

namespace CheckedInt

variable {w : Nat}

/-- The integer `x` fits in a signed word of `w` bits. -/
def Fits (w : Nat) (x : Int) : Prop := -2 ^ (w - 1) ≤ x ∧ x < 2 ^ (w - 1)

instance (w : Nat) (x : Int) : Decidable (Fits w x) :=
  inferInstanceAs (Decidable (_ ∧ _))

theorem fits_toInt (a : BitVec w) :
  Fits w a.toInt
  := ⟨a.le_toInt, a.toInt_lt⟩

/-- The word of an integer, if it fits. -/
def word (w : Nat) (x : Int) : Option (BitVec w) :=
  if Fits w x then some (BitVec.ofInt w x) else none

theorem toInt_ofInt_of_fits (hw : 0 < w) {x : Int} (h : Fits w x) :
  (BitVec.ofInt w x).toInt = x
  := BitVec.toInt_ofInt_eq_self hw h.1 h.2

theorem word_eq_some (hw : 0 < w) {x : Int} {a : BitVec w} (h : word w x = some a) :
  a.toInt = x
  := by
  unfold word at h
  split at h
  · rename_i hfits
    obtain rfl := Option.some.inj h
    apply toInt_ofInt_of_fits hw hfits
  · cases h

theorem word_isSome {x : Int} :
  (word w x).isSome ↔ Fits w x
  := by
  unfold word
  split <;> simpa

@[simp]
theorem word_toInt (a : BitVec w) :
  word w a.toInt = some a
  := by
  rw [word, if_pos (fits_toInt a), BitVec.ofInt_toInt]

/-! ### Folds -/

/-- The left fold of an operation whose result has to fit at each step. -/
def fold (op : Int → Int → Int) (acc : BitVec w) (l : List (BitVec w)) : Option (BitVec w) :=
  l.foldlM (fun acc a => word w (op acc.toInt a.toInt)) acc

theorem fold_cons (op : Int → Int → Int) (acc a : BitVec w) (l : List (BitVec w)) :
  fold op acc (a :: l) = (word w (op acc.toInt a.toInt)).bind fun acc => fold op acc l
  := rfl

@[simp]
theorem fold_singleton (op : Int → Int → Int) (acc a : BitVec w) :
  fold op acc [a] = word w (op acc.toInt a.toInt)
  := by
  rw [fold_cons]
  cases word w (op acc.toInt a.toInt) <;> rfl

/-- A fold which has a result has the result of the fold over the integers. -/
theorem fold_eq_some (hw : 0 < w) {op : Int → Int → Int} {acc v : BitVec w}
    {l : List (BitVec w)} (h : fold op acc l = some v) :
  v.toInt = (l.map BitVec.toInt).foldl op acc.toInt
  := by
  induction l generalizing acc with
  | nil =>
    obtain rfl := Option.some.inj h
    rfl
  | cons a l ih =>
    rw [fold_cons] at h
    obtain ⟨acc', hword, h⟩ := Option.bind_eq_some_iff.mp h
    rw [ih h, word_eq_some hw hword]
    rfl

/-- A fold has a result exactly when all partial results fit. -/
theorem fold_isSome (hw : 0 < w) (op : Int → Int → Int) (acc : BitVec w) (l : List (BitVec w)) :
  (fold op acc l).isSome ↔ ∀ x ∈ (l.map BitVec.toInt).scanl op acc.toInt, Fits w x
  := by
  induction l generalizing acc with
  | nil => simp [fold, fits_toInt]
  | cons a l ih =>
    rw [fold_cons, List.map_cons, List.scanl_cons, List.forall_mem_cons]
    rw [and_iff_right (fits_toInt acc)]
    by_cases hfits : Fits w (op acc.toInt a.toInt)
    · rw [word, if_pos hfits, Option.bind_some, ih, toInt_ofInt_of_fits hw hfits]
    · rw [word, if_neg hfits]
      apply iff_of_false (by simp)
      intro h
      apply hfits
      apply h
      cases l <;> simp

end CheckedInt

import Mathlib.Data.List.Basic
import Mathlib.Tactic.Use

/-!
# Lower bounds

The binary search for the first element of a list which is not before a key.  In a list where the
elements before the key come first, it finds the place where they end.
-/

namespace LowerBound

variable {α : Type*} (before : α → Bool)

/-- The search among the `len` elements from `first` on. -/
def lowerBoundFrom (xs : List α) (first len : Nat) : Nat :=
  if len = 0 then first
  else
    let half := len / 2
    let mid := first + half
    if xs[mid]?.any before then lowerBoundFrom xs (mid + 1) (len - half - 1)
    else lowerBoundFrom xs first half
termination_by len

def lowerBound (xs : List α) : Nat := lowerBoundFrom before xs 0 xs.length

variable {before} {ys zs : List α}

theorem any_getElem?_append (hys : ∀ y ∈ ys, before y = true) (hzs : ∀ z ∈ zs, before z = false)
    {i : Nat} (hi : i < (ys ++ zs).length) :
  (ys ++ zs)[i]?.any before = true ↔ i < ys.length
  := by
  rw [List.getElem?_eq_getElem hi, Option.any_some]
  by_cases hlt : i < ys.length
  · rw [List.getElem_append_left hlt]
    simp [hys, hlt]
  · rw [List.getElem_append_right (Nat.le_of_not_lt hlt)]
    simp [hzs, hlt]

/-- The search ends where the elements before the key end, if they end in its range. -/
theorem lowerBoundFrom_append (hys : ∀ y ∈ ys, before y = true)
    (hzs : ∀ z ∈ zs, before z = false) {first len : Nat} (hfirst : first ≤ ys.length)
    (hlast : ys.length ≤ first + len) (hlen : first + len ≤ (ys ++ zs).length) :
  lowerBoundFrom before (ys ++ zs) first len = ys.length
  := by
  fun_induction lowerBoundFrom before (ys ++ zs) first len with
  | case1 first => omega
  | case2 first len hpos half mid hbefore ih =>
    have hmid := (any_getElem?_append hys hzs (by omega)).mp hbefore
    apply ih <;> omega
  | case3 first len hpos half mid hnot ih =>
    have hmid := mt (any_getElem?_append hys hzs (by omega)).mpr hnot
    apply ih <;> omega

theorem lowerBound_append (hys : ∀ y ∈ ys, before y = true) (hzs : ∀ z ∈ zs, before z = false) :
  lowerBound before (ys ++ zs) = ys.length
  := by
  apply lowerBoundFrom_append hys hzs
  · apply Nat.zero_le
  · rw [Nat.zero_add, List.length_append]
    apply Nat.le_add_right
  · apply Nat.le_of_eq (Nat.zero_add _)

/-- The elements before the key come first. -/
def Partitioned (before : α → Bool) (xs : List α) : Prop :=
  xs.Pairwise fun x y => before y = true → before x = true

theorem Partitioned.exists_append {xs : List α} (h : Partitioned before xs) :
  ∃ ys zs, xs = ys ++ zs ∧ (∀ y ∈ ys, before y = true) ∧ ∀ z ∈ zs, before z = false
  := by
  induction xs with
  | nil =>
    use [], []
    simp
  | cons x xs ih =>
    obtain ⟨hx, hxs⟩ := List.pairwise_cons.mp h
    cases hbefore : before x with
    | true =>
      obtain ⟨ys, zs, rfl, hys, hzs⟩ := ih hxs
      use x :: ys, zs
      simpa [hbefore] using ⟨hys, hzs⟩
    | false =>
      use [], x :: xs
      simp only [List.nil_append, List.not_mem_nil, false_implies, implies_true,
        List.forall_mem_cons, hbefore, true_and]
      intro z hz
      rw [← Bool.not_eq_true]
      intro hbeforez
      have htrue := hx z hz hbeforez
      rw [hbefore] at htrue
      contradiction

end LowerBound

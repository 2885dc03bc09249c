import Plexil.Util.Lexicographic
import Mathlib.Data.Option.Basic

/-!
# Equality by keys

A comparison is determined by keys which may be missing when two elements are equal exactly
when they have the same key: it is symmetric and transitive, and an element is equal to itself
exactly when it has a key.  The equality of floating point numbers is of this form.
-/

namespace PartialEquality

variable {α κ : Type*}

/-- The comparison `eq` is the equality of the keys. -/
def ByKey (key : α → Option κ) (eq : α → α → Bool) : Prop :=
  ∀ x y, eq x y = true ↔ ∃ k, key x = some k ∧ key y = some k

variable {key : α → Option κ} {eq : α → α → Bool}

theorem ByKey.symm (h : ByKey key eq) {x y : α} (hxy : eq x y = true) :
  eq y x = true
  := by
  obtain ⟨k, hx, hy⟩ := (h x y).mp hxy
  exact (h y x).mpr ⟨k, hy, hx⟩

theorem ByKey.trans (h : ByKey key eq) {x y z : α} (hxy : eq x y = true) (hyz : eq y z = true) :
  eq x z = true
  := by
  obtain ⟨k, hx, hy⟩ := (h x y).mp hxy
  obtain ⟨k', hy', hz⟩ := (h y z).mp hyz
  obtain rfl : k = k' := Option.some.inj (hy.symm.trans hy')
  exact (h x z).mpr ⟨k, hx, hz⟩

theorem ByKey.refl_iff (h : ByKey key eq) (x : α) :
  eq x x = true ↔ (key x).isSome
  := by
  rw [h, Option.isSome_iff_exists]
  simp only [and_self]

/-- The keys of a list. -/
def listKey (key : α → Option κ) : List α → Option (List κ)
  | [] => some []
  | x :: xs => (key x).bind fun k => (listKey key xs).map (k :: ·)

theorem listKey_isSome (key : α → Option κ) (xs : List α) :
  (listKey key xs).isSome ↔ ∀ x ∈ xs, (key x).isSome
  := by
  induction xs with
  | nil => simp [listKey]
  | cons x xs ih =>
    rw [listKey, List.forall_mem_cons, ← ih]
    cases key x <;> simp

/-- Lists are equal element by element when they have the same keys. -/
theorem ByKey.list (h : ByKey key eq) :
  ByKey (listKey key) (Lexicographic.equal eq)
  := by
  intro xs ys
  induction xs generalizing ys with
  | nil =>
    cases ys with
    | nil => simp [Lexicographic.equal, listKey]
    | cons y ys =>
      simp only [Lexicographic.equal, listKey]
      cases key y <;> cases listKey key ys <;> simp
  | cons x xs ih =>
    cases ys with
    | nil =>
      simp only [Lexicographic.equal, listKey]
      cases key x <;> cases listKey key xs <;> simp
    | cons y ys =>
      rw [Lexicographic.equal, Bool.and_eq_true, ih, h, listKey, listKey]
      cases key x <;> cases key y <;> cases listKey key xs <;> cases listKey key ys <;>
        simp

end PartialEquality

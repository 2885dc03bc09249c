import Mathlib.Data.List.Forall2
import Mathlib.Data.List.Lex
import Mathlib.Order.Lattice
import Mathlib.Order.Defs.Unbundled

/-!
# Lexicographic comparison

`less f` compares two lists of the same length element by element, the way a loop over
an index does: the first elements which differ decide.  A comparison which is determined by
keys in a linear order is a strict weak order, and it does not separate the elements of the
same key.
-/

namespace Lexicographic

variable {α κ : Type*}

/-- The comparison of two lists of the same length by the comparison `f` of elements. -/
def less (f : α → α → Bool) : List α → List α → Bool
  | a :: as, b :: bs =>
    if f a b then true
    else if f b a then false
    else less f as bs
  | _, _ => false

/-- Whether two lists are equal with respect to the comparison `f` of elements. -/
def equal (f : α → α → Bool) : List α → List α → Bool
  | [], [] => true
  | a :: as, b :: bs => f a b && equal f as bs
  | _, _ => false

variable [LinearOrder κ] {key : α → κ}

/-- When a key of the elements determines their order, the keys determine the order of the
lists. -/
theorem less_iff {f : α → α → Bool} {P : α → Prop}
    (hless : ∀ a b, P a → P b → (f a b = true ↔ key a < key b)) {as bs : List α}
    (has : ∀ a ∈ as, P a) (hbs : ∀ b ∈ bs, P b) (hlength : as.length = bs.length) :
  less f as bs = true ↔ as.map key < bs.map key
  := by
  induction as generalizing bs with
  | nil =>
    rw [List.length_nil, eq_comm, List.length_eq_zero_iff] at hlength
    simp [hlength, less]
  | cons a as ih =>
    obtain _ | ⟨b, bs⟩ := bs
    · contradiction
    · obtain ⟨ha, has⟩ := List.forall_mem_cons.mp has
      obtain ⟨hb, hbs⟩ := List.forall_mem_cons.mp hbs
      rw [List.map_cons, List.map_cons, List.cons_lt_cons_iff, less]
      obtain hlt | heq | hgt := lt_trichotomy (key a) (key b)
      · rw [if_pos ((hless a b ha hb).mpr hlt)]
        simp [hlt]
      · rw [if_neg, if_neg, ih has hbs (Nat.succ.inj hlength)]
        · simp [heq]
        · rw [hless b a hb ha]
          exact heq.symm.not_lt
        · rw [hless a b ha hb]
          exact heq.not_lt
      · rw [if_neg, if_pos ((hless b a hb ha).mpr hgt)]
        · simp [hgt.not_gt, hgt.ne']
        · rw [hless a b ha hb]
          exact hgt.not_gt

theorem equal_iff {f : α → α → Bool} {as bs : List α} :
  equal f as bs = true ↔ List.Forall₂ (fun a b => f a b = true) as bs
  := by
  induction as generalizing bs with
  | nil =>
    cases bs <;> simp [equal]
  | cons a as ih =>
    cases bs with
    | nil => simp [equal]
    | cons b bs => simp [equal, ih]

/-! ### Comparison of keys -/

variable {r : α → α → Prop} (key)

theorem isStrictWeakOrder (hr : ∀ a b, r a b ↔ key a < key b) :
  IsStrictWeakOrder α r where
  irrefl a := by
    rw [hr]
    apply lt_irrefl
  trans a b c := by
    rw [hr, hr, hr]
    apply lt_trans
  incomp_trans a b c := by
    simp only [hr, not_lt]
    rintro ⟨hba, hab⟩ ⟨hcb, hbc⟩
    exact ⟨hcb.trans hba, hab.trans hbc⟩

theorem incomparable_iff (hr : ∀ a b, r a b ↔ key a < key b) (a b : α) :
  ¬ r a b ∧ ¬ r b a ↔ key a = key b
  := by
  rw [hr, hr, not_lt, not_lt, and_comm, le_antisymm_iff]

end Lexicographic

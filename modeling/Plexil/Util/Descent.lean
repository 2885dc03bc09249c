import Mathlib.Logic.Relation
import Mathlib.Order.Preorder.Finite
import Mathlib.Order.WellFounded

/-!
# Descent in a relation

A relation descends from an element when there is no infinite chain from it.  A relation
to finitely many elements descends from an element exactly when no cycle can be reached.
-/

namespace Descent

open Relation

variable {α : Type*}

/-- There is no infinite chain `a, b, c, …` with `edge a b`, `edge b c`, …. -/
def Descends (edge : α → α → Prop) (a : α) : Prop := Acc (fun b a => edge a b) a

/-- No element on a cycle can be reached from `a`. -/
def NoCycle (edge : α → α → Prop) (a : α) : Prop :=
  ∀ b, ReflTransGen edge a b → ¬ TransGen edge b b

variable {edge : α → α → Prop}

theorem Descends.intro {a : α} (h : ∀ b, edge a b → Descends edge b) :
  Descends edge a
  := Acc.intro a h

theorem Descends.of_edge {a b : α} (h : Descends edge a) (hab : edge a b) :
  Descends edge b
  := Acc.inv h hab

theorem Descends.of_reach {a b : α} (h : Descends edge a) (hab : ReflTransGen edge a b) :
  Descends edge b
  := by
  induction hab with
  | refl => exact h
  | tail _ hbc ih => apply ih.of_edge hbc

/-- Induction along the edges from an element. -/
theorem Descends.induction {motive : α → Prop} {a : α} (h : Descends edge a)
    (step : ∀ a, Descends edge a → (∀ b, edge a b → motive b) → motive a) :
  motive a
  := by
  induction h with
  | intro a h ih => exact step a (Acc.intro a h) ih

theorem Descends.not_cycle {a : α} (h : Descends edge a) :
  ¬ TransGen edge a a
  := by
  apply h.induction
  intro a _ ih hcycle
  obtain ⟨b, hab, hba⟩ := TransGen.head'_iff.mp hcycle
  apply ih b hab
  exact TransGen.tail' hba hab

/-- Where the edges lead to finitely many elements, there is no infinite chain exactly
when there is no cycle. -/
theorem descends_iff_noCycle (hfinite : {b | ∃ a, edge a b}.Finite) (a : α) :
  Descends edge a ↔ NoCycle edge a
  := by
  constructor
  · intro h b hab
    apply (h.of_reach hab).not_cycle
  · intro h
    by_contra hchain
    obtain ⟨f, rfl, hf⟩ := not_acc_iff_exists_descending_chain.mp hchain
    have hreach : ∀ i n, ReflTransGen edge (f i) (f (i + n)) := by
      intro i n
      induction n with
      | zero => exact ReflTransGen.refl
      | succ n ih => exact ih.tail (hf (i + n))
    have hmem : ∀ n, f (n + 1) ∈ {b | ∃ a, edge a b} := fun n => ⟨f n, hf n⟩
    obtain ⟨i, j, hij, heq⟩ := Set.Finite.exists_lt_map_eq_of_forall_mem hmem hfinite
    apply h (f (i + 1))
    · simpa using hreach 0 (i + 1)
    · obtain ⟨n, rfl⟩ := Nat.exists_eq_add_of_lt hij
      have hstep := TransGen.head' (hf (i + 1)) (hreach (i + 2) n)
      rw [show i + 2 + n = i + n + 1 + 1 by omega, ← heq] at hstep
      exact hstep

/-! ### Depths -/

/-- Depths which are enough for each element of a list have one which is enough for all. -/
theorem exists_depth {β : Type*} {P : β → Nat → Prop} (hmono : ∀ x, Monotone (P x))
    {l : List β} (h : ∀ x ∈ l, ∃ n, P x n) :
  ∃ n, ∀ x ∈ l, P x n
  := by
  induction l with
  | nil => exact ⟨0, by simp⟩
  | cons x l ih =>
    obtain ⟨m, hm⟩ := h x List.mem_cons_self
    obtain ⟨n, hn⟩ := ih fun y hy => h y (List.mem_cons_of_mem x hy)
    use max m n
    intro y hy
    obtain rfl | hy := List.mem_cons.mp hy
    · apply hmono y (le_max_left m n) hm
    · apply hmono y (le_max_right m n) (hn y hy)

/-- A list is mapped exactly when each of its elements is. -/
theorem mapM_isSome_iff {β γ : Type*} (f : β → Option γ) (l : List β) :
  (l.mapM f).isSome ↔ ∀ x ∈ l, (f x).isSome
  := by
  induction l with
  | nil => simp
  | cons x l ih =>
    rw [List.mapM_cons, List.forall_mem_cons, ← ih]
    cases f x with
    | none => simp
    | some y => cases l.mapM f <;> simp

/-- The result of a list is kept by a function with the same results and maybe more. -/
theorem mapM_mono {β γ : Type*} {f g : β → Option γ} {l : List β}
    (h : ∀ x ∈ l, ∀ y, f x = some y → g x = some y) {ys : List γ} (hys : l.mapM f = some ys) :
  l.mapM g = some ys
  := by
  induction l generalizing ys with
  | nil => exact hys
  | cons x l ih =>
    rw [List.mapM_cons] at hys ⊢
    obtain ⟨y, hy, hys⟩ := Option.bind_eq_some_iff.mp hys
    obtain ⟨ys', hys', hys⟩ := Option.bind_eq_some_iff.mp hys
    rw [h x List.mem_cons_self y hy]
    rw [ih (fun z hz => h z (List.mem_cons_of_mem x hz)) hys']
    exact hys

end Descent

import Mathlib.Algebra.BigOperators.Group.Finset.Basic
import Mathlib.Algebra.Order.BigOperators.Group.Finset
import Mathlib.Data.Fintype.BigOperators
import Mathlib.Logic.Relation
import Plexil.Util.ActivationCount

/-!
# Reference counts

Things hold each other, but none holds itself, directly or through others.  A thing which is
retained for the first time retains what it holds, and one which is released for the last time
releases this again.

The count of a thing is the number of those who hold it: owners outside, and things which are held
themselves.  As long as the owners release only what they have retained, no count falls below
zero, and a thing is held exactly when it is reached from what the owners hold.
-/

open ActivationCount

/-- What every thing holds. -/
structure References (α : Type) where
  refs : α → List α
  rank : α → Nat
  rank_lt {a b : α} (h : b ∈ refs a) : rank b < rank a

namespace References

variable {α : Type} [DecidableEq α] (g : References α)

def retain (counts : α → Nat) (a : α) : α → Nat :=
  let counts' := Function.update counts a (counts a + 1)
  if counts a = 0 then (g.refs a).foldl (fun counts b => retain counts b) counts' else counts'
termination_by g.rank a
decreasing_by exact g.rank_lt (by assumption)

/-- There is no result when the count of something is zero already. -/
def release (counts : α → Nat) (a : α) : Option (α → Nat) :=
  if counts a = 0 then none
  else
    let counts' := Function.update counts a (counts a - 1)
    if counts a = 1 then (g.refs a).foldlM (fun counts b => release counts b) counts'
    else some counts'
termination_by g.rank a
decreasing_by exact g.rank_lt (by assumption)

/-- A call of an owner. -/
def perform (counts : α → Nat) : Call α → Option (α → Nat)
  | .activate a => some (g.retain counts a)
  | .deactivate a => g.release counts a

/-- The counts after the calls of the owners. -/
def performAll (calls : List (Call α)) : Option (α → Nat) :=
  calls.foldlM g.perform fun _ => 0

variable [Fintype α]

/-- How often a thing is held by others. -/
def inner (counts : α → Nat) (a : α) : Int :=
  ∑ p, if counts p = 0 then 0 else ((g.refs p).count a : Int)

/-- Every count is made up of what the owners hold and what is held by others. -/
def Balanced (owned : α → Int) (counts : α → Nat) : Prop :=
  ∀ a, (counts a : Int) = owned a + g.inner counts a

variable {g} {owned : α → Int} {counts : α → Nat} {a : α}

theorem inner_nonneg (counts : α → Nat) (a : α) :
  0 ≤ g.inner counts a
  := by
  apply Finset.sum_nonneg
  intro p _
  split_ifs
  · exact le_rfl
  · exact Int.natCast_nonneg _

/-- A count which stays positive, or stays zero, does not change what the thing holds. -/
theorem inner_update_of_iff {n : Nat} (h : n = 0 ↔ counts a = 0) (b : α) :
  g.inner (Function.update counts a n) b = g.inner counts b
  := by
  apply Finset.sum_congr rfl
  intro p _
  by_cases hp : p = a
  · subst hp
    rw [Function.update_self]
    simp only [h]
  · rw [Function.update_of_ne hp]

/-- The first count of a thing adds what it holds. -/
theorem inner_update_of_zero {n : Nat} (hn : n ≠ 0) (h : counts a = 0) (b : α) :
  g.inner (Function.update counts a n) b = (g.refs a).count b + g.inner counts b
  := by
  rw [inner, inner, ← Finset.add_sum_erase _ _ (Finset.mem_univ a),
    ← Finset.add_sum_erase _ (fun p => if counts p = 0 then 0 else _) (Finset.mem_univ a),
    Function.update_self, if_neg hn, if_pos h, Int.zero_add]
  congr 1
  apply Finset.sum_congr rfl
  intro p hp
  rw [Function.update_of_ne (Finset.ne_of_mem_erase hp)]

/-- The last count of a thing takes away what it holds. -/
theorem inner_update_zero (h : counts a ≠ 0) (b : α) :
  g.inner counts b = (g.refs a).count b + g.inner (Function.update counts a 0) b
  := by
  have hupdate := inner_update_of_zero (g := g) h (Function.update_self a 0 counts) b
  rwa [Function.update_idem, Function.update_eq_self] at hupdate

/-! ### Retaining -/

theorem Balanced.foldl_retain {as : List α}
    (hretain : ∀ a ∈ as, ∀ {owned : α → Int} {counts : α → Nat}, g.Balanced owned counts →
      g.Balanced (Call.apply owned (.activate a)) (g.retain counts a))
    (h : g.Balanced (fun b => owned b - as.count b) counts) :
  g.Balanced owned (as.foldl (fun counts a => g.retain counts a) counts)
  := by
  induction as generalizing counts with
  | nil =>
    intro b
    simpa using h b
  | cons a as ih =>
    rw [List.forall_mem_cons] at hretain
    apply ih hretain.2
    convert hretain.1 h using 1
    funext b
    rw [apply_eq, List.count_cons, Call.weight]
    by_cases hab : a = b
    · subst hab
      simp only [beq_self_eq_true, if_true, Nat.cast_add]
      omega
    · simp [hab]

/-- The counts when a thing is retained, but not yet what it holds. -/
theorem Balanced.succ (h : g.Balanced owned counts) (b : α) :
  (Function.update counts a (counts a + 1) b : Int) =
    Call.apply owned (.activate a) b + g.inner counts b
  := by
  rw [apply_eq, Call.weight]
  by_cases hab : a = b
  · subst hab
    rw [Function.update_self, if_pos rfl, Nat.cast_add, h a]
    omega
  · rw [Function.update_of_ne (Ne.symm hab), if_neg hab, h b, Int.add_zero]

/-- Whatever is retained, the counts stay balanced. -/
theorem Balanced.retain (h : g.Balanced owned counts) :
  g.Balanced (Call.apply owned (.activate a)) (g.retain counts a)
  := by
  induction counts, a using retain.induct g generalizing owned with
  | case1 counts a hzero ih =>
    rw [References.retain, if_pos hzero]
    apply foldl_retain
    · intro b hb owned counts h
      exact ih counts b hb h
    · intro b
      rw [inner_update_of_zero (Nat.succ_ne_zero _) hzero, h.succ b]
      dsimp only
      omega
  | case2 counts a hpos =>
    rw [References.retain, if_neg hpos]
    intro b
    rw [inner_update_of_iff (by omega), h.succ b]

/-! ### Releasing -/

theorem Balanced.foldlM_release {as : List α}
    (hrelease : ∀ a ∈ as, ∀ {owned : α → Int} {counts : α → Nat}, g.Balanced owned counts →
      (∀ b, 0 ≤ owned b) → 0 < owned a → ∃ counts', g.release counts a = some counts' ∧
        g.Balanced (Call.apply owned (.deactivate a)) counts')
    (h : g.Balanced (fun b => owned b + as.count b) counts) (howned : ∀ b, 0 ≤ owned b) :
  ∃ counts', as.foldlM (fun counts a => g.release counts a) counts = some counts' ∧
    g.Balanced owned counts'
  := by
  induction as generalizing counts with
  | nil => exact ⟨counts, rfl, by simpa using h⟩
  | cons a as ih =>
    rw [List.forall_mem_cons] at hrelease
    have hnonneg (b : α) : 0 ≤ owned b + ((a :: as).count b : Int) :=
      Int.add_nonneg (howned b) (Int.natCast_nonneg _)
    have hpos : 0 < owned a + ((a :: as).count a : Int) := by
      have := howned a
      rw [List.count_cons_self, Nat.cast_add]
      omega
    obtain ⟨counts', hcounts', hbalanced⟩ := hrelease.1 h hnonneg hpos
    have howned' : Call.apply (fun b => owned b + ((a :: as).count b : Int)) (.deactivate a) =
        fun b => owned b + (as.count b : Int) := by
      funext b
      rw [apply_eq, List.count_cons, Call.weight]
      by_cases hab : a = b
      · subst hab
        simp only [beq_self_eq_true, if_true, Nat.cast_add]
        omega
      · simp [hab]
    rw [howned'] at hbalanced
    obtain ⟨counts'', hcounts'', h⟩ := ih hrelease.2 hbalanced
    refine ⟨counts'', ?_, h⟩
    rw [List.foldlM_cons, hcounts']
    exact hcounts''

/-- The counts when a thing is released, but not yet what it holds. -/
theorem Balanced.pred (h : g.Balanced owned counts) (hpos : counts a ≠ 0) (b : α) :
  (Function.update counts a (counts a - 1) b : Int) =
    Call.apply owned (.deactivate a) b + g.inner counts b
  := by
  rw [apply_eq, Call.weight]
  by_cases hab : a = b
  · subst hab
    have hcount := h a
    rw [Function.update_self, if_pos rfl]
    omega
  · rw [Function.update_of_ne (Ne.symm hab), if_neg hab, h b, Int.add_zero]

theorem Balanced.count_ne_zero (h : g.Balanced owned counts) (ha : 0 < owned a) :
  counts a ≠ 0
  := by
  have hcount := h a
  have hinner := inner_nonneg (g := g) counts a
  omega

omit [Fintype α] in
theorem deactivate_nonneg (howned : ∀ b, 0 ≤ owned b) (ha : 0 < owned a) (b : α) :
  0 ≤ Call.apply owned (.deactivate a) b
  := by
  have hb := howned b
  rw [apply_eq, Call.weight]
  by_cases hab : a = b
  · subst hab
    rw [if_pos rfl]
    omega
  · rwa [if_neg hab, Int.add_zero]

/-- What an owner holds can be released, and the counts stay balanced. -/
theorem Balanced.release (h : g.Balanced owned counts) (howned : ∀ b, 0 ≤ owned b)
    (ha : 0 < owned a) :
  ∃ counts', g.release counts a = some counts' ∧
    g.Balanced (Call.apply owned (.deactivate a)) counts'
  := by
  induction counts, a using release.induct g generalizing owned with
  | case1 counts a hzero => exact absurd hzero (h.count_ne_zero ha)
  | case2 counts a hpos hone ih =>
    rw [References.release, if_neg hpos, if_pos hone]
    apply foldlM_release _ _ (deactivate_nonneg howned ha)
    · intro b hb owned counts h howned hb'
      exact ih counts b hb h howned hb'
    · intro b
      have hpred := h.pred hpos b
      rw [inner_update_zero hpos b] at hpred
      rw [hone, Nat.sub_self] at hpred ⊢
      dsimp only
      omega
  | case3 counts a hpos hone =>
    rw [References.release, if_neg hpos, if_neg hone]
    refine ⟨_, rfl, fun b => ?_⟩
    rw [inner_update_of_iff (by omega), h.pred hpos b]

/-! ### Runs -/

theorem balanced_zero :
  g.Balanced (fun _ => 0) fun _ => 0
  := by
  intro a
  have hinner : g.inner (fun _ => 0) a = 0 := Finset.sum_eq_zero fun p _ => if_pos rfl
  rw [hinner]
  rfl

theorem Balanced.foldlM_perform {calls : List (Call α)} (h : g.Balanced owned counts)
    (howned : ∀ b, 0 ≤ owned b) (hcovered : Covered calls owned) :
  ∃ counts', calls.foldlM g.perform counts = some counts' ∧ g.Balanced (run calls owned) counts' ∧
    ∀ b, 0 ≤ run calls owned b
  := by
  induction calls generalizing owned counts with
  | nil => exact ⟨counts, rfl, h, howned⟩
  | cons call calls ih =>
    cases call with
    | activate a =>
      apply ih h.retain _ hcovered
      intro b
      have hb := howned b
      rw [apply_eq, Call.weight]
      split_ifs <;> omega
    | deactivate a =>
      obtain ⟨counts', hcounts', h⟩ := h.release howned hcovered.1
      rw [List.foldlM_cons, perform, hcounts']
      exact ih h (deactivate_nonneg howned hcovered.1) hcovered.2

/-- Owners who release only what they have retained never release too much, and the counts are
balanced after all of their calls. -/
theorem performAll_balanced {calls : List (Call α)} (h : Covered calls fun _ => 0) :
  ∃ counts, g.performAll calls = some counts ∧ g.Balanced (net calls) counts ∧
    ∀ a, 0 ≤ net calls a
  := by
  have hrun : run calls (fun _ : α => 0) = net calls := by
    funext a
    rw [run_eq, Int.zero_add]
  obtain ⟨counts, hcounts, hbalanced, hnonneg⟩ :=
    balanced_zero.foldlM_perform (fun _ => le_rfl) h
  rw [hrun] at hbalanced hnonneg
  exact ⟨counts, hcounts, hbalanced, hnonneg⟩

/-! ### What is held -/

omit [DecidableEq α] in
/-- Induction from those of the highest rank downwards. -/
theorem induction_from_top (rank : α → Nat) {P : α → Prop}
    (h : ∀ a, (∀ b, rank a < rank b → P b) → P a) (a : α) :
  P a
  := by
  have hle (b : α) : rank b ≤ ∑ p, rank p :=
    Finset.single_le_sum (fun _ _ => Nat.zero_le _) (Finset.mem_univ b)
  induction hn : (∑ p, rank p) - rank a using Nat.strong_induction_on generalizing a with
  | _ n ih =>
    apply h
    intro b hb
    apply ih _ _ b rfl
    have := hle b
    omega

/-- The thing is the other one, or it is held by one which is reached from there. -/
def Reaches (g : References α) : α → α → Prop := Relation.ReflTransGen fun a b => b ∈ g.refs a

theorem Balanced.of_refs (h : g.Balanced owned counts) (howned : ∀ b, 0 ≤ owned b)
    (ha : counts a ≠ 0) {b : α} (hb : b ∈ g.refs a) :
  counts b ≠ 0
  := by
  have hcount := h b
  have hnonneg := howned b
  have hone : 1 ≤ g.inner counts b := by
    have hle : (if counts a = 0 then 0 else ((g.refs a).count b : Int)) ≤ g.inner counts b := by
      apply Finset.single_le_sum (f := fun p => if counts p = 0 then 0 else _) _ (Finset.mem_univ a)
      intro p _
      split_ifs
      · exact le_rfl
      · exact Int.natCast_nonneg _
    rw [if_neg ha] at hle
    have hpos := List.count_pos_iff.mpr hb
    omega
  omega

/-- A thing has a count exactly when it is reached from one which the owners hold. -/
theorem Balanced.count_ne_zero_iff (h : g.Balanced owned counts) (howned : ∀ b, 0 ≤ owned b) :
  counts a ≠ 0 ↔ ∃ r, 0 < owned r ∧ g.Reaches r a
  := by
  constructor
  · intro ha
    induction a using induction_from_top g.rank with
    | h a ih =>
      by_cases howner : 0 < owned a
      · exact ⟨a, howner, .refl⟩
      · have hinner : g.inner counts a ≠ 0 := by
          have hcount := h a
          have hnonneg := howned a
          omega
        obtain ⟨p, -, hp⟩ := Finset.exists_ne_zero_of_sum_ne_zero hinner
        have hheld : counts p ≠ 0 := by
          intro hzero
          exact hp (if_pos hzero)
        rw [if_neg hheld] at hp
        have hmem : a ∈ g.refs p := by
          rw [← List.count_pos_iff]
          omega
        obtain ⟨r, hr, hreaches⟩ := ih p (g.rank_lt hmem) hheld
        exact ⟨r, hr, hreaches.tail hmem⟩
  · rintro ⟨r, hr, hreaches⟩
    induction hreaches with
    | refl => exact h.count_ne_zero hr
    | tail _ hmem ih => exact h.of_refs howned ih hmem

end References

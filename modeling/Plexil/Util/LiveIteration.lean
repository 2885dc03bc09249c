import Mathlib.Data.List.Nodup

/-!
# Iteration over a list which changes

A loop over the positions of a list from the first up to the length which the list had at the
beginning, whose body may append elements to the list and erase elements from it.  The loop is fair
as long as it has visited once every element behind its position, and none before it, of those which
have been in the list throughout.
-/

namespace LiveIteration

variable {α : Type*} [DecidableEq α]

/-- The position of a loop, with what it has visited, and the elements which have been in the list
since the beginning. -/
structure Cursor (α : Type*) where
  index : Nat
  finish : Nat
  throughout : List α
  visited : List α

namespace Cursor

variable {c : Cursor α} {xs : List α} {x y : α}

def start (xs : List α) : Cursor α := ⟨0, xs.length, xs, []⟩

def visit (x : α) (c : Cursor α) : Cursor α :=
  { c with index := c.index + 1, visited := x :: c.visited }

/-- The element `x` is erased from the list. -/
def lose (x : α) (c : Cursor α) : Cursor α :=
  { c with throughout := c.throughout.filter fun y => y ≠ x }

/-- The elements which have been in the list throughout are to be visited. -/
structure Within (c : Cursor α) (xs : List α) : Prop where
  mem : ∀ x ∈ c.throughout, x ∈ xs
  lt : ∀ x ∈ c.throughout, xs.idxOf x < c.finish
  le : c.index ≤ c.finish

/-- They have been visited once when the loop has passed them. -/
def Fair (c : Cursor α) (xs : List α) : Prop :=
  ∀ x ∈ c.throughout, c.visited.count x = if xs.idxOf x < c.index then 1 else 0

/-- The element `x` is not in front of the next one to be visited, unless that has been inserted
since the beginning. -/
def Spares (c : Cursor α) (xs : List α) (x : α) : Prop :=
  ∀ y ∈ c.throughout, xs.idxOf y = c.index → ¬ xs.idxOf x < c.index

theorem mem_lose :
  y ∈ (c.lose x).throughout ↔ y ∈ c.throughout ∧ y ≠ x
  := by
  rw [lose, List.mem_filter, decide_eq_true_iff]

/-! ### The beginning and the end -/

theorem within_start (xs : List α) :
  (start xs).Within xs
  := by
  constructor
  · exact fun _ hx => hx
  · exact fun _ hx => List.idxOf_lt_length_of_mem hx
  · exact Nat.zero_le _

theorem fair_start (xs : List α) :
  (start xs).Fair xs
  := by
  intro x _
  exact (if_neg (Nat.not_lt_zero _)).symm

/-- At the end every element which has been in the list throughout has been visited once. -/
theorem Fair.finished (h : c.Fair xs) (hw : c.Within xs) (hend : c.index = c.finish)
    (hx : x ∈ c.throughout) :
  c.visited.count x = 1
  := by
  rw [h x hx, if_pos]
  rw [hend]
  exact hw.lt x hx

/-! ### Visits -/

theorem Within.visit (h : c.Within xs) (hlt : c.index < c.finish) :
  (c.visit x).Within xs
  := ⟨h.mem, h.lt, hlt⟩

theorem Fair.visit (h : c.Fair xs) (hnodup : xs.Nodup) (hx : xs[c.index]? = some x) :
  (c.visit x).Fair xs
  := by
  obtain ⟨hlt, rfl⟩ := List.getElem?_eq_some_iff.mp hx
  have hindex : xs.idxOf xs[c.index] = c.index := List.get_idxOf hnodup ⟨c.index, hlt⟩
  intro y hy
  change (xs[c.index] :: c.visited).count y = if xs.idxOf y < c.index + 1 then 1 else 0
  rw [List.count_cons, h y hy]
  by_cases hyx : xs[c.index] = y
  · rw [← hyx, hindex, if_neg (Nat.lt_irrefl _), if_pos (Nat.lt_succ_self _), beq_self_eq_true,
      if_pos rfl]
  · have hne : xs.idxOf y ≠ c.index := by
      intro heq
      rw [← hindex] at heq
      exact hyx ((List.idxOf_inj (List.getElem_mem hlt)).mp heq.symm)
    rw [beq_eq_false_iff_ne.mpr hyx, if_neg Bool.false_ne_true, Nat.add_zero]
    congr 1
    rw [eq_iff_iff]
    omega

/-! ### Changes of the list -/

theorem Within.append (h : c.Within xs) (ys : List α) :
  c.Within (xs ++ ys)
  := by
  constructor
  · exact fun x hx => List.mem_append_left ys (h.mem x hx)
  · intro x hx
    rw [List.idxOf_append_of_mem (h.mem x hx)]
    exact h.lt x hx
  · exact h.le

theorem fair_append_iff (h : c.Within xs) (ys : List α) :
  c.Fair (xs ++ ys) ↔ c.Fair xs
  := by
  unfold Fair
  constructor <;> intro hfair x hx
  · have := hfair x hx
    rwa [List.idxOf_append_of_mem (h.mem x hx)] at this
  · rw [List.idxOf_append_of_mem (h.mem x hx)]
    exact hfair x hx

/-- The elements after the one which is erased move up by one. -/
theorem idxOf_erase (hnodup : xs.Nodup) (hx : x ∈ xs) (hy : y ∈ xs) (hyx : y ≠ x) :
  (xs.erase x).idxOf y = if xs.idxOf x < xs.idxOf y then xs.idxOf y - 1 else xs.idxOf y
  := by
  induction xs with
  | nil => contradiction
  | cons a as ih =>
    obtain ⟨ha, hnodup'⟩ := List.nodup_cons.mp hnodup
    by_cases hax : a = x
    · subst hax
      have hpos : (a :: as).idxOf y = as.idxOf y + 1 := List.idxOf_cons_ne as (Ne.symm hyx)
      rw [List.erase_cons_head, hpos, List.idxOf_cons_self, if_pos (Nat.succ_pos _)]
      rfl
    · have hx' : x ∈ as := List.mem_of_ne_of_mem (Ne.symm hax) hx
      have hposx : (a :: as).idxOf x = as.idxOf x + 1 := List.idxOf_cons_ne as hax
      rw [List.erase_cons_tail (by simpa using hax), hposx]
      by_cases hay : a = y
      · subst hay
        rw [List.idxOf_cons_self, List.idxOf_cons_self, if_neg (Nat.not_lt_zero _)]
      · have hy' : y ∈ as := List.mem_of_ne_of_mem (Ne.symm hay) hy
        rw [List.idxOf_cons_ne _ hay, List.idxOf_cons_ne _ hay, ih hnodup' hx' hy']
        split <;> split <;> omega

theorem Within.erase (h : c.Within xs) (hnodup : xs.Nodup) (x : α) :
  (c.lose x).Within (xs.erase x)
  := by
  constructor
  · intro y hy
    obtain ⟨hy, hyx⟩ := mem_lose.mp hy
    exact (List.mem_erase_of_ne hyx).mpr (h.mem y hy)
  · intro y hy
    obtain ⟨hy, hyx⟩ := mem_lose.mp hy
    have hlt := h.lt y hy
    change _ < c.finish
    by_cases hx : x ∈ xs
    · rw [idxOf_erase hnodup hx (h.mem y hy) hyx]
      split <;> omega
    · rwa [List.erase_of_not_mem hx]
  · exact h.le

/-- The loop stays fair exactly if it does not skip its next element. -/
theorem Fair.erase_iff (h : c.Fair xs) (hw : c.Within xs) (hnodup : xs.Nodup) (hx : x ∈ xs) :
  (c.lose x).Fair (xs.erase x) ↔ c.Spares xs x
  := by
  constructor
  · intro hfair y hy hindex hlt
    have hyx : y ≠ x := by
      rintro rfl
      omega
    have hcount : c.visited.count y = if (xs.erase x).idxOf y < c.index then 1 else 0 :=
      hfair y (mem_lose.mpr ⟨hy, hyx⟩)
    have hpassed : c.index - 1 < c.index := by omega
    rw [idxOf_erase hnodup hx (hw.mem y hy) hyx, h y hy, hindex, if_pos hlt,
      if_neg (Nat.lt_irrefl _), if_pos hpassed] at hcount
    contradiction
  · intro hspares y hy
    obtain ⟨hy, hyx⟩ := mem_lose.mp hy
    change c.visited.count y = if _ < c.index then 1 else 0
    rw [idxOf_erase hnodup hx (hw.mem y hy) hyx, h y hy]
    have hnext := hspares y hy
    congr 1
    rw [eq_iff_iff]
    split <;> omega

end Cursor

end LiveIteration

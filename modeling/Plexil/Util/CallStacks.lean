import Mathlib.Algebra.BigOperators.Group.Finset.Basic
import Mathlib.Algebra.Order.BigOperators.Group.Finset
import Mathlib.Data.Fintype.Basic

/-!
# Threads with call stacks

Threads share a memory, and each has a stack of frames with the innermost first.  A thread acts on
its innermost frame and the memory, and the frame is replaced by others: none when a call returns,
and a further one when it makes a call.

`Holds` is a property of the memory with a property of every frame.  It is kept by an action which
keeps it of the memory, gives it to the new frames, and does not take it from any other frame.

`total` adds up what the frames of all threads weigh.  An action changes it by what the frames
which it replaces weigh.
-/

/-- The memory and the stacks of all threads. -/
structure CallStacks (τ σ φ : Type*) where
  shared : σ
  frames : τ → List φ

namespace CallStacks

variable {τ σ φ : Type*} [DecidableEq τ]

/-- The innermost frame of a thread is replaced. -/
def replace (s : CallStacks τ σ φ) (t : τ) (g : σ) (fs : List φ) : CallStacks τ σ φ :=
  ⟨g, Function.update s.frames t (fs ++ (s.frames t).tail)⟩

/-- A thread makes a call. -/
def push (s : CallStacks τ σ φ) (t : τ) (f : φ) : CallStacks τ σ φ :=
  ⟨s.shared, Function.update s.frames t (f :: s.frames t)⟩

/-- A thread acts on its innermost frame. -/
def advance (act : φ → σ → Option (σ × List φ)) (s : CallStacks τ σ φ) (t : τ) :
    Option (CallStacks τ σ φ) :=
  match s.frames t with
  | [] => none
  | f :: _ => (act f s.shared).map fun (g, fs) => s.replace t g fs

variable {act : φ → σ → Option (σ × List φ)} {s s' : CallStacks τ σ φ} {t t' : τ} {g : σ}
  {f f' : φ} {fs rest : List φ}

theorem frames_replace :
  (s.replace t g fs).frames t' = if t' = t then fs ++ (s.frames t).tail else s.frames t'
  := by
  unfold replace
  exact Function.update_apply ..

theorem frames_push :
  (s.push t f).frames t' = if t' = t then f :: s.frames t else s.frames t'
  := by
  unfold push
  exact Function.update_apply ..

/-- What an action does. -/
theorem advance_eq_some (h : s.advance act t = some s') :
  ∃ f rest g fs, s.frames t = f :: rest ∧ act f s.shared = some (g, fs) ∧ s' = s.replace t g fs
  := by
  unfold advance at h
  split at h
  · contradiction
  · rename_i f rest hframes
    obtain ⟨⟨g, fs⟩, hact, rfl⟩ := Option.map_eq_some_iff.mp h
    exact ⟨f, rest, g, fs, hframes, hact, rfl⟩

theorem mem_frames_replace (h : f' ∈ (s.replace t g fs).frames t') :
  (t' = t ∧ f' ∈ fs) ∨ f' ∈ s.frames t'
  := by
  rw [frames_replace] at h
  split at h
  · rename_i heq
    subst heq
    rcases List.mem_append.mp h with h | h
    · exact .inl ⟨rfl, h⟩
    · exact .inr (List.mem_of_mem_tail h)
  · exact .inr h

theorem mem_frames_push (h : f' ∈ (s.push t f).frames t') :
  (t' = t ∧ f' = f) ∨ f' ∈ s.frames t'
  := by
  rw [frames_push] at h
  split at h
  · rename_i heq
    subst heq
    exact (List.mem_cons.mp h).imp_left fun h => ⟨rfl, h⟩
  · exact .inr h

/-- The memory has the property `I`, and all frames have the property `J`. -/
structure Holds (I : σ → Prop) (J : σ → φ → Prop) (s : CallStacks τ σ φ) : Prop where
  shared : I s.shared
  frames : ∀ t, ∀ f ∈ s.frames t, J s.shared f

variable {I : σ → Prop} {J : σ → φ → Prop}

theorem Holds.replace (h : s.Holds I J) (shared : I g) (new : ∀ f ∈ fs, J g f)
    (others : ∀ f, J s.shared f → J g f) :
  (s.replace t g fs).Holds I J
  := by
  constructor
  · exact shared
  · intro t' f' hf'
    rcases mem_frames_replace hf' with ⟨-, hf'⟩ | hf'
    · apply new f' hf'
    · apply others f' (h.frames t' f' hf')

theorem Holds.push (h : s.Holds I J) (new : J s.shared f) :
  (s.push t f).Holds I J
  := by
  constructor
  · exact h.shared
  · intro t' f' hf'
    rcases mem_frames_push hf' with ⟨-, rfl⟩ | hf'
    · exact new
    · apply h.frames t' f' hf'

/-! ### Totals over all threads -/

/-- What the frames of a stack weigh together. -/
def weigh (w : φ → ℕ) : List φ → ℕ
  | [] => 0
  | f :: fs => w f + weigh w fs

@[simp]
theorem weigh_nil (w : φ → ℕ) :
  weigh w [] = 0
  := rfl

@[simp]
theorem weigh_cons (w : φ → ℕ) (f : φ) (fs : List φ) :
  weigh w (f :: fs) = w f + weigh w fs
  := rfl

@[simp]
theorem weigh_append (w : φ → ℕ) (fs fs' : List φ) :
  weigh w (fs ++ fs') = weigh w fs + weigh w fs'
  := by
  induction fs with
  | nil => simp
  | cons f fs ih => simp [ih, Nat.add_assoc]

theorem le_weigh {w : φ → ℕ} (h : f ∈ fs) :
  w f ≤ weigh w fs
  := by
  induction fs with
  | nil => cases h
  | cons f' fs ih =>
    rw [weigh_cons]
    obtain rfl | h := List.mem_cons.mp h
    · exact Nat.le_add_right _ _
    · exact (ih h).trans (Nat.le_add_left _ _)

theorem weigh_eq_zero {w : φ → ℕ} {fs : List φ} (h : ∀ f ∈ fs, w f ≤ 0) :
  weigh w fs = 0
  := by
  induction fs with
  | nil => rfl
  | cons f fs ih =>
    obtain ⟨hf, hfs⟩ := List.forall_mem_cons.mp h
    rw [weigh_cons, Nat.le_zero.mp hf, ih hfs]

section

variable [Fintype τ] (w : φ → ℕ)

/-- What the frames of all threads weigh together. -/
def total (s : CallStacks τ σ φ) : ℕ := ∑ t, weigh w (s.frames t)

omit [DecidableEq τ] in
theorem weigh_le_total (s : CallStacks τ σ φ) (t : τ) :
  weigh w (s.frames t) ≤ s.total w
  := Finset.single_le_sum (f := fun t => weigh w (s.frames t)) (fun _ _ => Nat.zero_le _)
    (Finset.mem_univ t)

theorem add_weigh_le_total (s : CallStacks τ σ φ) (h : t ≠ t') :
  weigh w (s.frames t) + weigh w (s.frames t') ≤ s.total w
  := by
  rw [total, ← Finset.add_sum_erase _ _ (Finset.mem_univ t)]
  apply Nat.add_le_add_left
  apply Finset.single_le_sum (f := fun t => weigh w (s.frames t)) (fun _ _ => Nat.zero_le _)
  exact Finset.mem_erase.mpr ⟨h.symm, Finset.mem_univ t'⟩

omit [DecidableEq τ] in
theorem exists_of_total_pos (s : CallStacks τ σ φ) (h : 0 < s.total w) :
  ∃ t, ∃ f ∈ s.frames t, 0 < w f
  := by
  obtain ⟨t, -, ht⟩ := Finset.exists_ne_zero_of_sum_ne_zero (Nat.pos_iff_ne_zero.mp h)
  refine ⟨t, ?_⟩
  by_contra hnone
  push Not at hnone
  exact ht (weigh_eq_zero hnone)

private theorem total_update (s : CallStacks τ σ φ) (t : τ) (g : σ) (fs : List φ) :
  (⟨g, Function.update s.frames t fs⟩ : CallStacks τ σ φ).total w + weigh w (s.frames t)
    = s.total w + weigh w fs
  := by
  have hrest : ∑ t' ∈ Finset.univ.erase t, weigh w (Function.update s.frames t fs t')
      = ∑ t' ∈ Finset.univ.erase t, weigh w (s.frames t') := by
    apply Finset.sum_congr rfl
    intro t' ht'
    rw [Function.update_of_ne (Finset.ne_of_mem_erase ht')]
  rw [total, total, ← Finset.add_sum_erase _ _ (Finset.mem_univ t), hrest,
    ← Finset.add_sum_erase _ (fun t' => weigh w (s.frames t')) (Finset.mem_univ t)]
  dsimp only
  rw [Function.update_self]
  omega

theorem total_replace (h : s.frames t = f :: rest) :
  (s.replace t g fs).total w + w f = s.total w + weigh w fs
  := by
  have := total_update w s t g (fs ++ (s.frames t).tail)
  rw [h, List.tail_cons, weigh_cons, weigh_append] at this
  rw [replace, h, List.tail_cons]
  omega

theorem total_push :
  (s.push t f).total w = s.total w + w f
  := by
  have := total_update w s t s.shared (f :: s.frames t)
  rw [weigh_cons] at this
  rw [push]
  omega

end

end CallStacks

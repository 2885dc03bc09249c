/-!
# Exceptions

Rules for computations which may fail.
-/

namespace Except

variable {ε α β : Type}

theorem bind_eq_ok {x : Except ε α} {f : α → Except ε β} {b : β} :
  x >>= f = .ok b ↔ ∃ a, x = .ok a ∧ f a = .ok b
  := by
  cases x with
  | error e => simp [bind, Except.bind]
  | ok a => simp [bind, Except.bind]

theorem map_eq_ok {x : Except ε α} {f : α → β} {y : β} :
  x.map f = .ok y ↔ ∃ a, x = .ok a ∧ f a = y
  := by
  cases x <;> simp [Except.map]

theorem map_eq_error {x : Except ε α} {f : α → β} {e : ε} :
  x.map f = .error e ↔ x = .error e
  := by
  cases x <;> simp [Except.map]

theorem map_map {γ : Type} (x : Except ε α) (f : α → β) (g : β → γ) :
  (x.map f).map g = x.map fun a => g (f a)
  := by
  cases x <;> rfl

theorem mapM_ok {f : α → Except ε β} {xs : List α} {ys : List β} (h : xs.mapM f = .ok ys) :
  ∀ x ∈ xs, ∃ y, f x = .ok y
  := by
  induction xs generalizing ys with
  | nil =>
    intro x hx
    contradiction
  | cons x xs ih =>
    rw [List.mapM_cons] at h
    obtain ⟨y, hy, hrest⟩ := bind_eq_ok.mp h
    obtain ⟨ys', hys', -⟩ := bind_eq_ok.mp hrest
    rw [List.forall_mem_cons]
    exact ⟨⟨y, hy⟩, ih hys'⟩

theorem mapError_eq_ok {ε' : Type} {x : Except ε α} {f : ε → ε'} {a : α} :
  x.mapError f = .ok a ↔ x = .ok a
  := by
  cases x with
  | error e =>
    constructor
    · intro h
      cases h
    · intro h
      cases h
  | ok b =>
    constructor
    · intro h
      cases h
      rfl
    · intro h
      cases h
      rfl

theorem forM_ok {f : α → Except ε Unit} {xs : List α} {u : Unit} (h : xs.forM f = .ok u) :
  ∀ x ∈ xs, f x = .ok ()
  := by
  induction xs with
  | nil =>
    intro x hx
    contradiction
  | cons x xs ih =>
    have h : (f x >>= fun _ => xs.forM f) = .ok u := h
    obtain ⟨_, hx, hrest⟩ := bind_eq_ok.mp h
    exact List.forall_mem_cons.mpr ⟨hx, ih hrest⟩

theorem forM_eq_ok {f : α → Except ε Unit} {xs : List α} {u : Unit} :
  xs.forM f = .ok u ↔ ∀ x ∈ xs, f x = .ok ()
  := by
  constructor
  · apply forM_ok
  · intro h
    induction xs with
    | nil => rfl
    | cons x xs ih =>
      rw [List.forall_mem_cons] at h
      have hrest : (f x >>= fun _ => xs.forM f) = .ok u := bind_eq_ok.mpr ⟨(), h.1, ih h.2⟩
      exact hrest

end Except

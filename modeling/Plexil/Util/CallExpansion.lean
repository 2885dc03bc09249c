import Plexil.Util.Descent

/-!
# Expansion of calls

A call is made in a state.  It fails, or it has a body: a list of further calls, which are
expanded one after the other, each in the state which the one before has left.  Expansion stops at
the first call which fails.

Expansion ends exactly when the calls which it reaches descend: no infinite chain of calls is
opened one inside the other.
-/

namespace CallExpansion

open Relation Descent

variable {σ κ ε : Type*}

/-- Expands calls one after the other; `none` is a lack of fuel. -/
def expandAll (expand : σ → κ → Option (Except ε σ)) : σ → List κ → Option (Except ε σ)
  | s, [] => some (.ok s)
  | s, call :: rest =>
    match expand s call with
    | none => none
    | some (.error e) => some (.error e)
    | some (.ok t) => expandAll expand t rest

/-- Expands a call, with as many calls open at a time as there is fuel. -/
def expand (body : σ → κ → Except ε (σ × List κ)) : Nat → σ → κ → Option (Except ε σ)
  | 0, _, _ => none
  | fuel + 1, s, call =>
    match body s call with
    | .error e => some (.error e)
    | .ok (t, calls) => expandAll (expand body fuel) t calls

/-- No call fails, and the last one leaves a state. -/
inductive Expands (body : σ → κ → Except ε (σ × List κ)) : σ → List κ → σ → Prop
  | nil {s} : Expands body s [] s
  | cons {s t u v call calls rest} (hbody : body s call = .ok (t, calls))
      (hcalls : Expands body t calls u) (hrest : Expands body u rest v) :
      Expands body s (call :: rest) v

/-- Expansion of a list of calls comes to one of them in a state. -/
def Reaches (body : σ → κ → Except ε (σ × List κ)) (s : σ) (calls : List κ) (d : σ × κ) : Prop :=
  ∃ done rest, calls = done ++ d.2 :: rest ∧ Expands body s done d.1

/-- Expansion of a call comes to a call of its body. -/
def Enters (body : σ → κ → Except ε (σ × List κ)) (c d : σ × κ) : Prop :=
  ∃ t calls, body c.1 c.2 = .ok (t, calls) ∧ Reaches body t calls d

/-- With enough fuel the calls are expanded, or one of them fails. -/
def Terminates (body : σ → κ → Except ε (σ × List κ)) (s : σ) (calls : List κ) : Prop :=
  ∃ fuel, (expandAll (expand body fuel) s calls).isSome

variable {body : σ → κ → Except ε (σ × List κ)} {s t u : σ} {call : κ} {calls rest : List κ}

/-! ### Lists of calls -/

theorem expandAll_append (f : σ → κ → Option (Except ε σ)) :
  expandAll f s (calls ++ rest) =
    match expandAll f s calls with
    | none => none
    | some (.error e) => some (.error e)
    | some (.ok t) => expandAll f t rest
  := by
  induction calls generalizing s with
  | nil => rfl
  | cons call calls ih =>
    simp only [List.cons_append, expandAll]
    rcases f s call with _ | _ | t
    · rfl
    · rfl
    · exact ih

theorem expandAll_singleton (f : σ → κ → Option (Except ε σ)) :
  expandAll f s [call] = f s call
  := by
  unfold expandAll
  rcases f s call with _ | _ | t <;> rfl

/-- What is expanded with a function is expanded with one which is defined more often. -/
theorem expandAll_mono {f g : σ → κ → Option (Except ε σ)}
    (hfg : ∀ s call r, f s call = some r → g s call = some r) {r : Except ε σ}
    (h : expandAll f s calls = some r) :
  expandAll g s calls = some r
  := by
  induction calls generalizing s with
  | nil => exact h
  | cons call calls ih =>
    unfold expandAll at h ⊢
    split at h
    · contradiction
    · rename_i e hcall
      rw [hfg _ _ _ hcall]
      exact h
    · rename_i t hcall
      rw [hfg _ _ _ hcall]
      exact ih h

theorem Expands.append (h : Expands body s calls t) (hrest : Expands body t rest u) :
  Expands body s (calls ++ rest) u
  := by
  induction h with
  | nil => exact hrest
  | cons hbody hcalls _ _ ih => exact .cons hbody hcalls (ih hrest)

/-! ### Fuel -/

theorem expand_succ {fuel : Nat} {r : Except ε σ} (h : expand body fuel s call = some r) :
  expand body (fuel + 1) s call = some r
  := by
  induction fuel generalizing s call r with
  | zero => contradiction
  | succ fuel ih =>
    rw [expand] at h ⊢
    split at h
    · exact h
    · exact expandAll_mono (fun _ _ _ h => ih h) h

theorem expand_mono {fuel fuel' : Nat} (hle : fuel ≤ fuel') {r : Except ε σ}
    (h : expand body fuel s call = some r) :
  expand body fuel' s call = some r
  := by
  induction hle with
  | refl => exact h
  | step _ ih => exact expand_succ ih

theorem expandAll_expand_mono {fuel fuel' : Nat} (hle : fuel ≤ fuel') {r : Except ε σ}
    (h : expandAll (expand body fuel) s calls = some r) :
  expandAll (expand body fuel') s calls = some r
  := expandAll_mono (fun _ _ _ h => expand_mono hle h) h

/-- Whatever the fuel, expansion has one result. -/
theorem expandAll_expand_unique {fuel fuel' : Nat} {r r' : Except ε σ}
    (h : expandAll (expand body fuel) s calls = some r)
    (h' : expandAll (expand body fuel') s calls = some r') :
  r = r'
  := by
  have hmax := expandAll_expand_mono (Nat.le_max_left fuel fuel') h
  rw [expandAll_expand_mono (Nat.le_max_right fuel fuel') h'] at hmax
  exact (Option.some.inj hmax).symm

/-- Calls which do not fail are expanded with enough fuel. -/
theorem Expands.exists_fuel (h : Expands body s calls t) :
  ∃ fuel, expandAll (expand body fuel) s calls = some (.ok t)
  := by
  induction h with
  | nil => exact ⟨0, rfl⟩
  | @cons s t u v call calls rest hbody _ _ ihcalls ihrest =>
    obtain ⟨n, hn⟩ := ihcalls
    obtain ⟨m, hm⟩ := ihrest
    use max (n + 1) m
    have hcall : expand body (n + 1) s call = some (.ok u) := by
      rw [expand, hbody]
      exact hn
    unfold expandAll
    rw [expand_mono (Nat.le_max_left ..) hcall]
    exact expandAll_expand_mono (Nat.le_max_right ..) hm

/-- What is expanded with some fuel does not fail. -/
theorem expands_of_expandAll {fuel : Nat}
    (h : expandAll (expand body fuel) s calls = some (.ok t)) :
  Expands body s calls t
  := by
  induction fuel generalizing s calls t with
  | zero =>
    cases calls with
    | nil =>
      cases h
      exact .nil
    | cons call rest => contradiction
  | succ fuel ihfuel =>
    induction calls generalizing s with
    | nil =>
      cases h
      exact .nil
    | cons call rest ih =>
      unfold expandAll at h
      split at h
      · contradiction
      · cases h
      · rename_i u hcall
        rw [expand] at hcall
        split at hcall
        · cases hcall
        · rename_i hbody
          exact .cons hbody (ihfuel hcall) (ih h)

/-! ### Termination -/

/-- Where a list of calls terminates, each call which it reaches terminates with the same fuel. -/
theorem Reaches.isSome_expand {d : σ × κ} (h : Reaches body s calls d) {fuel : Nat}
    (hsome : (expandAll (expand body fuel) s calls).isSome) :
  (expand body fuel d.1 d.2).isSome
  := by
  obtain ⟨done, rest, rfl, hdone⟩ := h
  obtain ⟨fuel', hfuel'⟩ := hdone.exists_fuel
  rw [expandAll_append] at hsome
  split at hsome
  · contradiction
  · rename_i e hdone
    cases expandAll_expand_unique hfuel' hdone
  · rename_i u hdone
    cases expandAll_expand_unique hfuel' hdone
    unfold expandAll at hsome
    split at hsome
    · contradiction
    · rename_i hcall
      simp [hcall]
    · rename_i hcall
      simp [hcall]

theorem descends_of_isSome_expand {fuel : Nat} {c : σ × κ}
    (h : (expand body fuel c.1 c.2).isSome) :
  Descends (Enters body) c
  := by
  induction fuel generalizing c with
  | zero => contradiction
  | succ fuel ih =>
    apply Descends.intro
    rintro d ⟨t, calls, hbody, hreaches⟩
    apply ih
    apply hreaches.isSome_expand
    rw [expand, hbody] at h
    exact h

/-- A list of calls terminates when every call which it reaches does. -/
theorem terminates_of_reaches
    (h : ∀ d, Reaches body s calls d → ∃ fuel, (expand body fuel d.1 d.2).isSome) :
  Terminates body s calls
  := by
  -- The calls in front have been expanded, which leaves a state for the rest.
  suffices hrest : ∀ rest done u, calls = done ++ rest → Expands body s done u →
      Terminates body u rest from hrest calls [] s rfl .nil
  intro rest
  induction rest with
  | nil => exact fun _ _ _ _ => ⟨0, rfl⟩
  | cons call rest ih =>
    intro done u hcalls hdone
    obtain ⟨n, hn⟩ := h (u, call) ⟨done, rest, hcalls, hdone⟩
    obtain ⟨r, hr⟩ := Option.isSome_iff_exists.mp hn
    rcases r with e | v
    · refine ⟨n, ?_⟩
      unfold expandAll
      rw [hr]
      rfl
    · have hcall : Expands body u [call] v := by
        apply expands_of_expandAll
        rwa [expandAll_singleton]
      obtain ⟨m, hm⟩ := ih (done ++ [call]) v (by simp [hcalls]) (hdone.append hcall)
      obtain ⟨r, hr'⟩ := Option.isSome_iff_exists.mp hm
      refine ⟨max n m, ?_⟩
      unfold expandAll
      rw [expand_mono (Nat.le_max_left ..) hr]
      dsimp only
      rw [expandAll_expand_mono (Nat.le_max_right ..) hr']
      rfl

theorem exists_isSome_expand {c : σ × κ} (h : Descends (Enters body) c) :
  ∃ fuel, (expand body fuel c.1 c.2).isSome
  := by
  apply h.induction
  intro c _ ih
  cases hbody : body c.1 c.2 with
  | error e =>
    use 1
    rw [expand, hbody]
    rfl
  | ok r =>
    obtain ⟨t, calls⟩ := r
    obtain ⟨fuel, hfuel⟩ := terminates_of_reaches fun d hd => ih d ⟨t, calls, hbody, hd⟩
    use fuel + 1
    rw [expand, hbody]
    exact hfuel

/-- Expansion terminates exactly when the calls which it reaches descend. -/
theorem terminates_iff :
  Terminates body s calls ↔ ∀ d, Reaches body s calls d → Descends (Enters body) d
  := by
  constructor
  · rintro ⟨fuel, hfuel⟩ d hd
    exact descends_of_isSome_expand (hd.isSome_expand hfuel)
  · intro h
    apply terminates_of_reaches
    intro d hd
    exact exists_isSome_expand (h d hd)

/-- Where the calls are finitely many, expansion terminates exactly when no call which it reaches
is reached again from within its own expansion. -/
theorem terminates_iff_noCycle (hfinite : {d | ∃ c, Enters body c d}.Finite) :
  Terminates body s calls ↔ ∀ d, Reaches body s calls d → NoCycle (Enters body) d
  := by
  rw [terminates_iff]
  apply forall₂_congr
  intro d _
  exact descends_iff_noCycle hfinite d

end CallExpansion

import Plexil.Util.StateMachine
import Mathlib.Data.List.Basic

/-!
# Interleaved events

The events of a machine come from several sources, and `key e` is the source of the event
`e`.  The machine is separated by the sources when the part `view k` of its state depends on
the events of the source `k` only: these events act on the part as they do in a machine
`channel` of its own, and other events leave it as it is.  A run of the machine is then one
run for each source, over the events of this source in their order, however the events of
different sources are interleaved.
-/

namespace StateMachine

variable {σ τ ε κ : Type*} {step : σ → ε → Option σ} {channel : τ → ε → Option τ}
variable {key : ε → κ} {view : κ → σ → τ}

/-- The machine is separated by the sources of its events. -/
structure Separated (step : σ → ε → Option σ) (key : ε → κ) (view : κ → σ → τ)
    (channel : τ → ε → Option τ) : Prop where
  own (s : σ) (e : ε) : (step s e).map (view (key e)) = channel (view (key e) s) e
  other {s s' : σ} {e : ε} {k : κ} : step s e = some s' → key e ≠ k → view k s' = view k s

theorem run_append (es es' : List ε) (s : σ) :
  run step (es ++ es') s = (run step es s).bind (run step es')
  := by
  induction es generalizing s with
  | nil => rfl
  | cons e es ih =>
    rw [List.cons_append, run, run, Option.bind_assoc]
    congr 1
    funext s'
    apply ih

variable [DecidableEq κ]

/-- The events of a source. -/
def eventsOf (key : ε → κ) (k : κ) (es : List ε) : List ε := es.filter fun e => key e = k

theorem eventsOf_cons_self (e : ε) (es : List ε) :
  eventsOf key (key e) (e :: es) = e :: eventsOf key (key e) es
  := by
  apply List.filter_cons_of_pos
  apply decide_eq_true rfl

theorem eventsOf_cons_of_ne {e : ε} {k : κ} (h : key e ≠ k) (es : List ε) :
  eventsOf key k (e :: es) = eventsOf key k es
  := by
  apply List.filter_cons_of_neg
  simpa using h

namespace Separated

/-- A run is seen by each source as the run of its own events. -/
theorem run_view (h : Separated step key view channel) {es : List ε} {s s' : σ}
    (hrun : run step es s = some s') (k : κ) :
  run channel (eventsOf key k es) (view k s) = some (view k s')
  := by
  induction es generalizing s with
  | nil =>
    cases hrun
    rfl
  | cons e es ih =>
    obtain ⟨t, ht, hrest⟩ := Option.bind_eq_some_iff.mp hrun
    by_cases hk : key e = k
    · subst hk
      rw [eventsOf_cons_self, run, ← h.own, ht]
      apply ih hrest
    · rw [eventsOf_cons_of_ne hk, ← h.other ht hk]
      apply ih hrest

/-- When the runs of all sources are possible, so is the run of all events. -/
theorem run_exists (h : Separated step key view channel) {es : List ε} {s : σ}
    (hruns : ∀ k, ∃ t, run channel (eventsOf key k es) (view k s) = some t) :
  ∃ s', run step es s = some s'
  := by
  induction es generalizing s with
  | nil =>
    use s
    rfl
  | cons e es ih =>
    have hstep : ∃ s', step s e = some s' := by
      obtain ⟨t, ht⟩ := hruns (key e)
      rw [eventsOf_cons_self, run, ← h.own] at ht
      obtain ⟨t', ht', -⟩ := Option.bind_eq_some_iff.mp ht
      obtain ⟨s', hs', -⟩ := Option.map_eq_some_iff.mp ht'
      use s'
    obtain ⟨s', hs'⟩ := hstep
    obtain ⟨s'', hs''⟩ := @ih s' (by
      intro k
      obtain ⟨t, ht⟩ := hruns k
      use t
      by_cases hk : key e = k
      · subst hk
        rw [eventsOf_cons_self, run, ← h.own, hs'] at ht
        apply ht
      · rw [eventsOf_cons_of_ne hk, ← h.other hs' hk] at ht
        apply ht)
    use s''
    rw [run, hs']
    apply hs''

end Separated

end StateMachine

import Mathlib.Data.Option.Basic

/-!
# State machines

A state machine is given by its step function `step : σ → ε → Option σ`: in the state
`s` the event `e` is possible when `step s e` is a state, which is then the next one.
`run step es s` performs the events `es` in order.  `Reachable step Init Allowed s` says
that `s` is reached from a state satisfying `Init` by events each of which satisfies
`Allowed` in the state where it occurs; `Allowed` is where the assumptions on a run are
stated.  An invariant of a machine is a property of the initial states which every
allowed step preserves.
-/

namespace StateMachine

variable {σ ε : Type*} {step : σ → ε → Option σ}
variable {Init : σ → Prop} {Allowed Allowed' : σ → ε → Prop}

/-- The state after the events `es`, when all of them are possible. -/
def run (step : σ → ε → Option σ) : List ε → σ → Option σ
  | [], s => some s
  | e :: es, s => (step s e).bind (run step es)

/-- The states reached from `Init` by allowed events. -/
inductive Reachable (step : σ → ε → Option σ) (Init : σ → Prop) (Allowed : σ → ε → Prop) :
    σ → Prop where
  | init {s : σ} : Init s → Reachable step Init Allowed s
  | step {s s' : σ} {e : ε} :
      Reachable step Init Allowed s → Allowed s e → step s e = some s' →
      Reachable step Init Allowed s'

/-- The invariant rule. -/
theorem Reachable.invariant {P : σ → Prop} (init : ∀ s, Init s → P s)
    (preserved : ∀ s e s', P s → Allowed s e → step s e = some s' → P s')
    {s : σ} (h : Reachable step Init Allowed s) :
  P s
  := by
  induction h with
  | init h₀ => exact init _ h₀
  | step _ allowed hstep ih => exact preserved _ _ _ ih allowed hstep

/-- The invariant rule relative to an invariant which is already known. -/
theorem Reachable.invariant_of {P Q : σ → Prop}
    (known : ∀ s, Reachable step Init Allowed s → Q s) (init : ∀ s, Init s → P s)
    (preserved : ∀ s e s', Q s → P s → Allowed s e → step s e = some s' → P s')
    {s : σ} (h : Reachable step Init Allowed s) :
  P s
  := by
  induction h with
  | init h₀ => exact init _ h₀
  | step hs allowed hstep ih => exact preserved _ _ _ (known _ hs) ih allowed hstep

/-- Fewer assumptions on the events reach more states. -/
theorem Reachable.mono (weaker : ∀ s e, Allowed s e → Allowed' s e)
    {s : σ} (h : Reachable step Init Allowed s) :
  Reachable step Init Allowed' s
  := by
  induction h with
  | init h₀ => exact .init h₀
  | step _ allowed hstep ih => exact .step ih (weaker _ _ allowed) hstep

/-- A run from a reachable state reaches its last state, when no assumption is made
on the events. -/
theorem Reachable.of_run {es : List ε} {s s' : σ}
    (h : Reachable step Init (fun _ _ => True) s) (hrun : run step es s = some s') :
  Reachable step Init (fun _ _ => True) s'
  := by
  induction es generalizing s with
  | nil =>
    cases hrun
    exact h
  | cons e es ih =>
    obtain ⟨t, ht, hrest⟩ := Option.bind_eq_some_iff.mp hrun
    exact ih (.step h trivial ht) hrest

/-- The state after the events `es`, when all of them are allowed and possible. -/
def checkedRun (step : σ → ε → Option σ) (Allowed : σ → ε → Prop)
    [∀ s e, Decidable (Allowed s e)] : List ε → σ → Option σ
  | [], s => some s
  | e :: es, s => if Allowed s e then (step s e).bind (checkedRun step Allowed es) else none

theorem Reachable.of_checkedRun [∀ s e, Decidable (Allowed s e)] {es : List ε} {s s' : σ}
    (h : Reachable step Init Allowed s) (hrun : checkedRun step Allowed es s = some s') :
  Reachable step Init Allowed s'
  := by
  induction es generalizing s with
  | nil =>
    cases hrun
    exact h
  | cons e es ih =>
    unfold checkedRun at hrun
    split at hrun
    · rename_i allowed
      obtain ⟨t, ht, hrest⟩ := Option.bind_eq_some_iff.mp hrun
      exact ih (.step h allowed ht) hrest
    · cases hrun

/-- `P` holds of every state of the run of `es` from `s`, as far as the run goes. -/
def Always (step : σ → ε → Option σ) (P : σ → Prop) : List ε → σ → Prop
  | [], s => P s
  | e :: es, s => P s ∧ ∀ s', step s e = some s' → Always step P es s'

theorem Always.of_run {P : σ → Prop} {es : List ε} {s s' : σ} (h : Always step P es s)
    (hrun : run step es s = some s') :
  P s'
  := by
  induction es generalizing s with
  | nil =>
    cases hrun
    exact h
  | cons e es ih =>
    obtain ⟨t, ht, hrest⟩ := Option.bind_eq_some_iff.mp hrun
    exact ih (h.2 t ht) hrest

/-- What every step from an invariant gives holds throughout every run. -/
theorem always_of_invariant {I P : σ → Prop}
    (preserved : ∀ s e s', I s → step s e = some s' → I s' ∧ P s') (es : List ε) {s : σ}
    (hI : I s) (hP : P s) :
  Always step P es s
  := by
  induction es generalizing s with
  | nil => exact hP
  | cons e es ih =>
    refine ⟨hP, fun s' hs' => ?_⟩
    obtain ⟨hI', hP'⟩ := preserved s e s' hI hs'
    exact ih hI' hP'

/-- Every event of the run of `es` from `s` is allowed where it occurs. -/
def Meets (step : σ → ε → Option σ) (Allowed : σ → ε → Prop) : List ε → σ → Prop
  | [], _ => True
  | e :: es, s => Allowed s e ∧ ∀ s', step s e = some s' → Meets step Allowed es s'

theorem Meets.of_forall {es : List ε} (h : ∀ e ∈ es, ∀ s, Allowed s e) (s : σ) :
  Meets step Allowed es s
  := by
  induction es generalizing s with
  | nil => trivial
  | cons e es ih =>
    rw [List.forall_mem_cons] at h
    exact ⟨h.1 s, fun s' _ => ih h.2 s'⟩

/-- Fewer assumptions on the events are met by more runs. -/
theorem Meets.mono (weaker : ∀ s e, Allowed s e → Allowed' s e) {es : List ε} {s : σ}
    (h : Meets step Allowed es s) :
  Meets step Allowed' es s
  := by
  induction es generalizing s with
  | nil => trivial
  | cons e es ih => exact ⟨weaker s e h.1, fun s' hs' => ih (h.2 s' hs')⟩

theorem Meets.of_run {es : List ε} {e : ε} {s s' : σ} (h : Meets step Allowed (es ++ [e]) s)
    (hrun : run step es s = some s') :
  Allowed s' e
  := by
  induction es generalizing s with
  | nil =>
    cases hrun
    exact h.1
  | cons e es ih =>
    obtain ⟨t, ht, hrest⟩ := Option.bind_eq_some_iff.mp hrun
    exact ih (h.2 t ht) hrest

/-- When `P` survives a step exactly if its event is allowed, `P` holds throughout a run
exactly if all its events are allowed.  The step may rely on an invariant `I` of the steps from
states in which `P` holds. -/
theorem always_iff_meets_of_always {I P : σ → Prop}
    (invariant : ∀ s e s', I s → P s → step s e = some s' → I s')
    (exact_step : ∀ s e, I s → P s → (Allowed s e ↔ ∀ s', step s e = some s' → P s'))
    (es : List ε) {s : σ} (hI : I s) (hP : P s) :
  Always step P es s ↔ Meets step Allowed es s
  := by
  induction es generalizing s with
  | nil => exact iff_of_true hP trivial
  | cons e es ih =>
    have next : ∀ s', step s e = some s' → P s' →
        (Always step P es s' ↔ Meets step Allowed es s') :=
      fun s' hs' hP' => ih (invariant s e s' hI hP hs') hP'
    constructor
    · rintro ⟨_, h⟩
      have hP' : ∀ s', step s e = some s' → P s' := fun s' hs' => by
        cases es with
        | nil => exact h s' hs'
        | cons => exact (h s' hs').1
      exact ⟨(exact_step s e hI hP).mpr hP', fun s' hs' => (next s' hs' (hP' s' hs')).mp (h s' hs')⟩
    · rintro ⟨allowed, h⟩
      have hP' := (exact_step s e hI hP).mp allowed
      exact ⟨hP, fun s' hs' => (next s' hs' (hP' s' hs')).mpr (h s' hs')⟩

/-- The same with an invariant of all steps. -/
theorem always_iff_meets {I P : σ → Prop}
    (invariant : ∀ s e s', I s → step s e = some s' → I s')
    (exact_step : ∀ s e, I s → P s → (Allowed s e ↔ ∀ s', step s e = some s' → P s'))
    (es : List ε) {s : σ} (hI : I s) (hP : P s) :
  Always step P es s ↔ Meets step Allowed es s
  := by
  apply always_iff_meets_of_always _ exact_step es hI hP
  intro s e s' hI _ hstep
  exact invariant s e s' hI hstep

/-- When allowed steps preserve `P` and an invariant `I`, then `P` holds throughout a run
whose events are all allowed. -/
theorem Meets.always {I P : σ → Prop}
    (preserved : ∀ s e s', I s → P s → Allowed s e → step s e = some s' → I s' ∧ P s')
    {es : List ε} {s : σ} (h : Meets step Allowed es s) (hI : I s) (hP : P s) :
  Always step P es s
  := by
  induction es generalizing s with
  | nil => exact hP
  | cons e es ih =>
    refine ⟨hP, fun s' hs' => ?_⟩
    obtain ⟨hI', hP'⟩ := preserved s e s' hI hP h.1 hs'
    exact ih (h.2 s' hs') hI' hP'

/-- What the allowed events give in the states of an invariant holds of every event of a run
whose events are all allowed. -/
theorem Meets.meets {I : σ → Prop} {Q : σ → ε → Prop}
    (preserved : ∀ s e s', I s → Allowed s e → step s e = some s' → I s')
    (gives : ∀ s e, I s → Allowed s e → Q s e)
    {es : List ε} {s : σ} (h : Meets step Allowed es s) (hI : I s) :
  Meets step Q es s
  := by
  induction es generalizing s with
  | nil => trivial
  | cons e es ih =>
    refine ⟨gives s e hI h.1, fun s' hs' => ?_⟩
    apply ih (h.2 s' hs') (preserved s e s' hI h.1 hs')

/-- The rest of a run whose events are allowed. -/
theorem Meets.of_append {es es' : List ε} {s s' : σ} (h : Meets step Allowed (es ++ es') s)
    (hrun : run step es s = some s') :
  Meets step Allowed es' s'
  := by
  induction es generalizing s with
  | nil =>
    cases hrun
    exact h
  | cons e es ih =>
    obtain ⟨t, ht, hrest⟩ := Option.bind_eq_some_iff.mp hrun
    exact ih (h.2 t ht) hrest

/-- What allowed events preserve holds after a run whose events are all allowed. -/
theorem Meets.invariant {I : σ → Prop}
    (preserved : ∀ s e s', I s → Allowed s e → step s e = some s' → I s')
    {es es' : List ε} {s s' : σ} (h : Meets step Allowed (es ++ es') s) (hI : I s)
    (hrun : run step es s = some s') :
  I s'
  := by
  induction es generalizing s with
  | nil =>
    cases hrun
    exact hI
  | cons e es ih =>
    obtain ⟨t, ht, hrest⟩ := Option.bind_eq_some_iff.mp hrun
    exact ih (h.2 t ht) (preserved s e t hI h.1 ht) hrest

/-- `Q` holds of some state of the run of `es` from `s`. -/
def Eventually (step : σ → ε → Option σ) (Q : σ → Prop) : List ε → σ → Prop
  | [], s => Q s
  | e :: es, s => Q s ∨ ∃ s', step s e = some s' ∧ Eventually step Q es s'

/-- When every allowed event either leads to `Q` or decreases a measure, `Q` is reached in a run
which is longer than the measure. -/
theorem Meets.eventually {P Q : σ → Prop} {measure : σ → Nat}
    (possible : ∀ s e, ∃ s', step s e = some s')
    (progress : ∀ s e s', P s → Allowed s e → step s e = some s' →
      Q s' ∨ (P s' ∧ measure s' < measure s))
    {es : List ε} {s : σ} (h : Meets step Allowed es s) (hP : P s) (hlength : measure s < es.length) :
  Eventually step Q es s
  := by
  induction es generalizing s with
  | nil => contradiction
  | cons e es ih =>
    obtain ⟨s', hs'⟩ := possible s e
    right
    refine ⟨s', hs', ?_⟩
    rcases progress s e s' hP h.1 hs' with hQ | ⟨hP', hless⟩
    · cases es with
      | nil => exact hQ
      | cons e' es => exact .inl hQ
    · rw [List.length_cons] at hlength
      apply ih (h.2 s' hs') hP' (by omega)

end StateMachine

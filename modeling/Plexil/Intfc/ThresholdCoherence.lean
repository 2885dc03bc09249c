import Plexil.Intfc.LookupSpec

/-!
# The thresholds which the dispatcher is sent

The thresholds sent last are the tightest ones of the active lookups which have any, as long
as the last lookup of the state is not unregistered while thresholds are in force and a
lookup whose tolerance has changed exceeds its new thresholds.  In the other cases the
thresholds of the entry or of a lookup change, and the dispatcher is not told.
-/

namespace Plexil.Intfc

variable {NUM : Type} [LawfulThresholdNumber NUM]

open ThresholdNumber

namespace StateCacheEntry

variable {s s' : StateCacheEntry NUM} {i : Nat}

/-! ### The survey of the lookups -/

/-- The pair of the lowest high and the highest low threshold, if there is any threshold. -/
def IsTightest (thresholds : List (NUM × NUM)) : Option (NUM × NUM) → Prop
  | none => thresholds = []
  | some (hi, lo) =>
    (∃ p ∈ thresholds, p.1 = hi) ∧ (∃ p ∈ thresholds, p.2 = lo) ∧
      ∀ p ∈ thresholds, lt p.1 hi = false ∧ lt lo p.2 = false

/-- One round of the loop adds a pair. -/
theorem IsTightest.tighten {thresholds : List (NUM × NUM)} {tightest : Option (NUM × NUM)}
    (h : IsTightest thresholds tightest) (p : NUM × NUM) :
  IsTightest (thresholds ++ [p]) (tighten tightest p)
  := by
  obtain ⟨newihi, newilo⟩ := p
  match tightest, h with
  | none, h =>
    subst h
    simp [StateCacheEntry.tighten, IsTightest, LawfulThresholdNumber.lt_irrefl]
  | some (ihi, ilo), ⟨hhi, hlo, hall⟩ =>
    refine ⟨?_, ?_, ?_⟩
    · split
      · use (newihi, newilo)
        simp
      · obtain ⟨p, hp, hihi⟩ := hhi
        use p, List.mem_append_left _ hp
    · split
      · use (newihi, newilo)
        simp
      · obtain ⟨p, hp, hilo⟩ := hlo
        use p, List.mem_append_left _ hp
    · intro p hp
      obtain hp | hp := List.mem_append.mp hp
      · obtain ⟨hp₁, hp₂⟩ := hall p hp
        constructor
        · split
          · rename_i hnew
            rw [← Bool.not_eq_true] at hp₁ ⊢
            intro hlt
            exact hp₁ (LawfulThresholdNumber.lt_trans hlt hnew)
          · exact hp₁
        · split
          · rename_i hnew
            rw [← Bool.not_eq_true] at hp₂ ⊢
            intro hlt
            exact hp₂ (LawfulThresholdNumber.lt_trans hnew hlt)
          · exact hp₂
      · obtain rfl := List.mem_singleton.mp hp
        constructor
        · split
          · apply LawfulThresholdNumber.lt_irrefl
          · rename_i hnew
            rwa [Bool.not_eq_true] at hnew
        · split
          · apply LawfulThresholdNumber.lt_irrefl
          · rename_i hnew
            rwa [Bool.not_eq_true] at hnew

/-- The loop finds the tightest thresholds. -/
theorem isTightest_foldl (thresholds : List (NUM × NUM)) :
  IsTightest thresholds (thresholds.foldl tighten none)
  := by
  induction thresholds using List.reverseRecOn with
  | nil => rfl
  | append_singleton thresholds p ih =>
    rw [List.foldl_append, List.foldl_cons, List.foldl_nil]
    apply ih.tighten

/-! ### Coherence -/

/-- What the dispatcher was sent last are the tightest thresholds of the active lookups. -/
def Coherent (s : StateCacheEntry NUM) : Prop :=
  match s.sent with
  | none => ∀ i, (s.lookup i).isActive = true → (s.lookup i).thresholds = none
  | some (hi, lo) =>
    (∃ i t, (s.lookup i).isActive = true ∧ (s.lookup i).thresholds = some t ∧ t.high = hi) ∧
    (∃ i t, (s.lookup i).isActive = true ∧ (s.lookup i).thresholds = some t ∧ t.low = lo) ∧
    ∀ i t, (s.lookup i).isActive = true → (s.lookup i).thresholds = some t →
      lt t.high hi = false ∧ lt lo t.low = false

/-- The thresholds which the survey finds are those of the active lookups. -/
theorem Registered.mem_thresholds (h : Registered s) (p : NUM × NUM) :
  p ∈ s.lookups.filterMap s.getThresholds
    ↔ ∃ i t, (s.lookup i).isActive = true ∧ (s.lookup i).thresholds = some t ∧
      (t.high, t.low) = p
  := by
  rw [List.mem_filterMap]
  constructor
  · rintro ⟨i, hi, hp⟩
    rw [getThresholds] at hp
    split at hp
    · rename_i hchange
      obtain ⟨t, ht, hp⟩ := Option.map_eq_some_iff.mp hp
      use i, t, (Bool.and_eq_true_iff.mp hchange).2, ht, hp
    · contradiction
  · rintro ⟨i, t, hactive, ht, hp⟩
    use i, (h.mem_iff i).mpr hactive
    have hchange : ((s.lookup i).onChange && (s.lookup i).isActive) = true := by
      by_contra hidle
      have hnone := h.idle i (Bool.not_eq_true _ ▸ hidle)
      rw [ht] at hnone
      contradiction
    rw [getThresholds, if_pos hchange, ht, Option.map_some, hp]

theorem Registered.coherent_iff (h : Registered s) :
  s.Coherent ↔ IsTightest (s.lookups.filterMap s.getThresholds) s.sent
  := by
  rw [Coherent]
  cases s.sent with
  | none =>
    rw [IsTightest, List.eq_nil_iff_forall_not_mem]
    constructor
    · intro hnone p hp
      obtain ⟨i, t, hactive, ht, -⟩ := (h.mem_thresholds p).mp hp
      rw [hnone i hactive] at ht
      contradiction
    · intro hnone i hactive
      by_contra hsome
      obtain ⟨t, ht⟩ := Option.ne_none_iff_exists'.mp hsome
      exact hnone _ ((h.mem_thresholds _).mpr ⟨i, t, hactive, ht, rfl⟩)
  | some sent =>
    obtain ⟨hi, lo⟩ := sent
    simp only [IsTightest, h.mem_thresholds]
    constructor
    · rintro ⟨⟨i, t, hactive, ht, hhi⟩, ⟨j, u, hactive', hu, hlo⟩, hall⟩
      refine ⟨⟨_, ⟨i, t, hactive, ht, rfl⟩, hhi⟩, ⟨_, ⟨j, u, hactive', hu, rfl⟩, hlo⟩, ?_⟩
      rintro _ ⟨i, t, hactive, ht, rfl⟩
      apply hall i t hactive ht
    · rintro ⟨⟨_, ⟨i, t, hactive, ht, rfl⟩, hhi⟩, ⟨_, ⟨j, u, hactive', hu, rfl⟩, hlo⟩, hall⟩
      refine ⟨⟨i, t, hactive, ht, hhi⟩, ⟨j, u, hactive', hu, hlo⟩, ?_⟩
      intro i t hactive ht
      apply hall _ ⟨i, t, hactive, ht, rfl⟩

/-- The dispatcher has been sent the tightest thresholds, and the entry keeps them. -/
structure Informed (s : StateCacheEntry NUM) : Prop where
  registered : Registered s
  sent : s.thresholds.isSome = s.sent.isSome
  coherent : s.Coherent

namespace Informed

/-- Nothing changes which concerns the thresholds. -/
theorem of_eq (h : Informed s) (hregistered : Registered s')
    (hsurvey : s'.lookups.filterMap s'.getThresholds = s.lookups.filterMap s.getThresholds)
    (hthresholds : s'.thresholds = s.thresholds) (hsent : s'.sent = s.sent) :
  Informed s'
  := by
  constructor
  · exact hregistered
  · rw [hthresholds, hsent]
    exact h.sent
  · rw [hregistered.coherent_iff, hsurvey, hsent, ← h.registered.coherent_iff]
    exact h.coherent

/-- The survey informs the dispatcher. -/
theorem updateThresholds (hregistered : Registered s)
    (hsent : s.thresholds.isSome = s.sent.isSome) :
  Informed s.updateThresholds
  := by
  have hregistered' : Registered s.updateThresholds :=
    hregistered.of_eq (updateThresholds_lookup s) (updateThresholds_lookups s)
  have hsurvey : s.updateThresholds.lookups.filterMap s.updateThresholds.getThresholds
      = s.lookups.filterMap s.getThresholds := by
    rw [updateThresholds_lookups]
    apply List.filterMap_congr
    intro i _
    rw [getThresholds, updateThresholds_lookup, getThresholds]
  have hfound : s.updateThresholds.sent = (s.lookups.filterMap s.getThresholds).foldl tighten none ∧
      s.updateThresholds.thresholds.isSome = s.updateThresholds.sent.isSome := by
    rw [StateCacheEntry.updateThresholds]
    split
    · rename_i thresholds hfold
      simp [hfold]
    · rename_i hfold
      rw [hfold]
      split
      · simp
      · rename_i hnone
        rw [hsent, Option.not_isSome_iff_eq_none] at hnone
        simp [hnone]
  constructor
  · exact hregistered'
  · exact hfound.2
  · rw [hregistered'.coherent_iff, hsurvey, hfound.1]
    apply isTightest_foldl

end Informed
end StateCacheEntry

/-! ### Updates -/

/-- A lookup whose tolerance has changed exceeds the thresholds which are set anew. -/
def Lookup.Resurveyed (l : Lookup NUM) (value : Option NUM) : Prop :=
  match l.thresholds, l.tolerance, l.cachedValue with
  | some t, some tol, some (some shown) =>
    t.toleranceChanged (some tol) = true →
      thresholdsExceeded (t.setThresholds (some shown) (some tol)) value = true
  | _, _, _ => True

instance (l : Lookup NUM) (value : Option NUM) : Decidable (l.Resurveyed value) := by
  unfold Lookup.Resurveyed
  split <;> infer_instance

/-- Where the entry is not told, the thresholds are the same as before. -/
theorem Lookup.Updates.thresholds_eq {l l' : Lookup NUM} {value : Option NUM}
    (hupdates : l.Updates value l' false) (hkept : l.Kept) (h : l.Resurveyed value) :
  (l'.thresholds.map fun t => (t.high, t.low)) = l.thresholds.map fun t => (t.high, t.low)
  := by
  generalize hupdated : false = updated at hupdates
  cases hupdates with
  | idle => rfl
  | @hold t tol ht htol hexceeded =>
    rw [ht, Option.map_some, Option.map_some, Option.some_inj, Lookup.adjusted]
    rw [Lookup.adjusted] at hexceeded
    split
    · rename_i hchanged
      obtain ⟨_ | shown, hcached⟩ := hkept.cached ht
      · simp [hcached]
      · rw [Lookup.Resurveyed, ht, htol, hcached] at h
        rw [if_pos hchanged, hcached, Option.join_some, h hchanged] at hexceeded
        contradiction
    · rfl
  | establish => contradiction
  | drop => contradiction
  | propagate => contradiction

namespace StateCacheEntry

variable {s s' : StateCacheEntry NUM} {i : Nat}

omit [LawfulThresholdNumber NUM] in
/-- The thresholds of a lookup are as before, and so is whether it is active. -/
theorem filterMap_setLookup {l : Lookup NUM} (hactive : l.isActive = (s.lookup i).isActive)
    (honChange : l.onChange = (s.lookup i).onChange)
    (hthresholds : (l.thresholds.map fun t => (t.high, t.low))
      = (s.lookup i).thresholds.map fun t => (t.high, t.low)) :
  (s.setLookup i l).lookups.filterMap (s.setLookup i l).getThresholds
    = s.lookups.filterMap s.getThresholds
  := by
  apply List.filterMap_congr
  intro j _
  obtain rfl | hne := eq_or_ne j i
  · simp [getThresholds, setLookup, hactive, honChange, hthresholds]
  · simp [getThresholds, setLookup, hne]

namespace Informed

theorem updateInternal (h : Informed s) (honChange : (s.lookup i).onChange = true)
    (hactive : (s.lookup i).isActive = true) (hmeets : (s.lookup i).Resurveyed s.value)
    (valueChanged : Bool) :
  Informed (s.updateInternal i valueChanged).1
  := by
  have hupdates := (s.lookup i).updates_updateInternal s.value valueChanged
  rw [StateCacheEntry.updateInternal]
  generalize (s.lookup i).updateInternal s.value valueChanged = outcome at hupdates ⊢
  obtain ⟨l, updated, result⟩ := outcome
  dsimp only at hupdates ⊢
  have hset := h.registered.setUpdated honChange hactive hupdates
  cases updated with
  | true =>
    apply updateThresholds hset h.sent
  | false =>
    apply h.of_eq hset _ rfl rfl
    apply filterMap_setLookup hupdates.isActive hupdates.onChange
    apply hupdates.thresholds_eq (h.registered.kept i) hmeets

theorem registered_lookup (h : Informed s) (hinactive : (s.lookup i).activeCount = 0) :
  Informed (s.registered i)
  := by
  apply h.of_eq (h.registered.registered hinactive) _ rfl rfl
  have hnotMem : i ∉ s.lookups := by
    rw [h.registered.mem_iff, Lookup.isActive, hinactive]
    decide
  have hnone : (s.lookup i).thresholds = none := by
    apply h.registered.idle
    rw [Lookup.isActive, hinactive]
    simp
  have hown : (s.registered i).getThresholds i = none := by
    simp [getThresholds, StateCacheEntry.registered, setLookup, hnone]
  rw [registered_lookups, List.filterMap_append, List.filterMap_cons, hown, List.filterMap_nil,
    List.append_nil]
  apply List.filterMap_congr
  intro j hj
  have hne : j ≠ i := ne_of_mem_of_not_mem hj hnotMem
  simp [getThresholds, StateCacheEntry.registered, setLookup, hne]

/-- When there are no thresholds, there are none without the lookup `i`. -/
theorem without (h : Informed s) (hnone : s.thresholds = none) (i : Nat) :
  Informed { s.without i with thresholds := none }
  := by
  have hsent : s.sent = none := by
    rw [← Option.not_isSome_iff_eq_none, ← h.sent, hnone]
    simp
  have hregistered : Registered { s.without i with thresholds := none } :=
    (h.registered.without i).of_eq rfl rfl
  have hcoherent := h.registered.coherent_iff.mp h.coherent
  rw [hsent, IsTightest, List.filterMap_eq_nil_iff] at hcoherent
  constructor
  · exact hregistered
  · change false = s.sent.isSome
    rw [hsent]
    rfl
  · rw [hregistered.coherent_iff]
    change IsTightest _ s.sent
    rw [hsent, IsTightest, List.filterMap_eq_nil_iff]
    intro j hj
    obtain ⟨hne, hmem⟩ := h.registered.nodup.mem_erase_iff.mp hj
    rw [← hcoherent j hmem]
    simp [getThresholds, StateCacheEntry.without, setLookup, hne]

theorem deactivated (h : Informed s) (hactive : (s.lookup i).activeCount = 1)
    (hlast : s.lookups = [i] → s.thresholds = none) :
  Informed (s.deactivated i)
  := by
  have hmem : i ∈ s.lookups := by
    rw [h.registered.mem_iff, Lookup.isActive, hactive]
    decide
  rw [h.registered.deactivated_eq]
  split
  · rename_i hempty
    apply h.without
    apply hlast
    have herase : s.lookups.erase i = [] := List.isEmpty_iff.mp hempty
    obtain hnil | hsingle := List.erase_eq_nil_iff.mp herase
    · rw [hnil] at hmem
      contradiction
    · exact hsingle
  · split
    · apply updateThresholds (h.registered.without i) h.sent
    · rename_i hnone
      rw [Option.not_isSome_iff_eq_none] at hnone
      have hwithout := h.without hnone i
      rwa [show { s.without i with thresholds := none } = s.without i from by
        rw [← hnone]; rfl] at hwithout

theorem invariance :
  Invariance (@Informed NUM _) Lookup.Resurveyed
    fun s i => s.lookups = [i] → s.thresholds = none
  where
  registered h := h.registered
  unobserved _ _ h := h.of_eq (h.registered.of_eq rfl rfl) rfl rfl rfl
  updateInternal valueChanged h honChange hactive hmeets :=
    h.updateInternal honChange hactive hmeets valueChanged
  setLookup h hactive honChange hthresholds hcached := by
    have hregistered :=
      Registered.invariance.setLookup h.registered hactive honChange hthresholds hcached
    apply h.of_eq hregistered _ rfl rfl
    apply filterMap_setLookup hactive honChange
    rw [hthresholds]
  activate h hinactive := h.registered_lookup hinactive
  deactivate h hactive hlast := h.deactivated hactive hlast

end Informed

/-! ### Runs -/

/-- Where thresholds change, the dispatcher is told: the last lookup is unregistered only when
there are no thresholds, and a lookup which sets its thresholds anew exceeds them. -/
def Told (s : StateCacheEntry NUM) (e : Event NUM) : Prop :=
  EventMeets Lookup.Resurveyed s e ∧
    match e with
    | .deactivate i =>
      (s.lookup i).activeCount = 1 → s.lookups = [i] → s.thresholds.isNone = true
    | _ => True

instance (s : StateCacheEntry NUM) : (e : Event NUM) → Decidable (Told s e)
  | .deactivate _ => inferInstanceAs (Decidable (_ ∧ (_ → _ → _)))
  | .activate .. => inferInstanceAs (Decidable (_ ∧ True))
  | .update _ => inferInstanceAs (Decidable (_ ∧ True))
  | .changeTolerance .. => inferInstanceAs (Decidable (_ ∧ True))
  | .setListening .. => inferInstanceAs (Decidable (_ ∧ True))

theorem Init.informed (h : Init s) :
  Informed s
  := by
  constructor
  · exact Registered.of_init h
  · rw [h.2.1, h.2.2.1]
  · rw [(Registered.of_init h).coherent_iff, h.1, h.2.2.1]
    rfl

end StateCacheEntry

open StateCacheEntry in
/-- In every run in which the dispatcher is told, the thresholds which it was sent last are the
tightest ones of the active lookups. -/
theorem thresholds_coherent (τ : NumericType) {s : StateCacheEntry τ.Number}
    (h : StateMachine.Reachable step Init Told s) :
  s.Coherent
  := by
  have hinformed : Informed s := by
    apply h.invariant (P := Informed)
    · intro s hinit
      exact hinit.informed
    · intro s e s' hs htold hstep
      apply Informed.invariance.step hs htold.1 _ hstep
      rintro i rfl hactive hlast
      rw [← Option.isNone_iff_eq_none]
      apply htold.2 hactive hlast
  exact hinformed.coherent

open StateCacheEntry in
/-- Two lookups are active, of which the second one has the tighter thresholds. -/
theorem thresholds_coherent_two :
  ∃ s, StateMachine.checkedRun step Told
      [.activate 0 [some 5] (some 10) false, .activate 1 [] (some 3) false, .update (some 9),
        .update (some 11)] idleEntry = some s ∧
    s.sent = some (12, 6) ∧ s.Coherent
  := by
  have hrun : (StateMachine.checkedRun step Told
      [.activate 0 [some 5] (some 10) false, .activate 1 [] (some 3) false, .update (some 9),
        .update (some 11)] idleEntry).map (fun s => s.sent) = some (some (12, 6)) := by
    decide +kernel
  obtain ⟨s, hs, hsent⟩ := Option.map_eq_some_iff.mp hrun
  use s, hs, hsent
  apply thresholds_coherent .integer
  apply StateMachine.Reachable.of_checkedRun (.init idleEntry_init) hs

open StateCacheEntry in
/-- The lookup is deactivated, and the dispatcher keeps its thresholds. -/
theorem thresholds_coherent_fails :
  ¬ ∀ (τ : NumericType) (s : StateCacheEntry τ.Number),
    StateMachine.Reachable step Init (fun _ _ => True) s → s.Coherent
  := by
  intro h
  have hrun : (StateMachine.run step [.activate 0 [some 5] (some 10) false, .deactivate 0]
      idleEntry).map (fun s => (s.sent, s.lookups)) = some (some (15, -5), []) := by
    decide +kernel
  obtain ⟨s, hs, heq⟩ := Option.map_eq_some_iff.mp hrun
  obtain ⟨hsent, hlookups⟩ := Prod.mk.inj heq
  have hreachable : StateMachine.Reachable step Init (fun _ _ => True) s :=
    .of_run (.init idleEntry_init) hs
  have hregistered : Registered s := .of_reachable hreachable
  have hcoherent := h .integer s hreachable
  rw [Coherent, hsent] at hcoherent
  obtain ⟨⟨i, t, hactive, -⟩, -⟩ := hcoherent
  rw [← hregistered.mem_iff, hlookups] at hactive
  contradiction

end Plexil.Intfc

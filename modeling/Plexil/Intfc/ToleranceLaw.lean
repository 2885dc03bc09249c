import Plexil.Intfc.LookupSpec

/-!
# The tolerance of change lookups

A change lookup shows a value which differs from that of the state by less than its
tolerance, and it shows a known value exactly when the state has one.  This is so as long as
a value which becomes known again exceeds the thresholds which are left from before, which
for Reals it always does, and as long as a lookup without listeners does not miss a change
of its tolerance by which the difference becomes too large.
-/

namespace Plexil.Intfc

variable {NUM : Type} [LawfulThresholdNumber NUM]

open ThresholdNumber

namespace Lookup

variable {l l' : Lookup NUM} {value : Option NUM} {updated : Bool}

/-! ### One lookup -/

/-- The values are the same, or they differ by less than the tolerance. -/
def Agrees (tolerance : Option NUM) (shown actual : NUM) : Prop :=
  match tolerance with
  | some tol => shown = actual ∨ LawfulThresholdNumber.Within tol shown actual
  | none => shown = actual

theorem agrees_self (tolerance : Option NUM) (value : NUM) :
  Agrees tolerance value value
  := by
  cases tolerance with
  | none => rfl
  | some tol => exact .inl rfl

/-- The values agree, when both are known. -/
def AgreesWhenKnown (tolerance shown actual : Option NUM) : Prop :=
  match shown, actual with
  | some shown, some actual => Agrees tolerance shown actual
  | _, _ => True

/-- The lookup shows the value of the state, up to its tolerance. -/
structure Shows (l : Lookup NUM) (value : Option NUM) : Prop where
  unknown : l.getValue value = none ↔ value = none
  isKnown : l.isKnown value = true ↔ (l.getValue value).isSome = true
  agrees : ∀ shown actual, l.getValue value = some shown → value = some actual →
    Agrees l.tolerance shown actual

/-- What is shown is what the state has. -/
theorem shows_of_eq (hactive : l.isActive = true) (h : l.getValue value = value) :
  l.Shows value
  := by
  constructor
  · rw [h]
  · rw [h, Lookup.isKnown, hactive, Bool.true_and]
  · rintro shown actual hshown rfl
    rw [h] at hshown
    obtain rfl := Option.some.inj hshown
    apply agrees_self

/-- What a lookup shows depends on its cached value and its tolerance. -/
theorem Shows.of_eq (h : l.Shows value) (hactive : l'.isActive = l.isActive)
    (hcached : l'.cachedValue = l.cachedValue) (htolerance : l'.tolerance = l.tolerance) :
  l'.Shows value
  := by
  have hvalue : l'.getValue value = l.getValue value := by
    rw [getValue, hactive, hcached, getValue]
  constructor
  · rw [hvalue]
    exact h.unknown
  · rw [hvalue, Lookup.isKnown, hactive]
    exact h.isKnown
  · rw [hvalue, htolerance]
    exact h.agrees

/-- A value which becomes known exceeds the thresholds, and a value is not compared with
thresholds which are no numbers. -/
def Followed (l : Lookup NUM) (value : Option NUM) : Prop :=
  match l.thresholds, l.tolerance, l.cachedValue, value with
  | some _, some tol, some (some shown), some actual =>
    LawfulThresholdNumber.Regular tol shown actual
  | some t, some _, some none, some actual => thresholdsExceeded t (some actual) = true
  | _, _, _, _ => True

/-- The thresholds which are tested are those of the current tolerance. -/
theorem adjusted_eq {t : ThresholdCache NUM} {shown : NUM} (h : l.Kept)
    (ht : l.thresholds = some t) (hcached : l.cachedValue = some (some shown)) (tol : NUM) :
  l.adjusted t tol = ThresholdCache.new.setThresholds (some shown) (some tol)
  := by
  rw [adjusted, hcached]
  split
  · rfl
  · rename_i hunchanged
    obtain ⟨tol', rfl⟩ := h.known ht hcached
    simp only [ThresholdCache.toleranceChanged, Bool.not_eq_true', Bool.not_eq_false] at hunchanged
    have hmagnitude := LawfulThresholdNumber.eq_of_eq hunchanged
    rw [ThresholdCache.setThresholds_some] at hmagnitude ⊢
    rw [ThresholdCache.setThresholds_some, hmagnitude]

theorem adjusted_eq_self {t : ThresholdCache NUM} (h : l.Kept)
    (ht : l.thresholds = some t) (hcached : l.cachedValue = some none) (tol : NUM) :
  l.adjusted t tol = t
  := by
  have hwasKnown := h.unknown ht hcached
  rw [adjusted, hcached]
  split
  · rw [Option.join_some, ThresholdCache.setThresholds_none, ← hwasKnown]
  · rfl

/-- After an update the lookup shows the value. -/
theorem Updates.shows (hupdates : l.Updates value l' updated) (hactive : l.isActive = true)
    (hkept : l.Kept) (h : l.Followed value) :
  l'.Shows value
  := by
  have hactive' : l'.isActive = true := hupdates.isActive.trans hactive
  cases hupdates with
  | idle hnone =>
    apply shows_of_eq hactive'
    rw [getValue, if_pos hactive', hkept.null hnone]
  | establish _ hvalue =>
    apply shows_of_eq hactive'
    rw [getValue, if_pos hactive', hvalue]
  | drop =>
    apply shows_of_eq hactive'
    rw [getValue, if_pos hactive']
  | propagate =>
    apply shows_of_eq hactive'
    rw [getValue, if_pos hactive']
  | @hold t tol ht htol hexceeded =>
    obtain ⟨_ | shown, hcached⟩ := hkept.cached ht
    · apply shows_of_eq hactive'
      rw [getValue, if_pos hactive', hcached]
      cases value with
      | none => rfl
      | some actual =>
        simp only [Followed, ht, htol, hcached] at h
        rw [adjusted_eq_self hkept ht hcached, h] at hexceeded
        contradiction
    · cases value with
      | none =>
        rw [LawfulThresholdNumber.exceeded_none, adjusted_eq hkept ht hcached] at hexceeded
        contradiction
      | some actual =>
        simp only [Followed, ht, htol, hcached] at h
        rw [adjusted_eq hkept ht hcached] at hexceeded
        have hvalue : getValue { l with thresholds := some (l.adjusted t tol) } (some actual)
            = some shown := by
          rw [getValue, if_pos hactive', hcached]
        constructor
        · simp [hvalue]
        · simp [hvalue, Lookup.isKnown, hactive']
        · rintro _ _ hshown ⟨⟩
          rw [hvalue] at hshown
          obtain rfl := Option.some.inj hshown
          rw [htol]
          exact .inr (LawfulThresholdNumber.within_of_not_exceeded h hexceeded)

instance (tolerance : Option Integer) (shown actual : Integer) :
    Decidable (Agrees tolerance shown actual) :=
  match tolerance with
  | some tol =>
    inferInstanceAs (Decidable (_ ∨ |shown.toInt - actual.toInt| < |tol.toInt|))
  | none => inferInstanceAs (Decidable (shown = actual))

instance (tolerance : Option Integer) :
    (shown actual : Option Integer) → Decidable (AgreesWhenKnown tolerance shown actual)
  | some shown, some actual => inferInstanceAs (Decidable (Agrees tolerance shown actual))
  | none, _ => isTrue trivial
  | some _, none => isTrue trivial

instance (l : Lookup Integer) (value : Option Integer) : Decidable (l.Followed value) := by
  unfold Lookup.Followed
  split
  · exact isTrue trivial
  · infer_instance
  · exact isTrue trivial

end Lookup

namespace StateCacheEntry

variable {s s' : StateCacheEntry NUM} {i : Nat}

/-! ### Steps -/

/-- Every active change lookup shows the value of the state, up to its tolerance. -/
def ObeysTolerance (s : StateCacheEntry NUM) : Prop :=
  ∀ i, (s.lookup i).onChange = true → (s.lookup i).isActive = true →
    (s.lookup i).Shows s.value

/-- Each lookup follows the value, and a change of the tolerance is noticed or makes no
difference. -/
def Noticed (s : StateCacheEntry NUM) (e : Event NUM) : Prop :=
  EventMeets Lookup.Followed s e ∧
    match e with
    | .changeTolerance i tolerance =>
      (s.lookup i).hasListeners = false →
        Lookup.AgreesWhenKnown tolerance ((s.lookup i).getValue s.value) s.value
    | _ => True

instance (s : StateCacheEntry Integer) : (e : Event Integer) → Decidable (Noticed s e)
  | .changeTolerance .. => inferInstanceAs (Decidable (_ ∧ (_ → Lookup.AgreesWhenKnown _ _ _)))
  | .activate .. => inferInstanceAs (Decidable (_ ∧ True))
  | .deactivate _ => inferInstanceAs (Decidable (_ ∧ True))
  | .update _ => inferInstanceAs (Decidable (_ ∧ True))
  | .setListening .. => inferInstanceAs (Decidable (_ ∧ True))

namespace ObeysTolerance

/-- Only the lookup `i` has changed. -/
theorem of_others (h : ObeysTolerance s) (hvalue : s'.value = s.value)
    (hothers : ∀ j, j ≠ i → s'.lookup j = s.lookup j)
    (hown : (s'.lookup i).onChange = true → (s'.lookup i).isActive = true →
      (s'.lookup i).Shows s.value) :
  ObeysTolerance s'
  := by
  intro j honChange hactive
  rw [hvalue]
  obtain rfl | hne := eq_or_ne j i
  · apply hown honChange hactive
  · rw [hothers j hne] at honChange hactive ⊢
    apply h j honChange hactive

theorem update (h : ObeysTolerance s) (hregistered : Registered s) {value : Option NUM}
    (hmeets : UpdateMeets Lookup.Followed s value) :
  ObeysTolerance (s.update value)
  := by
  cases hdiffers : differs s.value value with
  | false =>
    have hsame : s.update value = s := by
      rw [StateCacheEntry.update, hdiffers, if_neg Bool.false_ne_true]
    rwa [hsame]
  | true =>
    intro i honChange hactive
    have hlookup := update_lookup hregistered.nodup value i
    have hvalue : (s.update value).value = value := by
      rw [StateCacheEntry.update, if_pos hdiffers]
      apply foldl_valueChanged_value
    simp only [hdiffers, true_and] at hlookup
    split at hlookup
    · rename_i hmem
      have hisActive := (hregistered.mem_iff i).mp hmem
      rw [Lookup.notified, hisActive, Bool.and_true] at hlookup
      split at hlookup
      · rename_i hchange
        have hupdates := (s.lookup i).updates_updateInternal value true
        rw [hlookup, hvalue]
        apply hupdates.shows hisActive (hregistered.kept i) (hmeets hdiffers i hmem hchange)
      · rename_i hplain
        rw [hlookup] at honChange
        exact absurd honChange hplain
    · rename_i hnotMem
      rw [hlookup, ← hregistered.mem_iff] at hactive
      exact absurd hactive hnotMem

theorem responses (h : ObeysTolerance s) (hregistered : Registered s)
    {responses : List (Option NUM)} (hmeets : ResponsesMeet Lookup.Followed s responses) :
  ObeysTolerance (responses.foldl StateCacheEntry.update s)
  := by
  induction responses generalizing s with
  | nil => exact h
  | cons value responses ih =>
    apply ih (h.update hregistered hmeets.1) _ hmeets.2
    apply Registered.invariance.update hregistered (Registered.updateMeets_true s value)

/-- A lookup shows the value when it has been registered. -/
theorem registered (h : ObeysTolerance s) (hregistered : Registered s)
    (hinactive : (s.lookup i).activeCount = 0) :
  ObeysTolerance (s.registered i)
  := by
  have hnone : (s.lookup i).thresholds = none := by
    apply hregistered.idle
    rw [Lookup.isActive, hinactive]
    simp
  have hcached := (hregistered.kept i).null hnone
  apply h.of_others (i := i)
  · rfl
  · intro j hne
    simp [StateCacheEntry.registered, setLookup, hne]
  · intro _ hactive
    apply Lookup.shows_of_eq hactive
    rw [Lookup.getValue, if_pos hactive]
    simp [StateCacheEntry.registered, setLookup, hcached]

/-- After `updateInternal` the lookup `i` shows the value, also where it did not before. -/
theorem updateInternal (hregistered : Registered s) (honChange : (s.lookup i).onChange = true)
    (hactive : (s.lookup i).isActive = true)
    (hothers : ∀ j, j ≠ i → (s.lookup j).onChange = true → (s.lookup j).isActive = true →
      (s.lookup j).Shows s.value)
    (hmeets : (s.lookup i).Followed s.value) (valueChanged : Bool) :
  ObeysTolerance (s.updateInternal i valueChanged).1
  := by
  intro j honChange' hactive'
  rw [updateInternal_lookup] at honChange' hactive' ⊢
  rw [updateInternal_value]
  obtain rfl | hne := eq_or_ne j i
  · rw [Function.update_self]
    have hupdates := (s.lookup j).updates_updateInternal s.value valueChanged
    apply hupdates.shows hactive (hregistered.kept j) hmeets
  · rw [Function.update_of_ne hne] at honChange' hactive' ⊢
    apply hothers j hne honChange' hactive'

/-- What is published is no matter to what the lookups show. -/
theorem of_published (h : ObeysTolerance s) (published : List Nat) :
  ObeysTolerance { s with published := published }
  := h

theorem handleChange (hregistered : Registered s) (honChange : (s.lookup i).onChange = true)
    (hactive : (s.lookup i).isActive = true)
    (hothers : ∀ j, j ≠ i → (s.lookup j).onChange = true → (s.lookup j).isActive = true →
      (s.lookup j).Shows s.value)
    (hmeets : (s.lookup i).Followed s.value) :
  ObeysTolerance (s.handleChange i)
  := by
  obtain ⟨published, heq⟩ := s.handleChange_eq i
  rw [heq]
  apply of_published (updateInternal hregistered honChange hactive hothers hmeets false)

theorem toleranceActivated (hregistered : Registered s) (honChange : (s.lookup i).onChange = true)
    (hactive : (s.lookup i).isActive = true)
    (hothers : ∀ j, j ≠ i → (s.lookup j).onChange = true → (s.lookup j).isActive = true →
      (s.lookup j).Shows s.value)
    {changed : Bool} (hmeets : ToleranceMeets Lookup.Followed s i changed) :
  ObeysTolerance (s.toleranceActivated i changed)
  := by
  obtain ⟨hfirst, hsecond⟩ := hmeets
  have hlast : ObeysTolerance ((if changed && (s.lookup i).hasListeners then s.handleChange i
      else s).updateInternal i true).1 := by
    split
    · rename_i hlistening
      have hobeys := handleChange hregistered honChange hactive hothers hfirst
      have hregistered' := Registered.invariance.handleChange hregistered honChange hactive trivial
      obtain ⟨published, heq⟩ := s.handleChange_eq i
      have hupdates := (s.lookup i).updates_updateInternal s.value false
      have hlookup : (s.handleChange i).lookup i = ((s.lookup i).updateInternal s.value false).1 := by
        simp [heq]
      have hvalue : (s.handleChange i).value = s.value := by
        simp [heq]
      apply updateInternal hregistered'
      · rwa [hlookup, hupdates.onChange]
      · rwa [hlookup, hupdates.isActive]
      · intro j _
        apply hobeys j
      · rw [hlookup, hvalue]
        apply hsecond hlistening
    · apply updateInternal hregistered honChange hactive hothers hfirst
  rw [StateCacheEntry.toleranceActivated]
  apply iteInduction
  · intro _
    obtain ⟨published, heq⟩ := publishChange_eq _ i
    rw [heq]
    apply of_published hlast
  · intro _
    exact hlast

/-- When the tolerance of a lookup is set, the other lookups show what they have shown. -/
theorem setTolerance_others (h : ObeysTolerance s) (i : Nat) (tolerance : Option NUM) (j : Nat)
    (hne : j ≠ i) :
  ((s.setTolerance i tolerance).lookup j).onChange = true →
    ((s.setTolerance i tolerance).lookup j).isActive = true →
    ((s.setTolerance i tolerance).lookup j).Shows (s.setTolerance i tolerance).value
  := by
  rw [setTolerance_lookup, Function.update_of_ne hne]
  apply h j

/-- A lookup is replaced by one which shows the same. -/
theorem setLookup (h : ObeysTolerance s) {l : Lookup NUM}
    (hactive : l.isActive = (s.lookup i).isActive) (honChange : l.onChange = (s.lookup i).onChange)
    (hcached : l.cachedValue = (s.lookup i).cachedValue)
    (htolerance : l.tolerance = (s.lookup i).tolerance) :
  ObeysTolerance (s.setLookup i l)
  := by
  apply h.of_others (i := i)
  · rfl
  · intro j hne
    simp [StateCacheEntry.setLookup, hne]
  · have hlookup : (s.setLookup i l).lookup i = l := by
      simp [StateCacheEntry.setLookup]
    rw [hlookup, hactive, honChange]
    intro honChange hactive'
    apply (h i honChange hactive').of_eq hactive hcached htolerance

theorem deactivated (h : ObeysTolerance s) (hregistered : Registered s) (i : Nat) :
  ObeysTolerance (s.deactivated i)
  := by
  have hwithout : (s.deactivated i).lookup = (s.without i).lookup ∧
      (s.deactivated i).value = s.value := by
    rw [hregistered.deactivated_eq]
    split
    · exact ⟨rfl, rfl⟩
    · split
      · exact ⟨updateThresholds_lookup _, updateThresholds_value _⟩
      · exact ⟨rfl, rfl⟩
  apply h.of_others (i := i) hwithout.2
  · intro j hne
    simp [hwithout.1, without, StateCacheEntry.setLookup, hne]
  · simp [hwithout.1, without, StateCacheEntry.setLookup, Lookup.isActive]

theorem step (h : ObeysTolerance s) (hregistered : Registered s) {e : Event NUM}
    (hnoticed : Noticed s e) (hstep : s.step e = some s') :
  ObeysTolerance s'
  := by
  obtain ⟨hmeets, hunnoticed⟩ := hnoticed
  cases e with
  | activate i responses tolerance changed =>
    obtain rfl := Option.some.inj hstep
    obtain hinactive | hactive := eq_or_ne (s.lookup i).activeCount 0
    · obtain ⟨hresponses, hown⟩ := hmeets hinactive
      rw [activate_eq hinactive]
      have hregistered' := Registered.invariance.responses (hregistered.registered hinactive)
        (Registered.responsesMeet_true _ responses)
      have hanswered := (h.registered hregistered hinactive).responses
        (hregistered.registered hinactive) hresponses
      have hlookups := foldl_update_lookups responses (s.registered i)
      dsimp only
      split
      · rename_i honChange
        have hactive := (hregistered'.mem_iff i).mp (by simp [hlookups])
        apply toleranceActivated (Registered.invariance.setTolerance hregistered' i tolerance)
        · simpa using honChange
        · simpa [Lookup.isActive] using hactive
        · apply hanswered.setTolerance_others
        · apply hown honChange
      · exact hanswered
    · rw [StateCacheEntry.activate, if_neg hactive]
      apply h.setLookup
      · simp [Lookup.isActive, Nat.pos_iff_ne_zero, hactive]
      · rfl
      · rfl
      · rfl
  | deactivate i =>
    obtain ⟨hactive, rfl⟩ := deactivate_eq_some hstep
    split
    · apply h.deactivated hregistered
    · rename_i hmore
      apply h.setLookup
      · rw [Lookup.isActive, Lookup.isActive, decide_eq_decide]
        dsimp only
        omega
      · rfl
      · rfl
      · rfl
  | update value =>
    obtain rfl := Option.some.inj hstep
    apply h.update hregistered hmeets
  | changeTolerance i tolerance =>
    obtain rfl := Option.some.inj hstep
    rw [changeTolerance]
    split
    · rename_i hnotified
      obtain ⟨hchange, hlistening⟩ := Bool.and_eq_true_iff.mp hnotified
      obtain ⟨honChange, hactive⟩ := Bool.and_eq_true_iff.mp hchange
      apply handleChange (Registered.invariance.setTolerance hregistered i tolerance) honChange
        hactive (h.setTolerance_others i tolerance) (hmeets hnotified)
    · rename_i hignored
      apply h.of_others (i := i)
      · rfl
      · intro j hne
        simp [hne]
      · rw [setTolerance_lookup, Function.update_self] at hignored ⊢
        intro honChange hactive
        have hlistening : (s.lookup i).hasListeners = false := by
          by_contra hlistening
          apply hignored
          rw [Bool.not_eq_false] at hlistening
          rw [honChange, hactive, hlistening]
          rfl
        have hshows := h i honChange hactive
        constructor
        · exact hshows.unknown
        · exact hshows.isKnown
        · intro shown actual hshown hactual
          have hagrees := hunnoticed hlistening
          rw [show (s.lookup i).getValue s.value = some shown from hshown, hactual] at hagrees
          exact hagrees
  | setListening i hasListeners =>
    obtain rfl := Option.some.inj hstep
    apply h.setLookup
    · rfl
    · rfl
    · rfl
    · rfl

end ObeysTolerance

/-- An entry without active lookups obeys the tolerances. -/
theorem Init.obeysTolerance (h : Init s) :
  ObeysTolerance s
  := by
  intro i _ hactive
  rw [Lookup.isActive, (h.2.2.2 i).1] at hactive
  contradiction

end StateCacheEntry

/-! ### Runs -/

open StateCacheEntry in
/-- In every run in which the lookups follow the value and notice their tolerances, every active
change lookup shows the value of the state, up to its tolerance. -/
theorem tolerance_obeyed (τ : NumericType) {s : StateCacheEntry τ.Number}
    (h : StateMachine.Reachable step Init Noticed s) :
  s.ObeysTolerance
  := by
  apply h.invariant_of (P := ObeysTolerance) fun s => Registered.of_reachable
  · intro s hinit
    exact hinit.obeysTolerance
  · intro s e s' hregistered hs hnoticed hstep
    exact hs.step hregistered hnoticed hstep

open StateCacheEntry in
/-- A lookup of tolerance 10 shows 5 until the value is 16, and the tolerance becomes 3. -/
theorem tolerance_obeyed_ten :
  ∃ s, StateMachine.checkedRun step Noticed
      [.activate 0 [some 5] (some 10) false, .update (some 14), .update (some 16), .update (some 12),
        .update none, .changeTolerance 0 (some 3), .update (some 6), .update (some 4)]
      idleEntry = some s ∧
    (s.lookup 0).getValue s.value = some 6 ∧ s.ObeysTolerance
  := by
  have hrun : (StateMachine.checkedRun step Noticed
      [.activate 0 [some 5] (some 10) false, .update (some 14), .update (some 16), .update (some 12),
        .update none, .changeTolerance 0 (some 3), .update (some 6), .update (some 4)]
      idleEntry).map (fun s => (s.lookup 0).getValue s.value) = some (some 6) := by
    decide +kernel
  obtain ⟨s, hs, hvalue⟩ := Option.map_eq_some_iff.mp hrun
  use s, hs, hvalue
  apply tolerance_obeyed .integer
  apply StateMachine.Reachable.of_checkedRun (.init idleEntry_init) hs

open StateCacheEntry in
/-- The value becomes unknown and then known again within the old thresholds; the lookup says
that it is known, but shows no value. -/
theorem tolerance_obeyed_fails :
  ¬ ∀ (τ : NumericType) (s : StateCacheEntry τ.Number),
    StateMachine.Reachable step Init (fun _ _ => True) s → s.ObeysTolerance
  := by
  intro h
  have hrun : (StateMachine.run step [.activate 0 [some 5] (some 10) false, .update none,
        .update (some 7)] idleEntry).map
      (fun s => (s.value, (s.lookup 0).getValue s.value, (s.lookup 0).onChange,
        (s.lookup 0).isActive)) = some (some 7, none, true, true) := by
    decide +kernel
  obtain ⟨s, hs, heq⟩ := Option.map_eq_some_iff.mp hrun
  simp only [Prod.mk.injEq] at heq
  obtain ⟨hvalue, hshown, honChange, hactive⟩ := heq
  have hreachable : StateMachine.Reachable step Init (fun _ _ => True) s :=
    .of_run (.init idleEntry_init) hs
  have hshows := h .integer s hreachable 0 honChange hactive
  have hnone := hshows.unknown.mp hshown
  rw [hvalue] at hnone
  contradiction

end Plexil.Intfc

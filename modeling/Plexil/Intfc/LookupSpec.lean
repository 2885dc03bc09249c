import Mathlib.Data.List.Nodup
import Plexil.Intfc.LookupOnChange

/-!
# What the operations on change lookups do

The cases of `updateInternal` are the rules of a relation.  The other operations are
described by what they do to the lookups, to the value and to the list of the registered
lookups.  Exactly the active lookups are registered, and only these have thresholds.
-/

namespace Plexil.Intfc

variable {NUM : Type} [ThresholdNumber NUM]

open ThresholdNumber

/-! ### One lookup -/

namespace Lookup

/-- The thresholds which are tested, when those of the lookup are `t` and the tolerance is
`tol`: they are set anew when the tolerance has changed. -/
def adjusted (l : Lookup NUM) (t : ThresholdCache NUM) (tol : NUM) : ThresholdCache NUM :=
  if t.toleranceChanged (some tol) then t.setThresholds l.cachedValue.join (some tol) else t

/-- What `updateInternal` does: the lookup afterwards and whether the thresholds of the entry
are updated. -/
inductive Updates (l : Lookup NUM) (value : Option NUM) : Lookup NUM → Bool → Prop where
  /-- There are no thresholds, and none are established. -/
  | idle : l.thresholds = none → value = none ∨ l.tolerance = none → Updates l value l false
  | establish {v tol : NUM} : l.thresholds = none → value = some v → l.tolerance = some tol →
      Updates l value
        { l with
          cachedValue := some (some v)
          thresholds := some (ThresholdCache.new.setThresholds (some v) (some tol)) } true
  /-- The tolerance has become unknown. -/
  | drop {t : ThresholdCache NUM} : l.thresholds = some t → l.tolerance = none →
      Updates l value { l with thresholds := none, cachedValue := none } true
  | propagate {t : ThresholdCache NUM} {tol : NUM} : l.thresholds = some t →
      l.tolerance = some tol → thresholdsExceeded (l.adjusted t tol) value = true →
      Updates l value
        { l with
          cachedValue := some value
          thresholds := some ((l.adjusted t tol).setThresholds value (some tol)) } true
  /-- The value is within the thresholds. -/
  | hold {t : ThresholdCache NUM} {tol : NUM} : l.thresholds = some t →
      l.tolerance = some tol → thresholdsExceeded (l.adjusted t tol) value = false →
      Updates l value { l with thresholds := some (l.adjusted t tol) } false

theorem updates_updateInternal (l : Lookup NUM) (value : Option NUM) (valueChanged : Bool) :
  l.Updates value (l.updateInternal value valueChanged).1
    (l.updateInternal value valueChanged).2.1
  := by
  obtain ⟨activeCount, onChange, hasListeners, tolerance, thresholds, cachedValue⟩ := l
  cases thresholds with
  | none =>
    cases tolerance with
    | none =>
      simp only [updateInternal, Option.isSome_none, Bool.and_false]
      apply Updates.idle rfl (.inr rfl)
    | some tol =>
      cases value with
      | none => apply Updates.idle rfl (.inl rfl)
      | some v => apply Updates.establish rfl rfl rfl
  | some t =>
    cases tolerance with
    | none => apply Updates.drop rfl rfl
    | some tol =>
      have heq : (if t.toleranceChanged (some tol) then
          t.setThresholds cachedValue.join (some tol) else t)
        = adjusted ⟨activeCount, onChange, hasListeners, some tol, some t, cachedValue⟩ t tol := rfl
      simp only [updateInternal, Option.isSome_some, if_true, heq]
      split
      · apply Updates.propagate rfl rfl ‹_›
      · apply Updates.hold rfl rfl (Bool.not_eq_true _ ▸ ‹_›)

variable {l l' : Lookup NUM} {value : Option NUM} {updated : Bool}

theorem Updates.activeCount (h : l.Updates value l' updated) :
  l'.activeCount = l.activeCount
  := by
  cases h <;> rfl

theorem Updates.onChange (h : l.Updates value l' updated) :
  l'.onChange = l.onChange
  := by
  cases h <;> rfl

theorem Updates.tolerance (h : l.Updates value l' updated) :
  l'.tolerance = l.tolerance
  := by
  cases h <;> rfl

theorem Updates.isActive (h : l.Updates value l' updated) :
  l'.isActive = l.isActive
  := by
  rw [Lookup.isActive, h.activeCount, Lookup.isActive]

/-- The thresholds are those of the cached value and of a tolerance, unless the cached value
is unknown. -/
structure Kept (l : Lookup NUM) : Prop where
  null : l.thresholds = none → l.cachedValue = none
  cached {t : ThresholdCache NUM} : l.thresholds = some t → ∃ value, l.cachedValue = some value
  known {t : ThresholdCache NUM} {shown : NUM} : l.thresholds = some t →
    l.cachedValue = some (some shown) →
    ∃ tol, t = ThresholdCache.new.setThresholds (some shown) (some tol)
  unknown {t : ThresholdCache NUM} : l.thresholds = some t → l.cachedValue = some none →
    t.wasKnown = false

theorem Kept.of_eq (h : l.Kept) (hthresholds : l'.thresholds = l.thresholds)
    (hcached : l'.cachedValue = l.cachedValue) :
  l'.Kept
  := by
  constructor
  · rw [hthresholds, hcached]
    exact h.null
  · rw [hthresholds, hcached]
    exact h.cached
  · rw [hthresholds, hcached]
    exact h.known
  · rw [hthresholds, hcached]
    exact h.unknown

theorem adjusted_known {t : ThresholdCache NUM} {shown : NUM} (h : l.Kept)
    (ht : l.thresholds = some t) (hcached : l.cachedValue = some (some shown)) (tol : NUM) :
  ∃ tol', l.adjusted t tol = ThresholdCache.new.setThresholds (some shown) (some tol')
  := by
  rw [adjusted, hcached]
  split
  · use tol
    rfl
  · apply h.known ht hcached

theorem adjusted_unknown {t : ThresholdCache NUM} (h : l.Kept)
    (ht : l.thresholds = some t) (hcached : l.cachedValue = some none) (tol : NUM) :
  (l.adjusted t tol).wasKnown = false
  := by
  rw [adjusted, hcached]
  split
  · rfl
  · apply h.unknown ht hcached

theorem Updates.kept (hupdates : l.Updates value l' updated) (h : l.Kept) :
  l'.Kept
  := by
  cases hupdates with
  | idle => exact h
  | @establish v tol _ _ _ =>
    constructor
    · intro hnull
      contradiction
    · intro _ _
      use some v
    · rintro _ _ ⟨⟩ ⟨⟩
      use tol
    · rintro _ _ ⟨⟩
  | drop =>
    constructor
    · intro _
      rfl
    · intro _ hnull
      contradiction
    · intro _ _ hnull
      contradiction
    · intro _ hnull
      contradiction
  | @propagate t tol ht htol _ =>
    constructor
    · intro hnull
      contradiction
    · intro _ _
      use value
    · rintro _ _ ⟨⟩ ⟨⟩
      use tol
      rfl
    · rintro _ ⟨⟩ ⟨⟩
      rfl
  | @hold t tol ht _ _ =>
    constructor
    · intro hnull
      contradiction
    · intro _ _
      apply h.cached ht
    · rintro _ _ ⟨⟩ hcached
      apply adjusted_known h ht hcached
    · rintro _ ⟨⟩ hcached
      apply adjusted_unknown h ht hcached

/-- What `valueChanged` does to a lookup. -/
def notified (l : Lookup NUM) (value : Option NUM) : Lookup NUM :=
  if l.onChange && l.isActive then (l.updateInternal value true).1 else l

end Lookup

/-! ### The entry -/

namespace StateCacheEntry

variable {s s' : StateCacheEntry NUM} {i : Nat}

@[simp]
theorem updateThresholds_lookup (s : StateCacheEntry NUM) :
  s.updateThresholds.lookup = s.lookup
  := by
  rw [updateThresholds]
  split
  · rfl
  · split <;> rfl

@[simp]
theorem updateThresholds_value (s : StateCacheEntry NUM) :
  s.updateThresholds.value = s.value
  := by
  rw [updateThresholds]
  split
  · rfl
  · split <;> rfl

@[simp]
theorem updateThresholds_lookups (s : StateCacheEntry NUM) :
  s.updateThresholds.lookups = s.lookups
  := by
  rw [updateThresholds]
  split
  · rfl
  · split <;> rfl

@[simp]
theorem updateInternal_lookup (s : StateCacheEntry NUM) (i : Nat) (valueChanged : Bool) :
  (s.updateInternal i valueChanged).1.lookup =
    Function.update s.lookup i ((s.lookup i).updateInternal s.value valueChanged).1
  := by
  simp only [updateInternal]
  split
  · simp [setLookup]
  · rfl

@[simp]
theorem updateInternal_value (s : StateCacheEntry NUM) (i : Nat) (valueChanged : Bool) :
  (s.updateInternal i valueChanged).1.value = s.value
  := by
  simp only [updateInternal]
  split
  · simp [setLookup]
  · rfl

@[simp]
theorem updateInternal_lookups (s : StateCacheEntry NUM) (i : Nat) (valueChanged : Bool) :
  (s.updateInternal i valueChanged).1.lookups = s.lookups
  := by
  simp only [updateInternal]
  split
  · simp [setLookup]
  · rfl

omit [ThresholdNumber NUM] in
theorem publishChange_eq (s : StateCacheEntry NUM) (i : Nat) :
  ∃ published, s.publishChange i = { s with published := published }
  := by
  rw [publishChange]
  split
  · exact ⟨_, rfl⟩
  · exact ⟨_, rfl⟩

/-- Apart from what is published, `valueChanged` is `updateInternal`. -/
theorem valueChanged_eq (s : StateCacheEntry NUM) (i : Nat) :
  ∃ published, s.valueChanged i =
    { (if (s.lookup i).onChange && (s.lookup i).isActive then (s.updateInternal i true).1 else s)
      with published := published }
  := by
  rw [valueChanged]
  dsimp only
  split
  · rename_i honChange
    rw [honChange, Bool.true_and]
    split
    · split
      · apply publishChange_eq
      · exact ⟨_, rfl⟩
    · exact ⟨_, rfl⟩
  · rename_i honChange
    rw [Bool.not_eq_true] at honChange
    rw [honChange, Bool.false_and]
    apply publishChange_eq

theorem handleChange_eq (s : StateCacheEntry NUM) (i : Nat) :
  ∃ published, s.handleChange i = { (s.updateInternal i false).1 with published := published }
  := by
  rw [handleChange]
  dsimp only
  split
  · apply publishChange_eq
  · exact ⟨_, rfl⟩

theorem valueChanged_lookup (s : StateCacheEntry NUM) (i : Nat) :
  (s.valueChanged i).lookup = Function.update s.lookup i ((s.lookup i).notified s.value)
  := by
  obtain ⟨published, h⟩ := s.valueChanged_eq i
  rw [h, Lookup.notified]
  dsimp only
  split
  · simp
  · simp

theorem valueChanged_value (s : StateCacheEntry NUM) (i : Nat) :
  (s.valueChanged i).value = s.value
  := by
  obtain ⟨published, h⟩ := s.valueChanged_eq i
  rw [h]
  dsimp only
  split
  · simp
  · rfl

theorem valueChanged_lookups (s : StateCacheEntry NUM) (i : Nat) :
  (s.valueChanged i).lookups = s.lookups
  := by
  obtain ⟨published, h⟩ := s.valueChanged_eq i
  rw [h]
  dsimp only
  split
  · simp
  · rfl

theorem foldl_valueChanged_value (lookups : List Nat) (s : StateCacheEntry NUM) :
  (lookups.foldl valueChanged s).value = s.value
  := by
  induction lookups generalizing s with
  | nil => rfl
  | cons i lookups ih => rw [List.foldl_cons, ih, valueChanged_value]

theorem foldl_valueChanged_lookups (lookups : List Nat) (s : StateCacheEntry NUM) :
  (lookups.foldl valueChanged s).lookups = s.lookups
  := by
  induction lookups generalizing s with
  | nil => rfl
  | cons i lookups ih => rw [List.foldl_cons, ih, valueChanged_lookups]

/-- A loop over different lookups notifies each of them once. -/
theorem foldl_valueChanged_lookup {lookups : List Nat} (hnodup : lookups.Nodup)
    (s : StateCacheEntry NUM) (j : Nat) :
  (lookups.foldl valueChanged s).lookup j =
    if j ∈ lookups then (s.lookup j).notified s.value else s.lookup j
  := by
  induction lookups generalizing s with
  | nil => rfl
  | cons i lookups ih =>
    obtain ⟨hnotMem, hnodup⟩ := List.nodup_cons.mp hnodup
    rw [List.foldl_cons, ih hnodup, valueChanged_lookup, valueChanged_value]
    obtain rfl | hne := eq_or_ne j i
    · simp [hnotMem]
    · simp [hne]

theorem update_lookups (s : StateCacheEntry NUM) (value : Option NUM) :
  (s.update value).lookups = s.lookups
  := by
  rw [update]
  split
  · apply foldl_valueChanged_lookups
  · rfl

theorem foldl_update_lookups (responses : List (Option NUM)) (s : StateCacheEntry NUM) :
  (responses.foldl update s).lookups = s.lookups
  := by
  induction responses generalizing s with
  | nil => rfl
  | cons value responses ih => rw [List.foldl_cons, ih, update_lookups]

theorem update_lookup {s : StateCacheEntry NUM} (hnodup : s.lookups.Nodup) (value : Option NUM)
    (j : Nat) :
  (s.update value).lookup j =
    if differs s.value value ∧ j ∈ s.lookups then (s.lookup j).notified value else s.lookup j
  := by
  rw [update]
  split
  · rename_i hdiffers
    rw [notify, foldl_valueChanged_lookup hnodup]
    simp [hdiffers]
  · rename_i hdiffers
    simp [hdiffers]

/-! ### Conditions on the updates -/

/-- `P` holds of every lookup which is notified of the value, where the value is the new one. -/
def UpdateMeets (P : Lookup NUM → Option NUM → Prop) (s : StateCacheEntry NUM)
    (value : Option NUM) : Prop :=
  differs s.value value = true → ∀ i ∈ s.lookups, (s.lookup i).onChange = true →
    P (s.lookup i) value

/-- `P` holds of every lookup which is notified of one of the values. -/
def ResponsesMeet (P : Lookup NUM → Option NUM → Prop) :
    StateCacheEntry NUM → List (Option NUM) → Prop
  | _, [] => True
  | s, value :: responses => UpdateMeets P s value ∧ ResponsesMeet P (s.update value) responses

/-- The entry when the lookup `i` has become active and is registered. -/
def registered (s : StateCacheEntry NUM) (i : Nat) : StateCacheEntry NUM :=
  { s.setLookup i { s.lookup i with activeCount := 1 } with lookups := s.lookups ++ [i] }

omit [ThresholdNumber NUM] in
@[simp]
theorem registered_lookups (s : StateCacheEntry NUM) (i : Nat) :
  (s.registered i).lookups = s.lookups ++ [i]
  := rfl

omit [ThresholdNumber NUM] in
@[simp]
theorem setTolerance_lookup (s : StateCacheEntry NUM) (i : Nat) (tolerance : Option NUM) :
  (s.setTolerance i tolerance).lookup =
    Function.update s.lookup i { s.lookup i with tolerance := tolerance }
  := rfl

/-- `P` holds of the lookup `i` where `updateInternal` is called when its tolerance has been
activated. -/
def ToleranceMeets (P : Lookup NUM → Option NUM → Prop) (s : StateCacheEntry NUM) (i : Nat)
    (changed : Bool) : Prop :=
  P (s.lookup i) s.value ∧
    ((changed && (s.lookup i).hasListeners) = true →
      P ((s.lookup i).updateInternal s.value false).1 s.value)

/-- `P` holds of every lookup and value for which the event calls `updateInternal`. -/
def EventMeets (P : Lookup NUM → Option NUM → Prop) (s : StateCacheEntry NUM) :
    Event NUM → Prop
  | .activate i responses tolerance changed =>
    (s.lookup i).activeCount = 0 →
      ResponsesMeet P (s.registered i) responses ∧
      let s := responses.foldl update (s.registered i)
      ((s.lookup i).onChange = true → ToleranceMeets P (s.setTolerance i tolerance) i changed)
  | .update value => UpdateMeets P s value
  | .changeTolerance i tolerance =>
    let s := s.setTolerance i tolerance
    let l := s.lookup i
    (l.onChange && l.isActive && l.hasListeners) = true → P l s.value
  | _ => True

section Decidability

variable {P : Lookup NUM → Option NUM → Prop} [∀ l value, Decidable (P l value)]

instance (s : StateCacheEntry NUM) (value : Option NUM) : Decidable (UpdateMeets P s value) :=
  inferInstanceAs (Decidable (_ → ∀ i ∈ s.lookups, _ → _))

instance decidableResponsesMeet : (s : StateCacheEntry NUM) → (responses : List (Option NUM)) →
    Decidable (ResponsesMeet P s responses)
  | _, [] => inferInstanceAs (Decidable True)
  | s, value :: responses =>
    have := decidableResponsesMeet (s.update value) responses
    inferInstanceAs (Decidable (_ ∧ _))

instance (s : StateCacheEntry NUM) (i : Nat) (changed : Bool) :
    Decidable (ToleranceMeets P s i changed) :=
  inferInstanceAs (Decidable (_ ∧ (_ → _)))

instance (s : StateCacheEntry NUM) : (e : Event NUM) → Decidable (EventMeets P s e)
  | .activate .. => inferInstanceAs (Decidable (_ → _ ∧ (_ → _)))
  | .update _ => inferInstanceAs (Decidable (UpdateMeets P s _))
  | .changeTolerance .. => inferInstanceAs (Decidable (_ → _))
  | .deactivate _ => inferInstanceAs (Decidable True)
  | .setListening .. => inferInstanceAs (Decidable True)

end Decidability

/-! ### Registered lookups -/

/-- The active lookups are registered, once each, and only active change lookups have
thresholds. -/
structure Registered (s : StateCacheEntry NUM) : Prop where
  nodup : s.lookups.Nodup
  mem_iff (i : Nat) : i ∈ s.lookups ↔ (s.lookup i).isActive = true
  idle (i : Nat) : ((s.lookup i).onChange && (s.lookup i).isActive) = false →
    (s.lookup i).thresholds = none
  kept (i : Nat) : (s.lookup i).Kept

namespace Registered

theorem of_eq (h : Registered s) (hlookup : s'.lookup = s.lookup) (hlookups : s'.lookups = s.lookups) :
  Registered s'
  := by
  constructor
  · rw [hlookups]
    exact h.nodup
  · rw [hlookups, hlookup]
    exact h.mem_iff
  · rw [hlookup]
    exact h.idle
  · rw [hlookup]
    exact h.kept

/-- A lookup is replaced by one which is active when it was. -/
theorem setLookup (h : Registered s) {l : Lookup NUM} (hactive : l.isActive = (s.lookup i).isActive)
    (hidle : (l.onChange && l.isActive) = false → l.thresholds = none) (hkept : l.Kept) :
  Registered (s.setLookup i l)
  := by
  constructor
  · exact h.nodup
  · intro j
    obtain rfl | hne := eq_or_ne j i
    · simp [StateCacheEntry.setLookup, h.mem_iff, hactive]
    · simp [StateCacheEntry.setLookup, h.mem_iff, hne]
  · intro j
    obtain rfl | hne := eq_or_ne j i
    · simpa [StateCacheEntry.setLookup] using hidle
    · simpa [StateCacheEntry.setLookup, hne] using h.idle j
  · intro j
    obtain rfl | hne := eq_or_ne j i
    · simpa [StateCacheEntry.setLookup] using hkept
    · simpa [StateCacheEntry.setLookup, hne] using h.kept j

/-- An active change lookup is replaced by what `updateInternal` makes of it. -/
theorem setUpdated (h : Registered s) (honChange : (s.lookup i).onChange = true)
    (hactive : (s.lookup i).isActive = true) {value : Option NUM} {l : Lookup NUM} {updated : Bool}
    (hupdates : (s.lookup i).Updates value l updated) :
  Registered (s.setLookup i l)
  := by
  apply h.setLookup hupdates.isActive
  · rw [hupdates.onChange, hupdates.isActive, honChange, hactive]
    intro hfalse
    contradiction
  · apply hupdates.kept (h.kept i)

theorem updateInternal (h : Registered s) (honChange : (s.lookup i).onChange = true)
    (hactive : (s.lookup i).isActive = true) (valueChanged : Bool) :
  Registered (s.updateInternal i valueChanged).1
  := by
  have hupdates := (s.lookup i).updates_updateInternal s.value valueChanged
  apply (h.setUpdated honChange hactive hupdates).of_eq
  · rw [updateInternal_lookup]
    rfl
  · rw [updateInternal_lookups]
    rfl

end Registered

/-! ### Invariants -/

/-- The entry when the last activation of the lookup `i` has been taken back. -/
def deactivated (s : StateCacheEntry NUM) (i : Nat) : StateCacheEntry NUM :=
  (s.setLookup i { s.lookup i with activeCount := 0 }).handleDeactivate i

/-- The first activation of a lookup. -/
theorem activate_eq (hinactive : (s.lookup i).activeCount = 0) (responses : List (Option NUM))
    (tolerance : Option NUM) (changed : Bool) :
  s.activate i responses tolerance changed =
    let s := responses.foldl update (s.registered i)
    if (s.lookup i).onChange then (s.setTolerance i tolerance).toleranceActivated i changed else s
  := by
  rw [activate, if_pos hinactive, hinactive]
  rfl

/-- A deactivation takes back one activation, and the last one unregisters the lookup. -/
theorem deactivate_eq_some (h : s.deactivate i = some s') :
  (s.lookup i).activeCount ≠ 0 ∧
    s' = if (s.lookup i).activeCount = 1 then s.deactivated i
      else s.setLookup i { s.lookup i with activeCount := (s.lookup i).activeCount - 1 }
  := by
  rw [deactivate] at h
  split at h
  · contradiction
  · rename_i hactive
    use hactive
    obtain rfl := Option.some.inj h
    split
    · rename_i hlast
      rw [hlast]
      rfl
    · rfl

/-- The basic operations preserve `I`, when `P` holds of the lookups and values for which
`updateInternal` is called, and `Q` where a lookup is deactivated. -/
structure Invariance (I : StateCacheEntry NUM → Prop) (P : Lookup NUM → Option NUM → Prop)
    (Q : StateCacheEntry NUM → Nat → Prop) : Prop where
  registered {s : StateCacheEntry NUM} : I s → Registered s
  unobserved {s : StateCacheEntry NUM} (value : Option NUM) (published : List Nat) : I s →
    I { s with value := value, published := published }
  updateInternal {s : StateCacheEntry NUM} {i : Nat} (valueChanged : Bool) : I s →
    (s.lookup i).onChange = true → (s.lookup i).isActive = true → P (s.lookup i) s.value →
    I (s.updateInternal i valueChanged).1
  setLookup {s : StateCacheEntry NUM} {i : Nat} {l : Lookup NUM} : I s →
    l.isActive = (s.lookup i).isActive → l.onChange = (s.lookup i).onChange →
    l.thresholds = (s.lookup i).thresholds → l.cachedValue = (s.lookup i).cachedValue →
    I (s.setLookup i l)
  activate {s : StateCacheEntry NUM} {i : Nat} : I s → (s.lookup i).activeCount = 0 →
    I (s.registered i)
  deactivate {s : StateCacheEntry NUM} {i : Nat} : I s → (s.lookup i).activeCount = 1 → Q s i →
    I (s.deactivated i)

namespace Invariance

variable {I : StateCacheEntry NUM → Prop} {P : Lookup NUM → Option NUM → Prop}
variable {Q : StateCacheEntry NUM → Nat → Prop}

theorem handleChange (h : Invariance I P Q) (hs : I s) (honChange : (s.lookup i).onChange = true)
    (hactive : (s.lookup i).isActive = true) (hP : P (s.lookup i) s.value) :
  I (s.handleChange i)
  := by
  obtain ⟨published, heq⟩ := s.handleChange_eq i
  rw [heq]
  apply h.unobserved _ published (h.updateInternal false hs honChange hactive hP)

theorem valueChanged (h : Invariance I P Q) (hs : I s)
    (hP : (s.lookup i).onChange = true → P (s.lookup i) s.value) :
  I (s.valueChanged i)
  := by
  obtain ⟨published, heq⟩ := s.valueChanged_eq i
  rw [heq]
  apply h.unobserved _ published
  split
  · rename_i hchange
    obtain ⟨honChange, hactive⟩ := Bool.and_eq_true_iff.mp hchange
    apply h.updateInternal true hs honChange hactive (hP honChange)
  · exact hs

/-- The loop reaches each lookup as it was before the loop. -/
theorem foldl_valueChanged (h : Invariance I P Q) {lookups : List Nat} (hnodup : lookups.Nodup)
    (hs : I s) (hP : ∀ i ∈ lookups, (s.lookup i).onChange = true → P (s.lookup i) s.value) :
  I (lookups.foldl StateCacheEntry.valueChanged s)
  := by
  induction lookups generalizing s with
  | nil => exact hs
  | cons i lookups ih =>
    obtain ⟨hnotMem, hnodup⟩ := List.nodup_cons.mp hnodup
    apply ih hnodup
    · apply h.valueChanged hs (hP i List.mem_cons_self)
    · intro j hj
      have hne : j ≠ i := by
        rintro rfl
        exact hnotMem hj
      rw [valueChanged_lookup, Function.update_of_ne hne, valueChanged_value]
      apply hP j (List.mem_cons_of_mem i hj)

theorem update (h : Invariance I P Q) (hs : I s) {value : Option NUM}
    (hP : UpdateMeets P s value) :
  I (s.update value)
  := by
  rw [StateCacheEntry.update]
  split
  · rename_i hdiffers
    have hvalue : I { s with value := value } := h.unobserved value s.published hs
    apply h.foldl_valueChanged (h.registered hvalue).nodup hvalue
    apply hP hdiffers
  · exact hs

theorem responses (h : Invariance I P Q) (hs : I s) {responses : List (Option NUM)}
    (hP : ResponsesMeet P s responses) :
  I (responses.foldl StateCacheEntry.update s)
  := by
  induction responses generalizing s with
  | nil => exact hs
  | cons value responses ih => apply ih (h.update hs hP.1) hP.2

theorem setTolerance (h : Invariance I P Q) (hs : I s) (i : Nat) (tolerance : Option NUM) :
  I (s.setTolerance i tolerance)
  := h.setLookup hs rfl rfl rfl rfl

theorem publishChange (h : Invariance I P Q) (hs : I s) (i : Nat) :
  I (s.publishChange i)
  := by
  obtain ⟨published, heq⟩ := s.publishChange_eq i
  rw [heq]
  apply h.unobserved _ published hs

theorem toleranceActivated (h : Invariance I P Q) (hs : I s)
    (honChange : (s.lookup i).onChange = true) (hactive : (s.lookup i).isActive = true)
    {changed : Bool} (hP : ToleranceMeets P s i changed) :
  I (s.toleranceActivated i changed)
  := by
  obtain ⟨hfirst, hsecond⟩ := hP
  have hlast : I ((if changed && (s.lookup i).hasListeners then s.handleChange i else s).updateInternal
      i true).1 := by
    split
    · rename_i hlistening
      have hchange := h.handleChange hs honChange hactive hfirst
      obtain ⟨published, heq⟩ := s.handleChange_eq i
      have hupdates := (s.lookup i).updates_updateInternal s.value false
      have hlookup : (s.handleChange i).lookup i = ((s.lookup i).updateInternal s.value false).1 := by
        simp [heq]
      have hvalue : (s.handleChange i).value = s.value := by
        simp [heq]
      apply h.updateInternal true hchange
      · rwa [hlookup, hupdates.onChange]
      · rwa [hlookup, hupdates.isActive]
      · rw [hlookup, hvalue]
        apply hsecond hlistening
    · apply h.updateInternal true hs honChange hactive hfirst
  rw [StateCacheEntry.toleranceActivated]
  apply iteInduction
  · intro _
    apply h.publishChange hlast
  · intro _
    exact hlast

theorem step (h : Invariance I P Q) (hs : I s) {e : Event NUM} (hP : EventMeets P s e)
    (hQ : ∀ i, e = .deactivate i → (s.lookup i).activeCount = 1 → Q s i)
    (hstep : s.step e = some s') :
  I s'
  := by
  cases e with
  | activate i responses tolerance changed =>
    obtain rfl := Option.some.inj hstep
    obtain hinactive | hactive := eq_or_ne (s.lookup i).activeCount 0
    · obtain ⟨hresponses, hown⟩ := hP hinactive
      rw [activate_eq hinactive]
      have hanswered := h.responses (h.activate hs hinactive) hresponses
      have hlookups := foldl_update_lookups responses (s.registered i)
      dsimp only
      split
      · rename_i honChange
        apply h.toleranceActivated (h.setTolerance hanswered i tolerance)
        · simpa using honChange
        · have hactive := ((h.registered hanswered).mem_iff i).mp (by simp [hlookups])
          simpa [Lookup.isActive] using hactive
        · apply hown honChange
      · exact hanswered
    · rw [StateCacheEntry.activate, if_neg hactive]
      apply h.setLookup hs
      · simp [Lookup.isActive, Nat.pos_iff_ne_zero, hactive]
      · rfl
      · rfl
      · rfl
  | deactivate i =>
    obtain ⟨hactive, hstep⟩ := deactivate_eq_some hstep
    split at hstep
    · rename_i hlast
      rw [hstep]
      apply h.deactivate hs hlast (hQ i rfl hlast)
    · rename_i hmore
      rw [hstep]
      apply h.setLookup hs
      · rw [Lookup.isActive, Lookup.isActive, decide_eq_decide]
        dsimp only
        omega
      · rfl
      · rfl
      · rfl
  | update value =>
    obtain rfl := Option.some.inj hstep
    apply h.update hs hP
  | changeTolerance i tolerance =>
    obtain rfl := Option.some.inj hstep
    have htolerance := h.setTolerance hs i tolerance
    rw [changeTolerance]
    split
    · rename_i hnotified
      obtain ⟨hchange, hlistening⟩ := Bool.and_eq_true_iff.mp hnotified
      obtain ⟨honChange, hactive⟩ := Bool.and_eq_true_iff.mp hchange
      apply h.handleChange htolerance honChange hactive (hP hnotified)
    · exact htolerance
  | setListening i hasListeners =>
    obtain rfl := Option.some.inj hstep
    apply h.setLookup hs
    · rfl
    · rfl
    · rfl
    · rfl

end Invariance

omit [ThresholdNumber NUM] in
theorem removeLookup_eq {lookups : List Nat} (hnodup : lookups.Nodup) (i : Nat) :
  removeLookup lookups i = lookups.erase i
  := by
  rw [removeLookup]
  split
  · rename_i hlast
    obtain ⟨init, rfl⟩ := List.getLast?_eq_some_iff.mp hlast
    have hnotMem : i ∉ init := by
      intro hmem
      exact (List.nodup_append.mp hnodup).2.2 i hmem i (by simp) rfl
    rw [List.dropLast_concat, List.erase_append_right _ hnotMem]
    simp
  · rfl

/-- The entry when the lookup `i` is neither active nor registered, but keeps its thresholds. -/
def removed (s : StateCacheEntry NUM) (i : Nat) : StateCacheEntry NUM :=
  { s.setLookup i { s.lookup i with activeCount := 0 } with lookups := s.lookups.erase i }

/-- The entry when the lookup `i` is neither active nor registered. -/
def without (s : StateCacheEntry NUM) (i : Nat) : StateCacheEntry NUM :=
  { s.setLookup i { s.lookup i with activeCount := 0, thresholds := none, cachedValue := none }
    with lookups := s.lookups.erase i }

namespace Registered

theorem registered (h : Registered s) (hinactive : (s.lookup i).activeCount = 0) :
  Registered (s.registered i)
  := by
  have hnotMem : i ∉ s.lookups := by
    rw [h.mem_iff, Lookup.isActive, hinactive]
    decide
  constructor
  · apply List.nodup_append.mpr
    use h.nodup, by simp
    simpa using fun j hj => ne_of_mem_of_not_mem hj hnotMem
  · intro j
    obtain rfl | hne := eq_or_ne j i
    · simp [StateCacheEntry.registered, StateCacheEntry.setLookup, Lookup.isActive]
    · simp [StateCacheEntry.registered, StateCacheEntry.setLookup, hne, h.mem_iff]
  · intro j
    obtain rfl | hne := eq_or_ne j i
    · have := h.idle j (by simp [Lookup.isActive, hinactive])
      simp [StateCacheEntry.registered, StateCacheEntry.setLookup, this]
    · simpa [StateCacheEntry.registered, StateCacheEntry.setLookup, hne] using h.idle j
  · intro j
    obtain rfl | hne := eq_or_ne j i
    · apply (h.kept j).of_eq
      · simp [StateCacheEntry.registered, StateCacheEntry.setLookup]
      · simp [StateCacheEntry.registered, StateCacheEntry.setLookup]
    · simpa [StateCacheEntry.registered, StateCacheEntry.setLookup, hne] using h.kept j

theorem without (h : Registered s) (i : Nat) :
  Registered (s.without i)
  := by
  constructor
  · apply h.nodup.erase
  · intro j
    rw [StateCacheEntry.without, h.nodup.mem_erase_iff]
    obtain rfl | hne := eq_or_ne j i
    · simp [StateCacheEntry.setLookup, Lookup.isActive]
    · simp [StateCacheEntry.setLookup, hne, h.mem_iff]
  · intro j
    obtain rfl | hne := eq_or_ne j i
    · simp [StateCacheEntry.without, StateCacheEntry.setLookup]
    · simpa [StateCacheEntry.without, StateCacheEntry.setLookup, hne] using h.idle j
  · intro j
    obtain rfl | hne := eq_or_ne j i
    · constructor <;> simp [StateCacheEntry.without, StateCacheEntry.setLookup]
    · simpa [StateCacheEntry.without, StateCacheEntry.setLookup, hne] using h.kept j

/-- A lookup which is not registered is no matter to the thresholds of the entry. -/
theorem updateThresholds_setLookup (s : StateCacheEntry NUM) {l : Lookup NUM}
    (hnotMem : i ∉ s.lookups) :
  s.updateThresholds.setLookup i l = (s.setLookup i l).updateThresholds
  := by
  have hthresholds : s.lookups.filterMap s.getThresholds
      = s.lookups.filterMap (s.setLookup i l).getThresholds := by
    apply List.filterMap_congr
    intro j hj
    have hne : j ≠ i := ne_of_mem_of_not_mem hj hnotMem
    simp [getThresholds, StateCacheEntry.setLookup, hne]
  rw [updateThresholds, updateThresholds, hthresholds]
  have hlookups : (s.setLookup i l).lookups = s.lookups := rfl
  rw [hlookups]
  split
  · rfl
  · apply apply_ite (StateCacheEntry.setLookup · i l)

/-- The last deactivation of a lookup removes it; the thresholds of the entry are updated when
there are other lookups. -/
theorem deactivated_eq (h : Registered s) (i : Nat) :
  s.deactivated i =
    if (s.without i).lookups.isEmpty then { s.without i with thresholds := none }
    else if s.thresholds.isSome then (s.without i).updateThresholds
    else s.without i
  := by
  have hclear : Lookup.clearThresholds { s.lookup i with activeCount := 0 }
      = { s.lookup i with activeCount := 0, thresholds := none, cachedValue := none } := by
    rw [Lookup.clearThresholds]
    split
    · rfl
    · rename_i hnone
      rw [Option.not_isSome_iff_eq_none] at hnone
      simp only [show (s.lookup i).thresholds = none from hnone, (h.kept i).null hnone]
  have hwithout : (s.removed i).setLookup i ((s.removed i).lookup i).clearThresholds
      = s.without i := by
    simp [StateCacheEntry.without, removed, StateCacheEntry.setLookup, hclear]
  have hunregister : (s.setLookup i { s.lookup i with activeCount := 0 }).unregisterLookup i
      = if (s.removed i).lookups.isEmpty then { s.removed i with thresholds := none }
        else if s.thresholds.isSome then (s.removed i).updateThresholds
        else s.removed i := by
    simp only [unregisterLookup, removed, StateCacheEntry.setLookup, removeLookup_eq h.nodup]
    congr
  rw [StateCacheEntry.deactivated, handleDeactivate, hunregister]
  have hlookups : (s.without i).lookups = (s.removed i).lookups := rfl
  rw [hlookups]
  split
  · rw [← hwithout]
    rfl
  · split
    · have hnotMem : i ∉ (s.removed i).lookups := by
        simp [removed, h.nodup.mem_erase_iff]
      rw [updateThresholds_lookup, updateThresholds_setLookup _ hnotMem, hwithout]
    · exact hwithout

theorem deactivated (h : Registered s) (i : Nat) :
  Registered (s.deactivated i)
  := by
  rw [h.deactivated_eq]
  split
  · apply (h.without i).of_eq
    · rfl
    · rfl
  · split
    · apply (h.without i).of_eq (updateThresholds_lookup _) (updateThresholds_lookups _)
    · apply h.without

theorem invariance :
  Invariance (@Registered NUM _) (fun _ _ => True) (fun _ _ => True)
  where
  registered h := h
  unobserved _ _ h := h.of_eq rfl rfl
  updateInternal valueChanged h honChange hactive _ := h.updateInternal honChange hactive valueChanged
  setLookup h hactive honChange hthresholds hcached := by
    apply h.setLookup hactive
    · rw [hactive, honChange, hthresholds]
      apply h.idle
    · apply (h.kept _).of_eq hthresholds hcached
  activate h hinactive := h.registered hinactive
  deactivate h _ _ := h.deactivated _

theorem of_init (h : Init s) :
  Registered s
  := by
  obtain ⟨hlookups, -, -, hlookup⟩ := h
  constructor
  · simp [hlookups]
  · simp [hlookups, Lookup.isActive, hlookup]
  · intro i _
    exact (hlookup i).2.1
  · intro i
    constructor <;> simp [hlookup]

theorem updateMeets_true (s : StateCacheEntry NUM) (value : Option NUM) :
  UpdateMeets (fun _ _ => True) s value
  := fun _ _ _ _ => trivial

theorem responsesMeet_true (s : StateCacheEntry NUM) (responses : List (Option NUM)) :
  ResponsesMeet (fun _ _ => True) s responses
  := by
  induction responses generalizing s with
  | nil => trivial
  | cons value responses ih => exact ⟨updateMeets_true s value, ih _⟩

theorem eventMeets_true (s : StateCacheEntry NUM) (e : Event NUM) :
  EventMeets (fun _ _ => True) s e
  := by
  cases e with
  | activate => exact fun _ => ⟨responsesMeet_true _ _, fun _ => ⟨trivial, fun _ => trivial⟩⟩
  | update => apply updateMeets_true
  | changeTolerance => exact fun _ => trivial
  | deactivate => trivial
  | setListening => trivial

theorem step (h : Registered s) {e : Event NUM} (hstep : s.step e = some s') :
  Registered s'
  := invariance.step h (eventMeets_true s e) (fun _ _ _ => trivial) hstep

theorem of_reachable {Allowed : StateCacheEntry NUM → Event NUM → Prop}
    (h : StateMachine.Reachable StateCacheEntry.step Init Allowed s) :
  Registered s
  := h.invariant (fun _ hinit => of_init hinit) fun _ _ _ hs _ hstep => hs.step hstep

end Registered
end StateCacheEntry
end Plexil.Intfc

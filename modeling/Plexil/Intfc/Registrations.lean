import Plexil.Intfc.DanglingEntries

/-!
# Registrations

How often a lookup stands in the list of lookups of an entry.  An operation on a lookup does not
touch the registrations of the others, and leaves its own where its pointer says.
-/

namespace Plexil.Intfc.StateCache

variable {S : Type} {c c' c'' : StateCache S} {i j : Nat} {p : EntryPointer S}
variable {e : StateCacheEntryImpl} {state : S} {given : Option S}

/-- How often the lookup `i` is registered on the entry of a state. -/
def registrations (c : StateCache S) (i : Nat) (state : S) : Nat :=
  match c.map state with
  | some e => e.lookups.count i
  | none => 0

/-- The lookup `i` is registered once on the entry which it points to when its flag is set, and
nowhere else. -/
def Listed (c : StateCache S) (i : Nat) : Prop :=
  ∀ state, c.registrations i state = 1 ∧ (c.lookup i).isRegistered = true ∧
      (c.lookup i).entry.map (·.state) = some state ∨
    c.registrations i state = 0 ∧ ¬((c.lookup i).isRegistered = true ∧
      (c.lookup i).entry.map (·.state) = some state)

/-- An operation on the lookup `i` does not touch the registrations of the others. -/
def Relists (i : Nat) (c c' : StateCache S) : Prop :=
  ∀ j, j ≠ i → ∀ state, c'.registrations j state = c.registrations j state

theorem Relists.trans (h : Relists i c c') (h' : Relists i c' c'') :
  Relists i c c''
  := by
  intro j hj state
  rw [h' j hj state, h j hj state]

theorem Relists.listed (h : Relists i c c') (hkeeps : Keeps i c c') (hj : j ≠ i)
    (hc : c.Listed j) :
  c'.Listed j
  := by
  intro state
  rw [h j hj state, hkeeps.lookup j hj]
  exact hc state

theorem registrations_of_some (h : c.map state = some e) (i : Nat) :
  c.registrations i state = e.lookups.count i
  := by
  rw [registrations, h]

theorem registrations_of_none (h : c.map state = none) (i : Nat) :
  c.registrations i state = 0
  := by
  rw [registrations, h]

theorem registrations_congr (h : c'.map state = c.map state) (i : Nat) :
  c'.registrations i state = c.registrations i state
  := by
  rw [registrations, registrations, h]

theorem registrations_eq_zero (h : c.hasRegisteredLookups state = false) (i : Nat) :
  c.registrations i state = 0
  := by
  cases hstate : c.map state with
  | none => exact registrations_of_none hstate i
  | some e =>
    rw [hasRegisteredLookups, hstate] at h
    have hempty : e.lookups = [] := by simpa using h
    rw [registrations_of_some hstate, hempty]
    rfl

/-- A lookup whose flag is not set is registered nowhere. -/
theorem Listed.of_not_isRegistered (hregistered : (c.lookup i).isRegistered = false)
    (h : ∀ state, c.registrations i state = 0) :
  c.Listed i
  := by
  intro state
  right
  rw [hregistered]
  exact ⟨h state, fun hi => Bool.false_ne_true hi.1⟩

theorem Listed.eq_zero (hc : c.Listed i) (hregistered : (c.lookup i).isRegistered = false)
    (state : S) :
  c.registrations i state = 0
  := by
  obtain ⟨-, htrue, -⟩ | ⟨hzero, -⟩ := hc state
  · rw [hregistered] at htrue
    cases htrue
  · exact hzero

/-- Setting other fields of the lookup. -/
theorem Listed.setLookup {l : LookupImpl S} (hc : c.Listed i)
    (hregistered : l.isRegistered = (c.lookup i).isRegistered)
    (hentry : l.isRegistered = true → l.entry.map (·.state) = (c.lookup i).entry.map (·.state)) :
  (c.setLookup i l).Listed i
  := by
  intro state
  rw [lookup_setLookup]
  obtain ⟨hone, htrue, hstate⟩ | ⟨hzero, hnot⟩ := hc state
  · left
    rw [hentry (hregistered.trans htrue)]
    exact ⟨hone, hregistered.trans htrue, hstate⟩
  · right
    refine ⟨hzero, fun hi => hnot ?_⟩
    rw [← hentry hi.1, ← hregistered]
    exact hi

variable [DecidableEq S]

theorem registrations_setEntry (c : StateCache S) (i : Nat) (s state : S)
    (e : StateCacheEntryImpl) :
  (c.setEntry s e).registrations i state =
    if state = s then e.lookups.count i else c.registrations i state
  := by
  split
  · rename_i heq
    apply registrations_of_some
    rw [map_setEntry, if_pos heq]
  · rename_i hne
    apply registrations_congr
    rw [map_setEntry, if_neg hne]

theorem registrations_ensureStateCacheEntry (c : StateCache S) (i : Nat) (s state : S) :
  (c.ensureStateCacheEntry s).registrations i state = c.registrations i state
  := by
  cases hs : c.map s with
  | some e => rw [map_ensureStateCacheEntry_of_some hs]
  | none =>
    have hmap := map_ensureStateCacheEntry_of_none hs state
    split at hmap
    · rename_i heq
      rw [registrations_of_some hmap, heq, registrations_of_none hs]
      rfl
    · exact registrations_congr hmap i

/-- Writing to an entry without touching its lookups. -/
theorem registrations_setEntry_of_lookups {e' : StateCacheEntryImpl} {s : S}
    (he : c.map s = some e) (hlookups : e'.lookups = e.lookups) (i : Nat) (state : S) :
  (c.setEntry s e').registrations i state = c.registrations i state
  := by
  rw [registrations_setEntry]
  split
  · rename_i heq
    rw [heq, registrations_of_some he, hlookups]
  · rfl

/-! ### Registering -/

theorem ensureRegistered_lists (h : c.ensureRegistered i = some c') (hc : c.Listed i) :
  Relists i c c' ∧ c'.Listed i
  := by
  unfold ensureRegistered at h
  dsimp only at h
  split at h
  · cases h
    exact ⟨fun _ _ _ => rfl, hc⟩
  · rename_i hregistered
    obtain ⟨p, hp, h⟩ := Option.bind_eq_some_iff.mp h
    obtain ⟨e, he, h⟩ := Option.bind_eq_some_iff.mp h
    cases h
    obtain ⟨hmap, -⟩ := deref_eq_some.mp he
    have hzero := hc.eq_zero (Bool.eq_false_iff.mpr hregistered)
    constructor
    · intro j hj state
      change (c.setEntry p.state _).registrations j state = _
      rw [registrations_setEntry]
      split
      · rename_i heq
        rw [heq, registrations_of_some hmap]
        simp [Ne.symm hj]
      · rfl
    · intro state
      rw [lookup_setLookup]
      change (c.setEntry p.state _).registrations i state = 1 ∧ _ ∨
        (c.setEntry p.state _).registrations i state = 0 ∧ _
      rw [registrations_setEntry, hp]
      split
      · rename_i heq
        left
        have hcount : e.lookups.count i = 0 := by
          rw [← registrations_of_some hmap, hzero]
        rw [heq]
        exact ⟨by simp [hcount], rfl, rfl⟩
      · rename_i hne
        right
        refine ⟨hzero state, fun hi => hne ?_⟩
        exact (Option.some.inj hi.2).symm

theorem count_removeLookup (lookups : List Nat) (i j : Nat) :
  (StateCacheEntry.removeLookup lookups i).count j =
    if j = i then lookups.count j - 1 else lookups.count j
  := by
  unfold StateCacheEntry.removeLookup
  split
  · rename_i hlast
    obtain ⟨init, rfl⟩ := List.getLast?_eq_some_iff.mp hlast
    rw [List.dropLast_concat, List.count_append]
    split
    · rename_i heq
      rw [heq]
      simp
    · rename_i hne
      simp [Ne.symm hne]
  · obtain rfl | hne := eq_or_ne j i
    · rw [if_pos rfl, List.count_erase_self]
    · rw [if_neg hne, List.count_erase_of_ne hne]

theorem unregister_lists (h : c.unregister i = some c') (hc : c.Listed i) :
  Relists i c c' ∧ ∀ state, c'.registrations i state = 0
  := by
  unfold unregister at h
  dsimp only at h
  split at h
  · rename_i hregistered
    cases h
    exact ⟨fun _ _ _ => rfl, hc.eq_zero (by simpa using hregistered)⟩
  · obtain ⟨p, hp, h⟩ := Option.bind_eq_some_iff.mp h
    obtain ⟨e, he, h⟩ := Option.bind_eq_some_iff.mp h
    cases h
    obtain ⟨hmap, -⟩ := deref_eq_some.mp he
    have hentry : ∀ j, e.lookups.count j = c.registrations j p.state := by
      intro j
      rw [registrations_of_some hmap]
    constructor
    · intro j hj state
      change (c.setEntry p.state _).registrations j state = _
      rw [registrations_setEntry]
      split
      · rename_i heq
        rw [heq, count_removeLookup, if_neg hj, hentry]
      · rfl
    · intro state
      change (c.setEntry p.state _).registrations i state = 0
      rw [registrations_setEntry]
      split
      · rename_i heq
        rw [count_removeLookup, if_pos rfl, hentry]
        obtain ⟨hone, -⟩ | ⟨hzero, -⟩ := hc p.state
        · rw [hone]
        · rw [hzero]
      · rename_i hne
        obtain ⟨-, -, hstate⟩ | ⟨hzero, -⟩ := hc state
        · rw [hp] at hstate
          exact absurd (Option.some.inj hstate).symm hne
        · exact hzero

theorem invalidateOldState_lists (h : c.invalidateOldState i = some c') (hc : c.Listed i) :
  Relists i c c' ∧ c'.Listed i
  := by
  obtain ⟨-, hlookup⟩ := invalidateOldState_spec h
  obtain ⟨c₁, h₁, h⟩ := Option.bind_eq_some_iff.mp h
  cases h
  obtain ⟨hrelists, hzero⟩ := unregister_lists h₁ hc
  use hrelists
  apply Listed.of_not_isRegistered
  · rw [hlookup]
  · exact hzero

theorem enterState_lists (h : c.enterState i state = some c') (hc : c.Listed i)
    (hentry : (c.lookup i).isRegistered = true →
      (c.lookup i).entry.map (·.state) = some state) :
  Relists i c c' ∧ c'.Listed i
  := by
  obtain ⟨e, he⟩ := exists_map_ensureStateCacheEntry c state
  have hpointer : (c.ensureStateCacheEntry state).pointer state = some ⟨state, e.serial⟩ := by
    rw [pointer, he]
    rfl
  unfold enterState at h
  dsimp only at h
  rw [hpointer] at h
  have hensured : (c.ensureStateCacheEntry state).Listed i := by
    intro s
    rw [registrations_ensureStateCacheEntry, lookup_ensureStateCacheEntry]
    exact hc s
  obtain ⟨hrelists, hlisted⟩ := ensureRegistered_lists h (hensured.setLookup rfl (by
    intro hregistered
    rw [lookup_ensureStateCacheEntry] at hregistered ⊢
    exact (hentry hregistered).symm))
  refine ⟨fun j hj s => ?_, hlisted⟩
  rw [hrelists j hj s]
  exact registrations_ensureStateCacheEntry c j state s

/-! ### The operations of lookups -/

omit [DecidableEq S] in
/-- A lookup which has got the state which its expressions give has it afterwards. -/
theorem cachedState_eq_getState
    (hconstant : (c'.lookup i).stateIsConstant = (c.lookup i).stateIsConstant)
    (hcached : (c'.lookup i).cachedState = c.getState i given) :
  (c'.lookup i).cachedState = c'.getState i given
  := by
  rw [getState] at hcached ⊢
  rw [hconstant]
  split
  · rfl
  · rename_i hnot
    rwa [if_neg hnot] at hcached

/-- A change leaves the lookup registered exactly when its state is known. -/
theorem handleChangeInternal_lists (hc : c.Coherent i) (hlisted : c.Listed i)
    (h : c.handleChangeInternal i given = some c') :
  Relists i c c' ∧ c'.Listed i ∧
    (c'.lookup i).isRegistered = (c'.lookup i).cachedState.isSome
  := by
  unfold handleChangeInternal at h
  dsimp only at h
  split at h
  · rename_i newState hstate
    obtain ⟨c₁, h₁, h⟩ := Option.bind_eq_some_iff.mp h
    split at h₁
    · obtain ⟨-, hlookup⟩ := invalidateOldState_spec h₁
      obtain ⟨hrelists, hlisted₁⟩ := invalidateOldState_lists h₁ hlisted
      have hregistered : (c₁.lookup i).isRegistered = true → False := by
        rw [hlookup]
        rintro ⟨⟩
      obtain ⟨hrelists', hlisted'⟩ := enterState_lists h hlisted₁ fun hi => (hregistered hi).elim
      obtain ⟨-, -, p, -, hlookup'⟩ := enterState_spec h fun hi => (hregistered hi).elim
      refine ⟨hrelists.trans hrelists', hlisted', ?_⟩
      rw [hlookup']
      rfl
    · rename_i hsame
      cases h₁
      have hentry : (c.lookup i).isRegistered = true → c.Registered i ∧
          (c.lookup i).cachedState = some newState ∧
            ∀ p, (c.lookup i).entry = some p → p.state = newState := by
        intro hregistered
        have hcached : ∀ p, (c.lookup i).entry = some p → p.state = newState := by
          intro p hp
          rw [hc.state p hp] at hsame
          simpa using hsame
        obtain ⟨p, e, hp, he, hmem⟩ := hc.registered hregistered
        refine ⟨⟨p, e, hp, he, hmem⟩, ?_, hcached⟩
        rw [hc.state p hp, hcached p hp]
      obtain ⟨hrelists, hlisted'⟩ := enterState_lists h hlisted (by
        intro hregistered
        obtain ⟨⟨p, e, hp, -⟩, -, hstate⟩ := hentry hregistered
        rw [hp, Option.map_some, hstate p hp])
      obtain ⟨-, -, p, -, hlookup'⟩ := enterState_spec h hentry
      refine ⟨hrelists, hlisted', ?_⟩
      rw [hlookup']
      rfl
  · split at h
    · obtain ⟨-, hlookup⟩ := invalidateOldState_spec h
      rw [lookup_setLookup] at hlookup
      obtain ⟨hrelists, hlisted'⟩ := invalidateOldState_lists h (hlisted.setLookup rfl fun _ => rfl)
      refine ⟨hrelists, hlisted', ?_⟩
      rw [hlookup]
      rfl
    · rename_i hold
      cases h
      have hnone : (c.lookup i).cachedState = none := by simpa using hold
      refine ⟨fun _ _ _ => rfl, hlisted.setLookup rfl fun _ => rfl, ?_⟩
      rw [lookup_setLookup]
      exact hc.isRegistered_eq_false (hc.entry_eq_none hnone)

/-- The activation leaves the lookup registered exactly when its state is known. -/
theorem handleActivate_lists (hc : c.Coherent i) (hlisted : c.Listed i)
    (hgiven : (c.lookup i).entry ≠ none → (c.lookup i).cachedState = c.getState i given)
    (h : c.handleActivate i given = some c') :
  Relists i c c' ∧ c'.Listed i ∧
    (c'.lookup i).isRegistered = (c'.lookup i).cachedState.isSome ∧
    (c'.lookup i).cachedState = c.getState i given
  := by
  unfold handleActivate at h
  dsimp only at h
  split at h
  · rename_i p hentry
    have hcached := hgiven (by simp [hentry])
    rw [← hcached, setLookup_self] at h
    obtain ⟨-, hlookup, -⟩ := ensureRegistered_spec h hc.registered
    obtain ⟨hrelists, hlisted'⟩ := ensureRegistered_lists h hlisted
    refine ⟨hrelists, hlisted', ?_, ?_⟩
    · rw [hlookup, hc.state p hentry]
      rfl
    · rw [hlookup, hcached]
  · rename_i newState hentry hstate
    have hregistered := hc.isRegistered_eq_false hentry
    have habsurd : ((c.setLookup i
        { c.lookup i with cachedState := c.getState i given }).lookup i).isRegistered = true →
          False := by
      rw [lookup_setLookup, hregistered]
      rintro ⟨⟩
    obtain ⟨hrelists, hlisted'⟩ := enterState_lists h (hlisted.setLookup rfl fun _ => rfl)
      fun hi => (habsurd hi).elim
    obtain ⟨-, -, p, -, hlookup⟩ := enterState_spec h fun hi => (habsurd hi).elim
    refine ⟨hrelists, hlisted', ?_, ?_⟩
    · rw [hlookup]
      rfl
    · rw [hlookup, hstate]
  · rename_i hentry hstate
    cases h
    refine ⟨fun _ _ _ => rfl, hlisted.setLookup rfl fun _ => rfl, ?_, ?_⟩
    · rw [lookup_setLookup, hstate]
      exact hc.isRegistered_eq_false hentry
    · rw [lookup_setLookup]

theorem handleDeactivate_lists (hc : c.Coherent i) (hlisted : c.Listed i)
    (h : c.handleDeactivate i = some c') :
  Relists i c c' ∧ c'.Listed i
  := by
  obtain ⟨c₁, h₁, rfl⟩ := Option.map_eq_some_iff.mp h
  have hunregister : Relists i c c₁ ∧ (∀ state, c₁.registrations i state = 0) ∧
      (c₁.lookup i).isRegistered = false := by
    split at h₁
    · obtain ⟨-, hlookup⟩ := unregister_spec h₁
      obtain ⟨hrelists, hzero⟩ := unregister_lists h₁ hlisted
      refine ⟨hrelists, hzero, ?_⟩
      rw [hlookup]
    · rename_i hstate
      cases h₁
      have hnone : (c.lookup i).cachedState = none := by simpa using hstate
      have hregistered := hc.isRegistered_eq_false (hc.entry_eq_none hnone)
      exact ⟨fun _ _ _ => rfl, hlisted.eq_zero hregistered, hregistered⟩
  obtain ⟨hrelists, hzero, hregistered⟩ := hunregister
  dsimp only
  split
  · exact ⟨hrelists, .of_not_isRegistered hregistered hzero⟩
  · refine ⟨hrelists, .of_not_isRegistered ?_ hzero⟩
    rw [lookup_setLookup]
    exact hregistered

theorem handleDeactivate_activeCount (h : c.handleDeactivate i = some c') :
  (c'.lookup i).activeCount = (c.lookup i).activeCount
  := by
  obtain ⟨c₁, h₁, rfl⟩ := Option.map_eq_some_iff.mp h
  have hlookup : (c₁.lookup i).activeCount = (c.lookup i).activeCount := by
    split at h₁
    · obtain ⟨-, hlookup⟩ := unregister_spec h₁
      rw [hlookup]
    · cases h₁
      rfl
  dsimp only
  split
  · exact hlookup
  · rw [lookup_setLookup]
    exact hlookup

/-! ### Values and messages -/

theorem lookupReturn_registrations {val : Value} (h : c.lookupReturn state val = some c')
    (i : Nat) (s : S) :
  c'.registrations i s = c.registrations i s
  := by
  obtain ⟨e, he, h⟩ := Option.bind_eq_some_iff.mp h
  obtain ⟨value, -, h⟩ := Option.bind_eq_some_iff.mp h
  cases h
  exact (registrations_setEntry_of_lookups he (by rfl) i s).trans
    (registrations_ensureStateCacheEntry c i state s)

theorem setUnknown_registrations (h : c.setUnknown state = some c') (i : Nat) (s : S) :
  c'.registrations i s = c.registrations i s
  := by
  obtain ⟨e, he, h⟩ := Option.bind_eq_some_iff.mp h
  cases h
  exact (registrations_setEntry_of_lookups he (by rfl) i s).trans
    (registrations_ensureStateCacheEntry c i state s)

variable [MessageStates S]

theorem assignMessageHandle_registrations {msg : Message} {handle : StringValue}
    (h : c.assignMessageHandle msg handle = some c') (i : Nat) (s : S) :
  c'.registrations i s = c.registrations i s
  := by
  unfold assignMessageHandle at h
  generalize messageValues msg handle = values at h
  induction values generalizing c with
  | nil =>
    cases h
    rfl
  | cons entry values ih =>
    rw [List.foldlM_cons] at h
    obtain ⟨c₁, h₁, h⟩ := Option.bind_eq_some_iff.mp h
    rw [ih h, lookupReturn_registrations h₁]

theorem releaseMessageHandle_registrations {handle : StringValue}
    (h : c.releaseMessageHandle handle = some c') (i : Nat) (s : S) :
  c'.registrations i s = c.registrations i s
  := by
  obtain ⟨-, hmap⟩ := releaseMessageHandle_spec h
  have hs := hmap s
  split at hs
  · rename_i herases
    have hlookups : c.hasRegisteredLookups s = false := by
      unfold erases at herases
      split at herases
      · simp only [Bool.and_eq_true, Bool.not_eq_true'] at herases
        exact herases.2
      · cases herases
    rw [registrations_of_none hs, registrations_eq_zero hlookups]
  · exact registrations_congr hs i

end Plexil.Intfc.StateCache

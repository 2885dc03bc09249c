import Plexil.Intfc.CacheEntries

/-!
# Dangling pointers

A lookup which is registered on an entry keeps the entry from being erased.  But a lookup
whose state is constant keeps its pointer after it is unregistered, and the entry may then
be erased when a message handle is released.
-/

namespace Plexil.Intfc.StateCache

variable {S : Type} {c c' c'' : StateCache S} {i j : Nat} {p : EntryPointer S}
variable {state : S}

/-! ### Steps -/

/-- A lookup which is not active is not registered. -/
structure WellBehaved (c : StateCache S) (i : Nat) : Prop extends Coherent c i where
  inactive : (c.lookup i).activeCount = 0 → (c.lookup i).isRegistered = false

theorem Keeps.wellBehaved (h : Keeps i c c') (hj : j ≠ i) (hc : c.WellBehaved j) :
  c'.WellBehaved j
  := by
  use h.coherent hj hc.toCoherent
  rw [h.lookup j hj]
  apply hc.inactive

/-- The lookup and the entry on which it is registered are kept. -/
theorem WellBehaved.of_lookup_eq (hc : c.WellBehaved i) (hlookup : c'.lookup i = c.lookup i)
    (hmap : ∀ p e, c.deref p = some e → i ∈ e.lookups →
      ∃ e', c'.deref p = some e' ∧ i ∈ e'.lookups) :
  c'.WellBehaved i
  := by
  use hc.toCoherent.of_lookup_eq hlookup hmap
  rw [hlookup]
  apply hc.inactive

variable [DecidableEq S]

theorem activate_keeps {given : Option S} {changes : List (Option S)} (hc : c.WellBehaved i)
    (h : c.activate i given changes = some c') :
  Keeps i c c' ∧ c'.WellBehaved i ∧ (c.EntryPresent i → c'.EntryPresent i)
  := by
  have hlookup := lookup_setLookup c i
    { c.lookup i with activeCount := (c.lookup i).activeCount + 1 }
  have hkeeps := keeps_setLookup c i { c.lookup i with activeCount := (c.lookup i).activeCount + 1 }
  have hcoherent := hc.toCoherent.setActiveCount ((c.lookup i).activeCount + 1)
  have hpresent : c.EntryPresent i → (c.setLookup i { c.lookup i with
      activeCount := (c.lookup i).activeCount + 1 }).EntryPresent i := by
    intro hp p
    rw [hlookup]
    apply hp
  unfold activate at h
  dsimp only at h
  generalize c.setLookup i { c.lookup i with activeCount := (c.lookup i).activeCount + 1 } = c₀
    at h hlookup hkeeps hcoherent hpresent
  have hactive : 0 < (c₀.lookup i).activeCount := by
    rw [hlookup]
    apply Nat.succ_pos
  split at h
  · rename_i hzero
    obtain ⟨c₁, h₁, h⟩ := Option.bind_eq_some_iff.mp h
    obtain ⟨hchanges, hlast⟩ := notifyChanged_foldlM_operates hcoherent h₁
    have hhandle := handleActivate_operates hchanges.coherent (by
      intro hentry
      cases hgetLast : changes.getLast? with
      | some last => apply hlast hactive last hgetLast
      | none =>
        rw [List.getLast?_eq_none_iff] at hgetLast
        subst hgetLast
        cases h₁
        apply hcoherent.getState_eq _ hentry
        rw [hlookup]
        apply hc.inactive hzero) h
    have hoperates := hchanges.trans hhandle
    refine ⟨hkeeps.trans hoperates.keeps, ⟨hoperates.coherent, fun hinactive => ?_⟩,
      fun hp => hoperates.entryPresent (hpresent hp)⟩
    rw [hoperates.activeCount] at hinactive
    exact absurd hinactive hactive.ne'
  · cases h
    exact ⟨hkeeps, ⟨hcoherent, fun hinactive => absurd hinactive hactive.ne'⟩, hpresent⟩

theorem handleDeactivate_keeps (hc : c.Coherent i) (h : c.handleDeactivate i = some c') :
  Keeps i c c' ∧ c'.WellBehaved i ∧ (c.EntryPresent i → c'.EntryPresent i)
  := by
  obtain ⟨c₁, h₁, rfl⟩ := Option.map_eq_some_iff.mp h
  have hunregister : Keeps i c c₁ ∧
      c₁.lookup i = { c.lookup i with isRegistered := false } := by
    split at h₁
    · apply unregister_spec h₁
    · rename_i hstate
      cases h₁
      have hnone : (c.lookup i).cachedState = none := by simpa using hstate
      use Keeps.refl i c
      rw [← hc.isRegistered_eq_false (hc.entry_eq_none hnone)]
  obtain ⟨hkeeps, hlookup⟩ := hunregister
  dsimp only
  split
  · rename_i hconstant
    refine ⟨hkeeps, ⟨⟨?_, ?_, fun _ _ => hconstant, ?_⟩, fun _ => ?_⟩, fun hp p hentry => ?_⟩
    · rw [hlookup]
      rintro ⟨⟩
    · rw [hlookup]
      apply hc.state
    · rw [hlookup]
      apply hc.constant
    · rw [hlookup]
    · rw [hlookup] at hentry
      apply hkeeps.deref (hp p hentry)
  · rename_i hconstant
    have hlookup' := lookup_setLookup c₁ i { c₁.lookup i with entry := none }
    obtain ⟨hcoherent, hpresent⟩ := coherent_of_entry_none
      (c := c₁.setLookup i { c₁.lookup i with entry := none }) (i := i)
      (by rw [hlookup']) (by rw [hlookup', hlookup]) (by
        rw [hlookup']
        intro htrue
        exact absurd htrue hconstant)
    refine ⟨hkeeps.trans (keeps_setLookup _ _ _), ⟨hcoherent, fun _ => ?_⟩, fun _ => hpresent⟩
    rw [hlookup', hlookup]

theorem deactivate_keeps (hc : c.WellBehaved i) (h : c.deactivate i = some c') :
  Keeps i c c' ∧ c'.WellBehaved i ∧ (c.EntryPresent i → c'.EntryPresent i)
  := by
  have hlookup := lookup_setLookup c i
    { c.lookup i with activeCount := (c.lookup i).activeCount - 1 }
  have hkeeps := keeps_setLookup c i { c.lookup i with activeCount := (c.lookup i).activeCount - 1 }
  have hcoherent := hc.toCoherent.setActiveCount ((c.lookup i).activeCount - 1)
  have hpresent : c.EntryPresent i → (c.setLookup i { c.lookup i with
      activeCount := (c.lookup i).activeCount - 1 }).EntryPresent i := by
    intro hp p
    rw [hlookup]
    apply hp
  unfold deactivate at h
  dsimp only at h
  split at h
  · cases h
  · split at h
    · obtain ⟨hkeeps', hbehaved, hpresent'⟩ := handleDeactivate_keeps hcoherent h
      exact ⟨hkeeps.trans hkeeps', hbehaved, fun hp => hpresent' (hpresent hp)⟩
    · rename_i hzero hone
      cases h
      refine ⟨hkeeps, ⟨hcoherent, fun hinactive => ?_⟩, hpresent⟩
      rw [hlookup] at hinactive
      dsimp only at hinactive
      omega

/-! ### Operations which are possible -/

theorem ensureRegistered_isSome (hp : (c.lookup i).entry = some p)
    (hpresent : (c.deref p).isSome = true) :
  (c.ensureRegistered i).isSome = true
  := by
  obtain ⟨e, he⟩ := Option.isSome_iff_exists.mp hpresent
  unfold ensureRegistered
  dsimp only
  split
  · rfl
  · rw [hp, Option.bind_eq_bind, Option.bind_some, he]
    rfl

theorem unregister_isSome (hc : (c.lookup i).isRegistered = true → c.Registered i) :
  (c.unregister i).isSome = true
  := by
  unfold unregister
  dsimp only
  split
  · rfl
  · rename_i hregistered
    obtain ⟨p, e, hp, he, -⟩ := hc (by simpa using hregistered)
    rw [hp, Option.bind_eq_bind, Option.bind_some, he]
    rfl

theorem enterState_isSome (c : StateCache S) (i : Nat) (state : S) :
  (c.enterState i state).isSome = true
  := by
  obtain ⟨e, he⟩ := exists_map_ensureStateCacheEntry c state
  have hpointer : (c.ensureStateCacheEntry state).pointer state = some ⟨state, e.serial⟩ := by
    rw [pointer, he]
    rfl
  unfold enterState
  apply ensureRegistered_isSome (p := ⟨state, e.serial⟩)
  · rw [lookup_setLookup, hpointer]
  · rw [deref_setLookup, deref_eq_some.mpr ⟨he, rfl⟩]
    rfl

theorem invalidateOldState_isSome (hc : (c.lookup i).isRegistered = true → c.Registered i) :
  (c.invalidateOldState i).isSome = true
  := by
  obtain ⟨c₁, h₁⟩ := Option.isSome_iff_exists.mp (unregister_isSome hc)
  rw [invalidateOldState, h₁]
  rfl

theorem handleChangeInternal_isSome {given : Option S} (hc : c.Coherent i) :
  (c.handleChangeInternal i given).isSome = true
  := by
  unfold handleChangeInternal
  dsimp only
  split
  · split
    · obtain ⟨c₁, h₁⟩ := Option.isSome_iff_exists.mp (invalidateOldState_isSome hc.registered)
      rw [h₁]
      apply enterState_isSome
    · apply enterState_isSome
  · split
    · apply invalidateOldState_isSome
      rw [lookup_setLookup]
      intro hregistered
      obtain ⟨p, e, hp, he, hmem⟩ := hc.registered hregistered
      use p, e, by rw [lookup_setLookup, hp], he
    · rfl

theorem notifyChanged_foldlM_isSome (changes : List (Option S)) (hc : c.Coherent i) :
  (changes.foldlM (fun c change => notifyChanged c i change) c).isSome = true
  := by
  induction changes generalizing c with
  | nil => rfl
  | cons change changes ih =>
    have hsome : (c.notifyChanged i change).isSome = true := by
      unfold notifyChanged
      split
      · apply handleChangeInternal_isSome hc
      · rfl
    obtain ⟨c₁, h₁⟩ := Option.isSome_iff_exists.mp hsome
    rw [List.foldlM_cons, h₁]
    apply ih (notifyChanged_operates hc h₁).1.coherent

/-- A lookup whose entry is present can be activated. -/
theorem activate_isSome {given : Option S} {changes : List (Option S)} (hc : c.Coherent i)
    (hpresent : c.EntryPresent i) :
  (c.activate i given changes).isSome = true
  := by
  have hlookup := lookup_setLookup c i
    { c.lookup i with activeCount := (c.lookup i).activeCount + 1 }
  have hcoherent := hc.setActiveCount ((c.lookup i).activeCount + 1)
  unfold activate
  dsimp only
  split
  · obtain ⟨c₁, h₁⟩ := Option.isSome_iff_exists.mp
      (notifyChanged_foldlM_isSome changes hcoherent)
    obtain ⟨hchanges, -⟩ := notifyChanged_foldlM_operates hcoherent h₁
    have hpresent₁ : c₁.EntryPresent i := by
      apply hchanges.entryPresent
      intro p
      rw [hlookup]
      apply hpresent
    rw [h₁]
    change (c₁.handleActivate i _).isSome = true
    unfold handleActivate
    dsimp only
    split
    · rename_i p hentry
      apply ensureRegistered_isSome (p := p)
      · rw [lookup_setLookup, hentry]
      · apply hpresent₁ p hentry
    · apply enterState_isSome
    · rfl
  · rfl

/-! ### Values and messages -/

theorem lookupReturn_keeps {val : Value} (h : c.lookupReturn state val = some c') (i : Nat) :
  Keeps i c c'
  := by
  obtain ⟨e, he, h⟩ := Option.bind_eq_some_iff.mp h
  obtain ⟨value, -, h⟩ := Option.bind_eq_some_iff.mp h
  cases h
  apply (keeps_ensureStateCacheEntry i c state).trans
  exact keeps_setEntry he rfl fun _ _ hj => hj

theorem setUnknown_keeps (h : c.setUnknown state = some c') (i : Nat) :
  Keeps i c c'
  := by
  obtain ⟨e, he, h⟩ := Option.bind_eq_some_iff.mp h
  cases h
  apply (keeps_ensureStateCacheEntry i c state).trans
  exact keeps_setEntry he rfl fun _ _ hj => hj

variable [MessageStates S]

theorem assignMessageHandle_keeps {msg : Message} {handle : StringValue}
    (h : c.assignMessageHandle msg handle = some c') (i : Nat) :
  Keeps i c c'
  := by
  unfold assignMessageHandle at h
  generalize messageValues msg handle = values at h
  induction values generalizing c with
  | nil =>
    cases h
    apply Keeps.refl
  | cons entry values ih =>
    rw [List.foldlM_cons] at h
    obtain ⟨c₁, h₁, h⟩ := Option.bind_eq_some_iff.mp h
    apply (lookupReturn_keeps h₁ i).trans (ih h)

/-- An entry with lookups is not erased. -/
theorem erases_eq_false {e : StateCacheEntryImpl} (handle : StringValue)
    (hmap : c.map state = some e) (hi : i ∈ e.lookups) :
  c.erases handle state = false
  := by
  have hlookups : c.hasRegisteredLookups state = true := by
    rw [hasRegisteredLookups, hmap]
    simp [List.ne_nil_of_mem hi]
  unfold erases
  split
  · simp [hlookups]
  · rfl

/-- A release keeps the entries on which a lookup is registered. -/
theorem releaseMessageHandle_deref {handle : StringValue} {e : StateCacheEntryImpl}
    (h : c.releaseMessageHandle handle = some c') (he : c.deref p = some e) (hi : i ∈ e.lookups) :
  c'.deref p = some e
  := by
  obtain ⟨hentry, hserial⟩ := deref_eq_some.mp he
  obtain ⟨-, hmap⟩ := releaseMessageHandle_spec h
  rw [deref_eq_some, hmap, erases_eq_false handle hentry hi]
  exact ⟨hentry, hserial⟩

/-- A release keeps the registrations. -/
theorem releaseMessageHandle_behaved {handle : StringValue}
    (h : c.releaseMessageHandle handle = some c') (hc : c.WellBehaved i) :
  c'.WellBehaved i
  := by
  obtain ⟨hlookup, -⟩ := releaseMessageHandle_spec h
  apply hc.of_lookup_eq (congrFun hlookup i)
  intro p e he hi
  exact ⟨e, releaseMessageHandle_deref h he hi, hi⟩

/-! ### Dangling pointers -/

/-- The pointer which a lookup keeps is null or refers to an entry which is in the cache under
the state of the lookup, so that the lookup can be activated. -/
structure EntriesPresent (c : StateCache S) : Prop where
  present : ∀ i p, (c.lookup i).entry = some p → (c.lookup i).cachedState = some p.state ∧
    ∃ e, c.map p.state = some e ∧ e.serial = p.serial
  activates : ∀ i given changes, (c.activate i given changes).isSome = true

/-- A release does not erase an entry which is kept by a lookup that is not registered. -/
def KeepsEntries (c : StateCache S) : Event S → Prop
  | .releaseMessageHandle handle =>
    ∀ i p, (c.lookup i).isRegistered = false → (c.lookup i).entry = some p →
      c.erases handle p.state = false
  | _ => True

omit [MessageStates S] in
theorem entriesPresent_of_entryPresent (hc : ∀ i, c.WellBehaved i)
    (hpresent : ∀ i, c.EntryPresent i) :
  c.EntriesPresent
  := by
  constructor
  · intro i p hp
    obtain ⟨e, he⟩ := Option.isSome_iff_exists.mp (hpresent i p hp)
    use (hc i).state p hp, e
    apply deref_eq_some.mp he
  · intro i given changes
    apply activate_isSome (hc i).toCoherent (hpresent i)

omit [MessageStates S] in
theorem EntriesPresent.entryPresent (h : c.EntriesPresent) (i : Nat) :
  c.EntryPresent i
  := by
  intro p hp
  obtain ⟨-, e, he⟩ := h.present i p hp
  rw [deref_eq_some.mpr he]
  rfl

/-- A release keeps the entries of the lookups exactly when it erases none which is kept. -/
theorem releaseMessageHandle_iff {handle : StringValue} (hc : ∀ i, c.WellBehaved i)
    (hpresent : c.EntriesPresent) :
  c.KeepsEntries (.releaseMessageHandle handle) ↔
    ∀ c', c.releaseMessageHandle handle = some c' → c'.EntriesPresent
  := by
  constructor
  · intro hkeeps c' h
    obtain ⟨hlookup, hmap⟩ := releaseMessageHandle_spec h
    apply entriesPresent_of_entryPresent fun i => releaseMessageHandle_behaved h (hc i)
    intro i
    cases hregistered : (c.lookup i).isRegistered with
    | true =>
      have hc' := releaseMessageHandle_behaved h (hc i)
      apply (hc'.registered _).entryPresent
      rw [hlookup, hregistered]
    | false =>
      intro p hp
      rw [hlookup] at hp
      obtain ⟨-, e, he, hserial⟩ := hpresent.present i p hp
      have hsome : c'.deref p = some e := by
        rw [deref_eq_some, hmap, hkeeps i p hregistered hp]
        exact ⟨he, hserial⟩
      rw [hsome]
      rfl
  · intro h i p _ hp
    cases hrelease : c.releaseMessageHandle handle with
    | some c' =>
      obtain ⟨hlookup, hmap⟩ := releaseMessageHandle_spec hrelease
      obtain ⟨-, e, he, -⟩ := (h c' hrelease).present i p (by rw [hlookup, hp])
      apply Bool.eq_false_of_not_eq_true
      intro herases
      rw [hmap, if_pos herases] at he
      cases he
    | none =>
      unfold erases
      cases hcount : c.releasedCount handle with
      | none => rfl
      | some count =>
        rw [releaseMessageHandle_of_releasedCount hcount] at hrelease
        cases hrelease

/-- An event other than a release keeps what the lookups have. -/
theorem step_wellBehaved {ev : Event S} (hc : ∀ i, c.WellBehaved i)
    (h : step c ev = some c') (hrelease : ∀ handle, ev ≠ .releaseMessageHandle handle) :
  (∀ i, c'.WellBehaved i) ∧ ((∀ i, c.EntryPresent i) → ∀ i, c'.EntryPresent i)
  := by
  have lookup : ∀ i, Keeps i c c' ∧ c'.WellBehaved i ∧ (c.EntryPresent i → c'.EntryPresent i) →
      (∀ j, c'.WellBehaved j) ∧ ((∀ j, c.EntryPresent j) → ∀ j, c'.EntryPresent j) := by
    rintro i ⟨hkeeps, hbehaved, hpresent⟩
    constructor
    · intro j
      obtain rfl | hj := eq_or_ne j i
      · exact hbehaved
      · apply hkeeps.wellBehaved hj (hc j)
    · intro hp j
      obtain rfl | hj := eq_or_ne j i
      · apply hpresent (hp j)
      · apply hkeeps.entryPresent hj (hp j)
  have write : (∀ i, Keeps i c c') →
      (∀ j, c'.WellBehaved j) ∧ ((∀ j, c.EntryPresent j) → ∀ j, c'.EntryPresent j) := by
    intro hkeeps
    constructor
    · intro j
      apply (hkeeps (j + 1)).wellBehaved (Nat.lt_succ_self j).ne (hc j)
    · intro hp j
      apply (hkeeps (j + 1)).entryPresent (Nat.lt_succ_self j).ne (hp j)
  cases ev with
  | activate i given changes => apply lookup i (activate_keeps (hc i) h)
  | deactivate i => apply lookup i (deactivate_keeps (hc i) h)
  | notifyChanged i given =>
    obtain ⟨hoperates, -⟩ := notifyChanged_operates (hc i).toCoherent h
    apply lookup i
    refine ⟨hoperates.keeps, ⟨hoperates.coherent, fun hinactive => ?_⟩, hoperates.entryPresent⟩
    rw [hoperates.activeCount] at hinactive
    change c.notifyChanged i given = some c' at h
    rw [notifyChanged, if_neg (by omega)] at h
    cases h
    apply (hc i).inactive hinactive
  | lookupReturn state val => apply write (lookupReturn_keeps h)
  | setUnknown state => apply write (setUnknown_keeps h)
  | assignMessageHandle msg handle => apply write (assignMessageHandle_keeps h)
  | releaseMessageHandle handle => exact absurd rfl (hrelease handle)

/-- In a run from a new cache, every lookup has null or an entry of the cache at all times
exactly when every release spares the entries which are kept by unregistered lookups. -/
theorem entriesPresent_iff (c : { c : StateCache S // c.Init }) (events : List (Event S)) :
  StateMachine.Always step EntriesPresent events c.val ↔
    StateMachine.Meets step KeepsEntries events c.val
  := by
  obtain ⟨c, hmap, hlookup⟩ := c
  have hbehaved : ∀ i, c.WellBehaved i ∧ c.EntryPresent i := by
    intro i
    obtain ⟨-, hentry, hregistered, hconstant⟩ := hlookup i
    obtain ⟨hcoherent, hpresent⟩ := coherent_of_entry_none hentry hregistered hconstant
    use ⟨hcoherent, fun _ => hregistered⟩
  apply StateMachine.always_iff_meets (I := fun c => ∀ i, c.WellBehaved i)
  · intro c ev c' hc h
    by_cases hrelease : ∃ handle, ev = .releaseMessageHandle handle
    · obtain ⟨handle, rfl⟩ := hrelease
      intro i
      apply releaseMessageHandle_behaved h (hc i)
    · apply (step_wellBehaved hc h fun handle heq => hrelease ⟨handle, heq⟩).1
  · intro c ev hc hpresent
    by_cases hrelease : ∃ handle, ev = .releaseMessageHandle handle
    · obtain ⟨handle, rfl⟩ := hrelease
      apply releaseMessageHandle_iff hc hpresent
    · have hkeeps : c.KeepsEntries ev := by
        cases ev <;> first | trivial | exact absurd ⟨_, rfl⟩ hrelease
      apply iff_of_true hkeeps
      intro c' h
      obtain ⟨hc', hp⟩ := step_wellBehaved hc h fun handle heq => hrelease ⟨handle, heq⟩
      apply entriesPresent_of_entryPresent hc' (hp hpresent.entryPresent)
  · intro i
    apply (hbehaved i).1
  · apply entriesPresent_of_entryPresent (fun i => (hbehaved i).1) fun i => (hbehaved i).2

/-- The message is released between two activations of the lookup. -/
theorem entriesPresent_fails :
  ¬ ∀ (c : { c : StateCache State // c.Init }) (events : List (Event State)),
    StateMachine.Always step EntriesPresent events c.val
  := by
  intro h
  have hrun : (StateMachine.run step [.assignMessageHandle ⟨⟨[], []⟩, [], 0⟩ [109],
        .activate 0 none [], .deactivate 0, .releaseMessageHandle [109]] newCache).map
      (fun c => (c.activate 0 none []).isSome) = some false := by
    decide +kernel
  obtain ⟨c, hc, hfails⟩ := Option.map_eq_some_iff.mp hrun
  have hpresent : c.EntriesPresent :=
    StateMachine.Always.of_run (h ⟨newCache, rfl, fun _ => ⟨rfl, rfl, rfl, fun _ => rfl⟩⟩ _) hc
  have hactivates := hpresent.activates 0 none []
  rw [hactivates] at hfails
  cases hfails

end Plexil.Intfc.StateCache

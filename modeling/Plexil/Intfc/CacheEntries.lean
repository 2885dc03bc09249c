import Plexil.Intfc.StateCache

/-!
# The entries of lookups

What the operations of a lookup do to the lookup itself, to the other lookups and to the
entries of the state cache.
-/

namespace Plexil.Intfc.StateCache

variable {S : Type} {c c' c'' : StateCache S} {i j : Nat} {p : EntryPointer S}
variable {e : StateCacheEntryImpl} {state : S}

theorem deref_eq_some [DecidableEq S] :
  c.deref p = some e ↔ c.map p.state = some e ∧ e.serial = p.serial
  := by
  simp [deref, Option.filter_eq_some_iff]

/-! ### What an operation on a lookup keeps -/

/-- An operation on the lookup `i` keeps the other lookups, and it keeps the entries and their
registrations. -/
structure Keeps (i : Nat) (c c' : StateCache S) : Prop where
  lookup : ∀ j, j ≠ i → c'.lookup j = c.lookup j
  entry : ∀ p e, c.deref p = some e →
    ∃ e', c'.deref p = some e' ∧ ∀ j, j ≠ i → j ∈ e.lookups → j ∈ e'.lookups

theorem Keeps.refl (i : Nat) (c : StateCache S) :
  Keeps i c c
  := ⟨fun _ _ => rfl, fun _ e he => ⟨e, he, fun _ _ hj => hj⟩⟩

theorem Keeps.trans (h : Keeps i c c') (h' : Keeps i c' c'') :
  Keeps i c c''
  := by
  constructor
  · intro j hj
    rw [h'.lookup j hj, h.lookup j hj]
  · intro p e he
    obtain ⟨e', he', hmem⟩ := h.entry p e he
    obtain ⟨e'', he'', hmem'⟩ := h'.entry p e' he'
    use e'', he''
    intro j hj hje
    apply hmem' j hj (hmem j hj hje)

theorem keeps_setLookup (c : StateCache S) (i : Nat) (l : LookupImpl S) :
  Keeps i c (c.setLookup i l)
  := by
  constructor
  · intro j hj
    apply Function.update_of_ne hj
  · intro p e he
    use e, he, fun _ _ hj => hj

@[simp] theorem lookup_setLookup (c : StateCache S) (i : Nat) (l : LookupImpl S) :
  (c.setLookup i l).lookup i = l
  := by
  apply Function.update_self

theorem setLookup_self (c : StateCache S) (i : Nat) :
  c.setLookup i (c.lookup i) = c
  := by
  rw [setLookup, Function.update_eq_self]

@[simp] theorem deref_setLookup (c : StateCache S) (i : Nat) (l : LookupImpl S)
    (p : EntryPointer S) :
  (c.setLookup i l).deref p = c.deref p
  := rfl

/-! ### Coherence -/

/-- The lookup `i` is registered on the entry which it points to. -/
def Registered (c : StateCache S) (i : Nat) : Prop :=
  ∃ p e, (c.lookup i).entry = some p ∧ c.deref p = some e ∧ i ∈ e.lookups

/-- What the pointer of the lookup `i` and its registration have to do with each other. -/
structure Coherent (c : StateCache S) (i : Nat) : Prop where
  registered : (c.lookup i).isRegistered = true → c.Registered i
  state : ∀ p, (c.lookup i).entry = some p → (c.lookup i).cachedState = some p.state
  unregistered : (c.lookup i).isRegistered = false → (c.lookup i).entry ≠ none →
    (c.lookup i).stateIsConstant = true
  constant : (c.lookup i).stateIsConstant = true → (c.lookup i).cachedState.isSome = true

/-- The pointer of the lookup `i` is null or refers to an entry of the cache. -/
def EntryPresent (c : StateCache S) (i : Nat) : Prop :=
  ∀ p, (c.lookup i).entry = some p → (c.deref p).isSome = true

theorem Registered.entryPresent (h : c.Registered i) :
  c.EntryPresent i
  := by
  obtain ⟨p, e, hp, he, -⟩ := h
  intro q hq
  rw [hp] at hq
  cases hq
  rw [he]
  rfl

theorem Keeps.deref (h : Keeps i c c') (hp : (c.deref p).isSome = true) :
  (c'.deref p).isSome = true
  := by
  obtain ⟨e, he⟩ := Option.isSome_iff_exists.mp hp
  obtain ⟨e', he', -⟩ := h.entry p e he
  rw [he']
  rfl

/-- The lookup and the entry on which it is registered are kept. -/
theorem Coherent.of_lookup_eq (hc : c.Coherent i) (hlookup : c'.lookup i = c.lookup i)
    (hmap : ∀ p e, c.deref p = some e → i ∈ e.lookups →
      ∃ e', c'.deref p = some e' ∧ i ∈ e'.lookups) :
  c'.Coherent i
  := by
  constructor
  · intro hregistered
    rw [hlookup] at hregistered
    obtain ⟨p, e, hp, he, hmem⟩ := hc.registered hregistered
    obtain ⟨e', he', hmem'⟩ := hmap p e he hmem
    use p, e', hlookup ▸ hp, he', hmem'
  · rw [hlookup]
    apply hc.state
  · rw [hlookup]
    apply hc.unregistered
  · rw [hlookup]
    apply hc.constant

theorem Keeps.coherent (h : Keeps i c c') (hj : j ≠ i) (hc : c.Coherent j) :
  c'.Coherent j
  := by
  apply hc.of_lookup_eq (h.lookup j hj)
  intro p e he hmem
  obtain ⟨e', he', hmem'⟩ := h.entry p e he
  exact ⟨e', he', hmem' j hj hmem⟩

theorem Keeps.entryPresent (h : Keeps i c c') (hj : j ≠ i) (hc : c.EntryPresent j) :
  c'.EntryPresent j
  := by
  intro p hp
  rw [h.lookup j hj] at hp
  apply h.deref (hc p hp)

/-- An operation of the lookup `i` while it is active or inactive. -/
structure Operates (i : Nat) (c c' : StateCache S) : Prop where
  keeps : Keeps i c c'
  coherent : c'.Coherent i
  entryPresent : c.EntryPresent i → c'.EntryPresent i
  activeCount : (c'.lookup i).activeCount = (c.lookup i).activeCount
  stateIsConstant : (c'.lookup i).stateIsConstant = (c.lookup i).stateIsConstant

theorem Operates.refl (hc : c.Coherent i) :
  Operates i c c
  := ⟨Keeps.refl i c, hc, fun h => h, rfl, rfl⟩

theorem Operates.trans (h : Operates i c c') (h' : Operates i c' c'') :
  Operates i c c''
  := ⟨h.keeps.trans h'.keeps, h'.coherent, fun hp => h'.entryPresent (h.entryPresent hp),
    h'.activeCount.trans h.activeCount, h'.stateIsConstant.trans h.stateIsConstant⟩

/-- A lookup which is registered in a state is coherent. -/
theorem coherent_of_registered {l : LookupImpl S} (hreg : c.Registered i)
    (hlookup : c.lookup i =
      { l with cachedState := some p.state, entry := some p, isRegistered := true }) :
  c.Coherent i
  := by
  constructor
  · intro _
    exact hreg
  · intro q hq
    rw [hlookup] at hq ⊢
    cases hq
    rfl
  · intro hfalse
    rw [hlookup] at hfalse
    cases hfalse
  · intro _
    rw [hlookup]
    rfl

/-- A lookup without a pointer is coherent. -/
theorem coherent_of_entry_none (hentry : (c.lookup i).entry = none)
    (hregistered : (c.lookup i).isRegistered = false)
    (hconstant : (c.lookup i).stateIsConstant = true → (c.lookup i).cachedState.isSome = true) :
  c.Coherent i ∧ c.EntryPresent i
  := by
  constructor
  · constructor
    · rw [hregistered]
      rintro ⟨⟩
    · rw [hentry]
      rintro p ⟨⟩
    · intro _ hne
      contradiction
    · exact hconstant
  · intro p hp
    rw [hentry] at hp
    cases hp

/-- A coherent lookup without a state has no pointer. -/
theorem Coherent.entry_eq_none (hc : c.Coherent i) (h : (c.lookup i).cachedState = none) :
  (c.lookup i).entry = none
  := by
  apply Option.eq_none_iff_forall_ne_some.mpr
  intro p hp
  have := hc.state p hp
  rw [h] at this
  cases this

/-- A coherent lookup without a pointer is not registered. -/
theorem Coherent.isRegistered_eq_false (hc : c.Coherent i) (h : (c.lookup i).entry = none) :
  (c.lookup i).isRegistered = false
  := by
  apply Bool.eq_false_of_not_eq_true
  intro hregistered
  obtain ⟨p, e, hp, -⟩ := hc.registered hregistered
  rw [h] at hp
  cases hp

/-- The number of activations does not matter. -/
theorem Coherent.setActiveCount (hc : c.Coherent i) (n : Nat) :
  (c.setLookup i { c.lookup i with activeCount := n }).Coherent i
  := by
  have hlookup := lookup_setLookup c i { c.lookup i with activeCount := n }
  constructor
  · rw [hlookup]
    intro hregistered
    obtain ⟨p, e, hp, he, hmem⟩ := hc.registered hregistered
    use p, e, by rw [hlookup, hp], he
  · rw [hlookup]
    apply hc.state
  · rw [hlookup]
    apply hc.unregistered
  · rw [hlookup]
    apply hc.constant

/-- The state of a lookup which keeps an entry without being registered does not change. -/
theorem Coherent.getState_eq {given : Option S} (hc : c.Coherent i)
    (hregistered : (c.lookup i).isRegistered = false) (hentry : (c.lookup i).entry ≠ none) :
  (c.lookup i).cachedState = c.getState i given
  := by
  rw [getState, if_pos (hc.unregistered hregistered hentry)]

/-- A constant state is known. -/
theorem Coherent.stateIsConstant_eq_false {given : Option S} (hc : c.Coherent i)
    (h : c.getState i given = none) :
  (c.lookup i).stateIsConstant = false
  := by
  apply Bool.eq_false_of_not_eq_true
  intro htrue
  have hsome := hc.constant htrue
  rw [getState, if_pos htrue] at h
  rw [h] at hsome
  cases hsome

variable [DecidableEq S]

theorem map_setEntry (c : StateCache S) (state s : S) (e : StateCacheEntryImpl) :
  (c.setEntry state e).map s = if s = state then some e else c.map s
  := by
  apply Function.update_apply

theorem keeps_setEntry {e' : StateCacheEntryImpl} (he : c.map state = some e)
    (hserial : e'.serial = e.serial) (hlookups : ∀ j, j ≠ i → j ∈ e.lookups → j ∈ e'.lookups) :
  Keeps i c (c.setEntry state e')
  := by
  constructor
  · intro j _
    rfl
  · intro p f hf
    obtain ⟨hmap, hf⟩ := deref_eq_some.mp hf
    obtain heq | hne := eq_or_ne p.state state
    · use e'
      rw [heq, he] at hmap
      cases hmap
      rw [deref_eq_some, map_setEntry, if_pos heq]
      exact ⟨⟨rfl, hserial.trans hf⟩, hlookups⟩
    · use f
      rw [deref_eq_some, map_setEntry, if_neg hne]
      exact ⟨⟨hmap, hf⟩, fun _ _ hj => hj⟩

theorem map_ensureStateCacheEntry_of_some (he : c.map state = some e) :
  c.ensureStateCacheEntry state = c
  := by
  rw [ensureStateCacheEntry, he]
  rfl

theorem map_ensureStateCacheEntry_of_none (hnone : c.map state = none) (s : S) :
  (c.ensureStateCacheEntry state).map s =
    if s = state then some ⟨c.next, none, []⟩ else c.map s
  := by
  rw [ensureStateCacheEntry, hnone]
  apply map_setEntry

@[simp] theorem lookup_ensureStateCacheEntry (c : StateCache S) (state : S) :
  (c.ensureStateCacheEntry state).lookup = c.lookup
  := by
  unfold ensureStateCacheEntry
  split <;> rfl

theorem keeps_ensureStateCacheEntry (i : Nat) (c : StateCache S) (state : S) :
  Keeps i c (c.ensureStateCacheEntry state)
  := by
  cases hstate : c.map state with
  | some e =>
    rw [map_ensureStateCacheEntry_of_some hstate]
    apply Keeps.refl
  | none =>
    constructor
    · intro j _
      rw [lookup_ensureStateCacheEntry]
    · intro p e he
      obtain ⟨hmap, hserial⟩ := deref_eq_some.mp he
      use e
      have hne : p.state ≠ state := by
        rintro rfl
        rw [hstate] at hmap
        cases hmap
      rw [deref_eq_some, map_ensureStateCacheEntry_of_none hstate, if_neg hne]
      exact ⟨⟨hmap, hserial⟩, fun _ _ hj => hj⟩

theorem exists_map_ensureStateCacheEntry (c : StateCache S) (state : S) :
  ∃ e, (c.ensureStateCacheEntry state).map state = some e
  := by
  cases hstate : c.map state with
  | some e =>
    use e
    rw [map_ensureStateCacheEntry_of_some hstate, hstate]
  | none =>
    rw [map_ensureStateCacheEntry_of_none hstate, if_pos rfl]
    exact ⟨_, rfl⟩

/-! ### Registration -/

theorem ensureRegistered_spec (h : c.ensureRegistered i = some c')
    (hregistered : (c.lookup i).isRegistered = true → c.Registered i) :
  Keeps i c c' ∧ c'.lookup i = { c.lookup i with isRegistered := true } ∧ c'.Registered i
  := by
  unfold ensureRegistered at h
  dsimp only at h
  split at h
  · rename_i hi
    cases h
    refine ⟨Keeps.refl i c, ?_, hregistered hi⟩
    rw [← hi]
  · obtain ⟨p, hp, h⟩ := Option.bind_eq_some_iff.mp h
    obtain ⟨e, he, h⟩ := Option.bind_eq_some_iff.mp h
    cases h
    obtain ⟨hmap, hserial⟩ := deref_eq_some.mp he
    have hkeeps : Keeps i c (c.setEntry p.state { e with lookups := e.lookups ++ [i] }) :=
      keeps_setEntry hmap rfl fun j _ hj => List.mem_append_left _ hj
    refine ⟨hkeeps.trans (keeps_setLookup _ _ _), lookup_setLookup _ _ _, p,
      { e with lookups := e.lookups ++ [i] }, ?_, ?_, ?_⟩
    · rw [lookup_setLookup]
      exact hp
    · rw [deref_setLookup, deref_eq_some, map_setEntry, if_pos rfl]
      exact ⟨rfl, hserial⟩
    · simp

theorem mem_removeLookup {lookups : List Nat} (hne : j ≠ i) (hj : j ∈ lookups) :
  j ∈ StateCacheEntry.removeLookup lookups i
  := by
  unfold StateCacheEntry.removeLookup
  split
  · rename_i hlast
    obtain ⟨init, rfl⟩ := List.getLast?_eq_some_iff.mp hlast
    rw [List.dropLast_concat]
    simpa [hne] using hj
  · apply (List.mem_erase_of_ne hne).mpr hj

theorem unregister_spec (h : c.unregister i = some c') :
  Keeps i c c' ∧ c'.lookup i = { c.lookup i with isRegistered := false }
  := by
  unfold unregister at h
  dsimp only at h
  split at h
  · rename_i hi
    cases h
    use Keeps.refl i c
    have hfalse : (c.lookup i).isRegistered = false := by simpa using hi
    rw [← hfalse]
  · obtain ⟨p, hp, h⟩ := Option.bind_eq_some_iff.mp h
    obtain ⟨e, he, h⟩ := Option.bind_eq_some_iff.mp h
    cases h
    obtain ⟨hmap, -⟩ := deref_eq_some.mp he
    have hkeeps : Keeps i c (c.setEntry p.state
        { e with lookups := StateCacheEntry.removeLookup e.lookups i }) :=
      keeps_setEntry hmap rfl fun j hj => mem_removeLookup hj
    use hkeeps.trans (keeps_setLookup _ _ _), lookup_setLookup _ _ _

theorem invalidateOldState_spec (h : c.invalidateOldState i = some c') :
  Keeps i c c' ∧ c'.lookup i = { c.lookup i with isRegistered := false, entry := none }
  := by
  obtain ⟨c₁, h₁, h⟩ := Option.bind_eq_some_iff.mp h
  cases h
  obtain ⟨hkeeps, hlookup⟩ := unregister_spec h₁
  use hkeeps.trans (keeps_setLookup _ _ _)
  rw [lookup_setLookup, hlookup]

/-- A lookup which enters a state is registered on the entry of the state. -/
theorem enterState_spec (h : c.enterState i state = some c')
    (hregistered : (c.lookup i).isRegistered = true →
      c.Registered i ∧ (c.lookup i).cachedState = some state ∧
        ∀ p, (c.lookup i).entry = some p → p.state = state) :
  Keeps i c c' ∧ c'.Registered i ∧
    ∃ p, p.state = state ∧ c'.lookup i =
      { c.lookup i with cachedState := some state, entry := some p, isRegistered := true }
  := by
  obtain ⟨e, he⟩ := exists_map_ensureStateCacheEntry c state
  have hpointer : (c.ensureStateCacheEntry state).pointer state = some ⟨state, e.serial⟩ := by
    rw [pointer, he]
    rfl
  unfold enterState at h
  dsimp only at h
  rw [hpointer] at h
  obtain ⟨hkeeps, hlookup, hreg⟩ := ensureRegistered_spec h (by
    rw [lookup_setLookup]
    intro hi
    obtain ⟨⟨p, f, hp, hf, hmem⟩, -, hstate⟩ := hregistered (by simpa using hi)
    obtain ⟨hmap, hserial⟩ := deref_eq_some.mp hf
    rw [hstate p hp] at hmap
    rw [map_ensureStateCacheEntry_of_some hmap] at he ⊢
    rw [hmap] at he
    cases he
    refine ⟨⟨state, e.serial⟩, e, ?_, ?_, hmem⟩
    · rw [lookup_setLookup]
    · rw [deref_setLookup]
      apply deref_eq_some.mpr ⟨hmap, rfl⟩)
  rw [lookup_setLookup, lookup_ensureStateCacheEntry] at hlookup
  refine ⟨?_, hreg, _, rfl, hlookup⟩
  apply (keeps_ensureStateCacheEntry i c state).trans
  apply (keeps_setLookup _ _ _).trans hkeeps

/-! ### The operations of lookups -/

theorem ensureRegistered_operates (hc : c.Coherent i) (h : c.ensureRegistered i = some c') :
  Operates i c c'
  := by
  obtain ⟨hkeeps, hlookup, hreg⟩ := ensureRegistered_spec h hc.registered
  obtain ⟨p, e, hp, he, hmem⟩ := id hreg
  rw [hlookup] at hp
  constructor
  · exact hkeeps
  · apply coherent_of_registered (p := p) hreg (l := c.lookup i)
    rw [hlookup, ← hc.state p hp, ← hp]
  · intro _
    apply hreg.entryPresent
  · rw [hlookup]
  · rw [hlookup]

theorem enterState_operates (h : c.enterState i state = some c')
    (hregistered : (c.lookup i).isRegistered = true →
      c.Registered i ∧ (c.lookup i).cachedState = some state ∧
        ∀ p, (c.lookup i).entry = some p → p.state = state) :
  Operates i c c' ∧ (c'.lookup i).cachedState = some state
  := by
  obtain ⟨hkeeps, hreg, p, rfl, hlookup⟩ := enterState_spec h hregistered
  constructor
  · constructor
    · exact hkeeps
    · apply coherent_of_registered hreg hlookup
    · intro _
      apply hreg.entryPresent
    · rw [hlookup]
    · rw [hlookup]
  · rw [hlookup]

/-- A change leaves the lookup with the state which its expressions give. -/
theorem handleChangeInternal_operates {given : Option S} (hc : c.Coherent i)
    (h : c.handleChangeInternal i given = some c') :
  Operates i c c' ∧ (c'.lookup i).cachedState = c.getState i given
  := by
  unfold handleChangeInternal at h
  dsimp only at h
  split at h
  · rename_i newState hstate
    rw [hstate]
    obtain ⟨c₁, h₁, h⟩ := Option.bind_eq_some_iff.mp h
    split at h₁
    · obtain ⟨hkeeps, hlookup⟩ := invalidateOldState_spec h₁
      obtain ⟨henter, hcached⟩ := enterState_operates h (by
        rw [hlookup]
        rintro ⟨⟩)
      refine ⟨⟨hkeeps.trans henter.keeps, henter.coherent, fun _ => ?_, ?_, ?_⟩, hcached⟩
      · apply henter.entryPresent
        rw [EntryPresent, hlookup]
        rintro p ⟨⟩
      · rw [henter.activeCount, hlookup]
      · rw [henter.stateIsConstant, hlookup]
    · rename_i hsame
      cases h₁
      apply enterState_operates h
      intro hregistered
      obtain ⟨p, e, hp, he, hmem⟩ := hc.registered hregistered
      have hold := hc.state p hp
      have heq : p.state = newState := by
        rw [hold] at hsame
        simpa using hsame
      rw [heq] at hold
      refine ⟨⟨p, e, hp, he, hmem⟩, hold, ?_⟩
      intro q hq
      rw [hp] at hq
      cases hq
      exact heq
  · rename_i hstate
    have hconstant := hc.stateIsConstant_eq_false hstate
    rw [hstate]
    split at h
    · obtain ⟨hkeeps, hlookup⟩ := invalidateOldState_spec h
      rw [lookup_setLookup] at hlookup
      obtain ⟨hcoherent, hpresent⟩ := coherent_of_entry_none (c := c') (i := i)
        (by rw [hlookup]) (by rw [hlookup]) (by
          rw [hlookup]
          intro htrue
          rw [hconstant] at htrue
          cases htrue)
      refine ⟨⟨(keeps_setLookup _ _ _).trans hkeeps, hcoherent, fun _ => hpresent, ?_, ?_⟩, ?_⟩
      · rw [hlookup]
      · rw [hlookup]
      · rw [hlookup]
    · rename_i hold
      cases h
      have hnone : (c.lookup i).cachedState = none := by simpa using hold
      have hsame : c.setLookup i { c.lookup i with cachedState := none } = c := by
        rw [← hnone]
        apply setLookup_self
      rw [hsame]
      use Operates.refl hc

theorem notifyChanged_operates {given : Option S} (hc : c.Coherent i)
    (h : c.notifyChanged i given = some c') :
  Operates i c c' ∧
    (0 < (c.lookup i).activeCount → (c'.lookup i).cachedState = c.getState i given)
  := by
  unfold notifyChanged at h
  split at h
  · obtain ⟨hoperates, hcached⟩ := handleChangeInternal_operates hc h
    use hoperates, fun _ => hcached
  · rename_i hinactive
    cases h
    use Operates.refl hc, fun hactive => absurd hactive hinactive

/-- A lookup which has been notified of changes has the state of the last one. -/
theorem notifyChanged_foldlM_operates {changes : List (Option S)} (hc : c.Coherent i)
    (h : changes.foldlM (fun c change => notifyChanged c i change) c = some c') :
  Operates i c c' ∧ (0 < (c.lookup i).activeCount →
    ∀ last, changes.getLast? = some last → (c'.lookup i).cachedState = c'.getState i last)
  := by
  induction changes generalizing c with
  | nil =>
    cases h
    use Operates.refl hc
    rintro - last ⟨⟩
  | cons change changes ih =>
    rw [List.foldlM_cons] at h
    obtain ⟨c₁, h₁, h⟩ := Option.bind_eq_some_iff.mp h
    obtain ⟨hchange, hcached⟩ := notifyChanged_operates hc h₁
    obtain ⟨hrest, hlast⟩ := ih hchange.coherent h
    use hchange.trans hrest
    intro hactive last hgetLast
    cases changes with
    | nil =>
      cases h
      obtain rfl : change = last := Option.some.inj hgetLast
      rw [hcached hactive]
      dsimp only [getState]
      rw [hchange.stateIsConstant, hcached hactive]
      dsimp only [getState]
      split <;> rfl
    | cons =>
      apply hlast (hchange.activeCount ▸ hactive)
      exact hgetLast

/-- The activation of a lookup which has an entry already must find the state of the entry. -/
theorem handleActivate_operates {given : Option S} (hc : c.Coherent i)
    (hgiven : (c.lookup i).entry ≠ none → (c.lookup i).cachedState = c.getState i given)
    (h : c.handleActivate i given = some c') :
  Operates i c c'
  := by
  unfold handleActivate at h
  dsimp only at h
  split at h
  · rename_i hentry
    rw [← hgiven (by simp [hentry])] at h
    rw [setLookup_self] at h
    apply ensureRegistered_operates hc h
  · rename_i newState hentry hstate
    have hregistered := hc.isRegistered_eq_false hentry
    obtain ⟨henter, -⟩ := enterState_operates h (by
      rw [lookup_setLookup, hregistered]
      rintro ⟨⟩)
    refine ⟨(keeps_setLookup _ _ _).trans henter.keeps, henter.coherent, fun _ => ?_, ?_, ?_⟩
    · apply henter.entryPresent
      intro p hp
      rw [lookup_setLookup, hentry] at hp
      cases hp
    · rw [henter.activeCount, lookup_setLookup]
    · rw [henter.stateIsConstant, lookup_setLookup]
  · rename_i hentry hstate
    have hconstant := hc.stateIsConstant_eq_false hstate
    cases h
    have hlookup := lookup_setLookup c i { c.lookup i with cachedState := c.getState i given }
    obtain ⟨hcoherent, hpresent⟩ := coherent_of_entry_none
      (c := c.setLookup i { c.lookup i with cachedState := c.getState i given }) (i := i)
      (by rw [hlookup, hentry]) (by rw [hlookup, hc.isRegistered_eq_false hentry]) (by
        rw [hlookup]
        intro htrue
        rw [hconstant] at htrue
        cases htrue)
    refine ⟨keeps_setLookup _ _ _, hcoherent, fun _ => hpresent, ?_, ?_⟩
    · rw [hlookup]
    · rw [hlookup]

end Plexil.Intfc.StateCache

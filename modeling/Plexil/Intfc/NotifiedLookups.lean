import Plexil.Intfc.LookupSpec
import Plexil.Intfc.Notification

/-!
# The lookups which are notified

A notification is fair when it calls every lookup once which is registered throughout, and no other
than registered ones.  The loop over the vector is not, when a lookup is unregistered which stands
before the next one to be called, as that is skipped, and when the vector is shorter than it was or
has moved to another buffer before the loop has reached its end.  A lookup is registered twice when
it is registered again while its registration is in progress.
-/

namespace Plexil.Intfc

open LiveIteration

variable {S : Type} [DecidableEq S]

/-! ### What an event does to the registered lookups -/

namespace StateCache

variable {c c' : StateCache S} {i : Nat} {state t : S} {p : EntryPointer S}
variable {e : StateCacheEntryImpl}

theorem lookupsOf_setEntry (c : StateCache S) (state : S) (e : StateCacheEntryImpl) (t : S) :
  (c.setEntry state e).lookupsOf t = if t = state then e.lookups else c.lookupsOf t
  := by
  rw [lookupsOf, map_setEntry]
  by_cases heq : t = state
  · rw [if_pos heq, if_pos heq]
  · rw [if_neg heq, if_neg heq]
    rfl

omit [DecidableEq S] in
theorem lookupsOf_of_map (h : c.map state = some e) :
  c.lookupsOf state = e.lookups
  := by
  rw [lookupsOf, h]

theorem lookupsOf_ensureStateCacheEntry (c : StateCache S) (state t : S) :
  (c.ensureStateCacheEntry state).lookupsOf t = c.lookupsOf t
  := by
  cases hstate : c.map state with
  | some e => rw [map_ensureStateCacheEntry_of_some hstate]
  | none =>
    rw [lookupsOf, map_ensureStateCacheEntry_of_none hstate]
    by_cases heq : t = state
    · rw [if_pos heq, lookupsOf, heq, hstate]
    · rw [if_neg heq]
      rfl

end StateCache

namespace Notifier

variable {s s' : Subscriptions S} {i : Nat} {state t : S}

/-- The lookups of an entry without the one which leaves it. -/
def without (left : Option (Nat × S)) (state : S) (lookups : List Nat) : List Nat :=
  match left with
  | some (i, t) => if state = t then StateCacheEntry.removeLookup lookups i else lookups
  | none => lookups

/-- The lookup which enters the entry. -/
def entering (entered : Option (Nat × S)) (state : S) : List Nat :=
  match entered with
  | some (i, t) => if state = t then [i] else []
  | none => []

theorem lookupsOf_unregister {c c' : StateCache S} (h : c.unregister i = some c') (t : S) :
  c'.lookupsOf t = without
    (if (c.lookup i).isRegistered then (c.lookup i).entry.map fun p => (i, p.state) else none) t
    (c.lookupsOf t)
  := by
  unfold StateCache.unregister at h
  dsimp only at h
  split at h
  · rename_i hregistered
    cases h
    rw [if_neg (by simpa using hregistered)]
    rfl
  · rename_i hregistered
    obtain ⟨p, hp, h⟩ := Option.bind_eq_some_iff.mp h
    obtain ⟨e, he, h⟩ := Option.bind_eq_some_iff.mp h
    cases h
    obtain ⟨hmap, -⟩ := StateCache.deref_eq_some.mp he
    rw [if_pos (by simpa using hregistered), hp]
    change (c.setEntry p.state _).lookupsOf t = _
    rw [StateCache.lookupsOf_setEntry]
    change _ = if t = p.state then _ else _
    split
    · rename_i heq
      rw [heq, StateCache.lookupsOf_of_map hmap]
    · rfl

theorem lookupsOf_invalidateOldState {c c' : StateCache S} (h : c.invalidateOldState i = some c')
    (t : S) :
  c'.lookupsOf t = without
    (if (c.lookup i).isRegistered then (c.lookup i).entry.map fun p => (i, p.state) else none) t
    (c.lookupsOf t)
  := by
  obtain ⟨c₁, h₁, h⟩ := Option.bind_eq_some_iff.mp h
  cases h
  exact lookupsOf_unregister h₁ t

theorem lookupsOf_ensureRegistered (h : s.ensureRegistered i = some s') (t : S) :
  s'.cache.lookupsOf t = s.cache.lookupsOf t ++ entering
    (if (s.cache.lookup i).isRegistered then none
      else (s.cache.lookup i).entry.map fun p => (i, p.state)) t
  := by
  unfold Subscriptions.ensureRegistered at h
  dsimp only at h
  split at h
  · rename_i hregistered
    cases h
    rw [if_pos hregistered]
    exact (List.append_nil _).symm
  · rename_i hregistered
    obtain ⟨p, hp, h⟩ := Option.bind_eq_some_iff.mp h
    obtain ⟨e, he, h⟩ := Option.bind_eq_some_iff.mp h
    cases h
    obtain ⟨hmap, -⟩ := StateCache.deref_eq_some.mp he
    rw [if_neg hregistered, hp]
    change (s.cache.setEntry p.state _).lookupsOf t = _ ++ if t = p.state then _ else _
    rw [StateCache.lookupsOf_setEntry]
    split
    · rename_i heq
      rw [heq, StateCache.lookupsOf_of_map hmap]
    · exact (List.append_nil _).symm

theorem lookupsOf_enterState (h : s.enterState i state = some s') (t : S) :
  s'.cache.lookupsOf t = s.cache.lookupsOf t ++ entering
    (if (s.cache.lookup i).isRegistered then none else some (i, state)) t
  := by
  obtain ⟨e, he⟩ := StateCache.exists_map_ensureStateCacheEntry s.cache state
  have hpointer : (s.cache.ensureStateCacheEntry state).pointer state =
      some ⟨state, e.serial⟩ := by
    rw [StateCache.pointer, he]
    rfl
  unfold Subscriptions.enterState at h
  dsimp only at h
  rw [hpointer] at h
  have hlookups := lookupsOf_ensureRegistered h t
  rw [StateCache.lookup_setLookup, StateCache.lookup_ensureStateCacheEntry] at hlookups
  rw [hlookups]
  congr 1
  exact StateCache.lookupsOf_ensureStateCacheEntry _ _ _

/-- The lookups after an event, given by the lookup which leaves its entry and the one which enters
an entry. -/
def Relists (s : Subscriptions S) (ev : Subscriptions.Event S) (s' : Subscriptions S) : Prop :=
  ∀ t, s'.cache.lookupsOf t =
    without (leaves s ev) t (s.cache.lookupsOf t) ++ entering (enters s ev) t

theorem relists_of_lookupsOf {ev : Subscriptions.Event S} (hleaves : leaves s ev = none)
    (henters : enters s ev = none) (h : s'.cache.lookupsOf = s.cache.lookupsOf) :
  Relists s ev s'
  := by
  intro t
  rw [hleaves, henters, h]
  exact (List.append_nil _).symm

/-- A lookup whose state changes leaves the entry of its old state and enters that of the new one,
unless it is registered there. -/
theorem lookupsOf_handleChangeInternal (h : s.handleChangeInternal i = some s') (t : S) :
  s'.cache.lookupsOf t =
    without
      (if (s.cache.lookup i).cachedState.isSome ∧
          (s.cache.lookup i).cachedState ≠ s.cache.getState i (s.expression i) then
        unregistered s i
      else none) t (s.cache.lookupsOf t) ++
    entering
      ((s.cache.getState i (s.expression i)).bind fun newState =>
        if (s.cache.lookup i).isRegistered ∧
          ¬((s.cache.lookup i).cachedState.isSome ∧
            (s.cache.lookup i).cachedState ≠ some newState) then none
        else some (i, newState)) t
  := by
  unfold Subscriptions.handleChangeInternal at h
  dsimp only at h
  split at h
  · rename_i newState hstate
    rw [hstate, Option.bind_some]
    obtain ⟨c, hc, h⟩ := Option.bind_eq_some_iff.mp h
    rw [lookupsOf_enterState h t]
    dsimp only
    by_cases hold : (s.cache.lookup i).cachedState.isSome = true ∧
        (s.cache.lookup i).cachedState ≠ some newState
    · rw [if_pos (by simpa using hold)] at hc
      obtain ⟨-, hlookup⟩ := StateCache.invalidateOldState_spec hc
      have hregistered : ¬(c.lookup i).isRegistered = true := by
        rw [hlookup]
        exact Bool.false_ne_true
      have hleft : ¬((s.cache.lookup i).isRegistered = true ∧
          ¬((s.cache.lookup i).cachedState.isSome = true ∧
            (s.cache.lookup i).cachedState ≠ some newState)) := fun hnot => hnot.2 hold
      rw [if_neg hregistered, if_pos hold, lookupsOf_invalidateOldState hc t, if_neg hleft]
      rfl
    · rw [if_neg (by simpa using hold)] at hc
      cases hc
      rw [if_neg hold]
      by_cases hregistered : (s.cache.lookup i).isRegistered = true
      · rw [if_pos hregistered, if_pos ⟨hregistered, hold⟩]
        rfl
      · rw [if_neg hregistered, if_neg fun hboth => hregistered hboth.1]
        rfl
  · rename_i hstate
    rw [hstate, Option.bind_none]
    obtain ⟨c, hc, rfl⟩ := Option.map_eq_some_iff.mp h
    change c.lookupsOf t = _ ++ []
    rw [List.append_nil]
    by_cases hold : (s.cache.lookup i).cachedState.isSome = true
    · have hne : (s.cache.lookup i).cachedState ≠ none := Option.isSome_iff_ne_none.mp hold
      rw [if_pos ⟨hold, hne⟩]
      rw [if_pos hold] at hc
      have hlookups := lookupsOf_invalidateOldState hc t
      rw [StateCache.lookup_setLookup] at hlookups
      exact hlookups
    · rw [if_neg fun hboth => hold hboth.1]
      rw [if_neg hold] at hc
      cases hc
      rfl

theorem relists_change {given : Option S} (h : s.change i given = some s') :
  Relists s (.change i given) s'
  := by
  unfold Subscriptions.change at h
  dsimp only at h
  split at h
  · rename_i hempty
    cases h
    apply relists_of_lookupsOf
    · exact if_pos (.inl hempty)
    · exact if_pos (.inl hempty)
    · rfl
  · rename_i hlisteners
    unfold Subscriptions.notifyChanged at h
    split at h
    · rename_i hactive
      have hheard : ¬((s.listeners i).isEmpty = true ∨ (s.cache.lookup i).activeCount = 0) := by
        rintro (hempty | hzero)
        · exact hlisteners hempty
        · exact Nat.ne_of_gt hactive hzero
      intro t
      have hlookups := lookupsOf_handleChangeInternal h t
      rw [Subscriptions.expression_setExpression] at hlookups
      rw [hlookups]
      simp only [leaves, enters, if_neg hheard]
      rfl
    · rename_i hinactive
      have hzero : (s.cache.lookup i).activeCount = 0 := Nat.eq_zero_of_not_pos hinactive
      cases h
      apply relists_of_lookupsOf
      · exact if_pos (.inr hzero)
      · exact if_pos (.inr hzero)
      · rfl

theorem relists_resume (h : s.resume = some s') :
  Relists s .resume s'
  := by
  unfold Subscriptions.resume at h
  split at h
  · contradiction
  · rename_i i calls hcalls
    intro t
    change _ = s.cache.lookupsOf t ++ _
    unfold Subscriptions.handleActivate at h
    simp only at h
    simp only [enters, hcalls]
    split at h
    · rename_i p state hentry
      rw [lookupsOf_ensureRegistered h t]
      simp only [StateCache.lookup_setLookup, hentry]
      rfl
    · rename_i state hentry hstate
      rw [lookupsOf_enterState h t]
      simp only [StateCache.lookup_setLookup, hentry, hstate]
      rfl
    · rename_i hentry hstate
      cases h
      simp only [hentry, hstate]
      split <;> exact (List.append_nil _).symm
  · rename_i i calls hcalls
    cases h
    apply relists_of_lookupsOf
    · rfl
    · simp only [enters, hcalls]
    · rfl

theorem relists_deactivate {c : StateCache S} (h : s.cache.deactivate i = some c) :
  Relists s (.deactivate i) { s with cache := c }
  := by
  unfold StateCache.deactivate at h
  dsimp only at h
  intro t
  change c.lookupsOf t = _ ++ []
  rw [List.append_nil]
  split at h
  · contradiction
  · split at h
    · rename_i hone
      obtain ⟨c₁, h₁, rfl⟩ := Option.map_eq_some_iff.mp h
      rw [StateCache.lookup_setLookup] at h₁
      have hlookups : c₁.lookupsOf t = without (leaves s (.deactivate i)) t
          (s.cache.lookupsOf t) := by
        simp only [leaves]
        by_cases hold : (s.cache.lookup i).cachedState.isSome = true
        · rw [if_pos ⟨hone, hold⟩]
          rw [if_pos hold] at h₁
          have hunregister := lookupsOf_unregister h₁ t
          rw [StateCache.lookup_setLookup] at hunregister
          exact hunregister
        · rw [if_neg fun hboth => hold hboth.2]
          rw [if_neg hold] at h₁
          cases h₁
          rfl
      rw [← hlookups]
      dsimp only
      split <;> rfl
    · rename_i hmany
      cases h
      simp only [leaves]
      rw [if_neg fun hboth => hmany hboth.1]
      rfl

/-- The events of the lookups which a notifier passes on. -/
theorem relists_step [MessageStates S] {ev : Event S} {lev : Subscriptions.Event S}
    (hev : lev ∈ ev.ofLookups) (h : s.step lev = some s') :
  Relists s lev s'
  := by
  cases ev with
  | addListener i listener =>
    cases hev
    obtain ⟨-, heq⟩ := Option.ite_none_right_eq_some.mp h
    cases heq
    apply relists_of_lookupsOf rfl rfl
    unfold Subscriptions.addListener
    split <;> rfl
  | removeListener i listener =>
    cases hev
    obtain ⟨-, heq⟩ := Option.ite_none_right_eq_some.mp h
    cases heq
    exact relists_of_lookupsOf rfl rfl rfl
  | activate i =>
    cases hev
    cases h
    exact relists_of_lookupsOf rfl rfl rfl
  | deactivate i =>
    cases hev
    obtain ⟨-, heq⟩ := Option.ite_none_right_eq_some.mp h
    obtain ⟨c, hc, rfl⟩ := Option.map_eq_some_iff.mp heq
    exact relists_deactivate hc
  | change i given =>
    cases hev
    exact relists_change h
  | resume =>
    cases hev
    exact relists_resume h
  | notify state => contradiction
  | proceed => contradiction

/-! ### Fairness -/

variable {m m' : Notifier S} {left entered : Option (Nat × S)}

/-- What a notification is for, as far as it has come. -/
structure Fair (m : Notifier S) : Prop where
  once : ∀ state, (m.lookups.cache.lookupsOf state).Nodup
  valid : m.overrun = false
  called : ∀ p ∈ m.called, p.2 ∈ m.lookups.cache.lookupsOf p.1
  cursors : ∀ n ∈ m.notifications, n.cursor.Fair (m.lookups.cache.lookupsOf n.state)
  returned : ∀ n ∈ m.returned, ∀ i ∈ n.cursor.throughout, n.cursor.visited.count i = 1

/-- The lookups which a notification is to call are in the vector. -/
def Within (m : Notifier S) : Prop :=
  ∀ n ∈ m.notifications, n.cursor.Within (m.lookups.cache.lookupsOf n.state)

/-- The next lookup is read from the vector as it is. -/
def ReadsNext (m : Notifier S) (n : Notification S) : Prop :=
  n.cursor.index ≠ n.cursor.finish →
    n.buffer = m.buffer n.state ∧ n.cursor.index < (m.lookups.cache.lookupsOf n.state).length

/-- No notification in progress skips a lookup, and no lookup is registered again. -/
def SparesNext (m : Notifier S) (ev : Subscriptions.Event S) : Prop :=
  (∀ p ∈ leaves m.lookups ev, ∀ n ∈ m.notifications, n.state = p.2 →
    n.cursor.Spares (m.lookups.cache.lookupsOf p.2) p.1) ∧
  ∀ p ∈ enters m.lookups ev,
    p.1 ∉ without (leaves m.lookups ev) p.2 (m.lookups.cache.lookupsOf p.2)

/-- What has to be heeded about the events. -/
def Heeds (m : Notifier S) (ev : Event S) : Prop :=
  match ev with
  | .notify _ => True
  | .proceed => ∀ n ∈ m.notifications.head?, m.ReadsNext n
  | ev => ∀ lev ∈ ev.ofLookups, m.SparesNext lev

/-- Every event which happens is heeded. -/
def Heeded [MessageStates S] (grow : Nat → Nat) (m : Notifier S) (ev : Event S) : Prop :=
  (step grow m ev).isSome = true → m.Heeds ev

/-! ### The steps of the lookups -/

theorem without_nodup {lookups : List Nat} (h : lookups.Nodup) (state : S) :
  (without left state lookups).Nodup
  := by
  unfold without
  split
  · split
    · rw [StateCacheEntry.removeLookup_eq h]
      exact h.erase _
    · exact h
  · exact h

theorem nodup_append_entering_iff {lookups : List Nat} (h : lookups.Nodup) :
  (lookups ++ entering entered state).Nodup ↔ ∀ i, entered = some (i, state) → i ∉ lookups
  := by
  rcases entered with - | ⟨i, t⟩
  · refine iff_of_true ?_ (fun i hi => nomatch hi)
    change (lookups ++ []).Nodup
    rwa [List.append_nil]
  · by_cases heq : state = t
    · subst heq
      change (lookups ++ if state = state then [i] else []).Nodup ↔ _
      rw [if_pos rfl, ← List.concat_eq_append, List.nodup_concat]
      constructor
      · rintro ⟨hnot, -⟩ _ ⟨⟩
        exact hnot
      · intro hnot
        exact ⟨hnot i rfl, h⟩
    · refine iff_of_true ?_ ?_
      · change (lookups ++ if state = t then [i] else []).Nodup
        rwa [if_neg heq, List.append_nil]
      · rintro _ ⟨⟩
        contradiction

theorem lose_state (n : Notification S) :
  (n.lose left).state = n.state
  := by
  unfold Notification.lose
  split
  · split <;> rfl
  · rfl

/-- A lookup leaves the entry of a notification. -/
theorem lose_spec (left : Option (Nat × S)) {n : Notification S} {lookups : List Nat}
    (hw : n.cursor.Within lookups)
    (hf : n.cursor.Fair lookups) (h : lookups.Nodup) :
  (n.lose left).cursor.Within (without left n.state lookups) ∧
    ((n.lose left).cursor.Fair (without left n.state lookups) ↔
      ∀ i, left = some (i, n.state) → n.cursor.Spares lookups i)
  := by
  rcases left with - | ⟨i, t⟩
  · exact ⟨hw, iff_of_true hf fun i hi => nomatch hi⟩
  · by_cases heq : n.state = t
    · subst heq
      simp only [Notification.lose, without, if_true]
      rw [StateCacheEntry.removeLookup_eq h]
      refine ⟨hw.erase h i, ?_⟩
      have hspares : (n.cursor.lose i).Fair (lookups.erase i) ↔ n.cursor.Spares lookups i := by
        by_cases hi : i ∈ lookups
        · exact hf.erase_iff hw h hi
        · refine iff_of_true ?_ ?_
          · rw [List.erase_of_not_mem hi]
            intro j hj
            exact hf j (Cursor.mem_lose.mp hj).1
          · intro j hj hindex hlt
            have hlength := List.idxOf_lt_length_of_mem (hw.mem j hj)
            rw [List.idxOf_eq_length hi] at hlt
            omega
      rw [hspares]
      constructor
      · rintro hi _ ⟨⟩
        exact hi
      · intro hi
        exact hi i rfl
    · simp only [Notification.lose, without, if_neg heq]
      refine ⟨hw, iff_of_true hf ?_⟩
      rintro _ ⟨⟩
      contradiction

/-- The lookups are fair after an event exactly if it spares the next lookups to be called. -/
theorem Fair.relist_iff (hf : m.Fair) (hw : m.Within) {lev : Subscriptions.Event S}
    {lookups : Subscriptions S} (h : Relists m.lookups lev lookups) (grow : Nat → Nat) :
  (m.relist grow (leaves m.lookups lev) lookups).Within ∧
    ((m.relist grow (leaves m.lookups lev) lookups).Fair ↔ m.SparesNext lev)
  := by
  have hspec := fun n (hn : n ∈ m.notifications) =>
    lose_spec (leaves m.lookups lev) (hw n hn) (hf.cursors n hn) (hf.once n.state)
  have hnotifications : ∀ n', n' ∈ (m.relist grow (leaves m.lookups lev) lookups).notifications ↔
      ∃ n ∈ m.notifications, n.lose (leaves m.lookups lev) = n' := by
    intro n'
    exact List.mem_map
  constructor
  · intro n' hn'
    obtain ⟨n, hn, rfl⟩ := (hnotifications n').mp hn'
    rw [lose_state]
    change Cursor.Within _ (lookups.cache.lookupsOf n.state)
    rw [h n.state]
    exact (hspec n hn).1.append _
  · constructor
    · intro hfair
      constructor
      · intro p hp n hn hstate
        have hcursor := hfair.cursors _ ((hnotifications _).mpr ⟨n, hn, rfl⟩)
        rw [lose_state] at hcursor
        change Cursor.Fair _ (lookups.cache.lookupsOf n.state) at hcursor
        rw [h n.state, Cursor.fair_append_iff (hspec n hn).1] at hcursor
        rw [← hstate]
        apply (hspec n hn).2.mp hcursor
        rw [hstate]
        exact hp
      · intro p hp
        have honce := hfair.once p.2
        change (lookups.cache.lookupsOf p.2).Nodup at honce
        rw [h p.2, nodup_append_entering_iff (without_nodup (hf.once p.2) p.2)] at honce
        exact honce p.1 hp
    · rintro ⟨hleaves, henters⟩
      constructor
      · intro state
        change (lookups.cache.lookupsOf state).Nodup
        rw [h state, nodup_append_entering_iff (without_nodup (hf.once state) state)]
        intro i hi
        exact henters _ hi
      · exact hf.valid
      · rintro _ ⟨⟩
      · intro n' hn'
        obtain ⟨n, hn, rfl⟩ := (hnotifications n').mp hn'
        rw [lose_state]
        change Cursor.Fair _ (lookups.cache.lookupsOf n.state)
        rw [h n.state, Cursor.fair_append_iff (hspec n hn).1]
        apply (hspec n hn).2.mpr
        intro i hi
        exact hleaves _ hi n hn rfl
      · rintro _ ⟨⟩

/-! ### The loop -/

omit [DecidableEq S] in
/-- The innermost notification goes on fairly exactly if it reads the next lookup from the vector. -/
theorem Fair.advance_iff (hf : ∀ state, (m.lookups.cache.lookupsOf state).Nodup)
    (hvalid : m.overrun = false)
    (hcursors : ∀ n ∈ m.notifications, n.cursor.Fair (m.lookups.cache.lookupsOf n.state))
    (hw : m.Within) {n : Notification S} {rest : List (Notification S)}
    (hn : m.notifications = n :: rest) :
  m.advance.Within ∧ (m.advance.Fair ↔ m.ReadsNext n)
  := by
  have hhead : n ∈ m.notifications := by
    rw [hn]
    exact List.mem_cons_self
  have hrest : ∀ n' ∈ rest, n' ∈ m.notifications := by
    intro n' hn'
    rw [hn]
    exact List.mem_cons_of_mem n hn'
  unfold advance ReadsNext
  rw [hn]
  dsimp only
  split
  · rename_i hend
    refine ⟨fun n' hn' => hw n' (hrest n' hn'), iff_of_true ?_ fun hne => absurd hend hne⟩
    refine ⟨hf, hvalid, ?_, fun n' hn' => hcursors n' (hrest n' hn'), ?_⟩
    · rintro _ ⟨⟩
    · rintro _ ⟨⟩ i hi
      exact (hcursors n hhead).finished (hw n hhead) hend hi
  · rename_i hend
    have hlt : n.cursor.index < n.cursor.finish :=
      Nat.lt_of_le_of_ne (hw n hhead).le hend
    split
    · rename_i hbuffer
      split
      · rename_i i hi
        constructor
        · intro n' hn'
          rcases List.mem_cons.mp hn' with rfl | hn'
          · exact (hw n hhead).visit hlt
          · exact hw n' (hrest n' hn')
        · refine iff_of_true ?_ ?_
          · refine ⟨hf, hvalid, ?_, ?_, ?_⟩
            · rintro _ ⟨⟩
              exact List.mem_of_getElem? hi
            · intro n' hn'
              rcases List.mem_cons.mp hn' with rfl | hn'
              · exact (hcursors n hhead).visit (hf n.state) hi
              · exact hcursors n' (hrest n' hn')
            · rintro _ ⟨⟩
          · intro _
            exact ⟨hbuffer, (List.getElem?_eq_some_iff.mp hi).1⟩
      · rename_i hi
        refine ⟨fun n' hn' => hw n' (hn ▸ hn'), iff_of_false ?_ ?_⟩
        · intro hfair
          have hvalid' := hfair.valid
          contradiction
        · intro hreads
          have hlength := (hreads hend).2
          rw [List.getElem?_eq_none_iff] at hi
          omega
    · rename_i hbuffer
      refine ⟨fun n' hn' => hw n' (hn ▸ hn'), iff_of_false ?_ ?_⟩
      · intro hfair
        have hvalid' := hfair.valid
        contradiction
      · intro hreads
        exact hbuffer (hreads hend).1

omit [DecidableEq S] in
/-- A notification begins with the first lookup of the vector. -/
theorem Fair.notify (hf : m.Fair) (hw : m.Within) (state : S) :
  (m.notify state).Within ∧ (m.notify state).Fair
  := by
  have hcursors : ∀ n ∈ (⟨state, m.buffer state, Cursor.start (m.lookups.cache.lookupsOf state),
      m.lookups.calls.length⟩ : Notification S) :: m.notifications,
      n.cursor.Fair (m.lookups.cache.lookupsOf n.state) ∧
        n.cursor.Within (m.lookups.cache.lookupsOf n.state) := by
    intro n hn
    rcases List.mem_cons.mp hn with rfl | hn
    · exact ⟨Cursor.fair_start _, Cursor.within_start _⟩
    · exact ⟨hf.cursors n hn, hw n hn⟩
  unfold Notifier.notify
  obtain ⟨hwithin, hfair⟩ := Fair.advance_iff (m := { m with
    notifications := ⟨state, m.buffer state, Cursor.start (m.lookups.cache.lookupsOf state),
      m.lookups.calls.length⟩ :: m.notifications }) hf.once hf.valid
    (fun n hn => (hcursors n hn).1) (fun n hn => (hcursors n hn).2) rfl
  refine ⟨hwithin, hfair.mpr fun hne => ⟨rfl, ?_⟩⟩
  exact Nat.pos_of_ne_zero fun hzero => hne hzero.symm

/-- Every step from a fair state leads to a fair one exactly if it is heeded. -/
theorem Fair.step_iff [MessageStates S] {grow : Nat → Nat} {ev : Event S} (hf : m.Fair)
    (hw : m.Within) (h : step grow m ev = some m') :
  m'.Within ∧ (m'.Fair ↔ m.Heeds ev)
  := by
  have hlookups : ∀ (lev : Subscriptions.Event S) lookups, lev ∈ ev.ofLookups →
      m.lookups.step lev = some lookups →
      m' = m.relist grow (leaves m.lookups lev) lookups →
      m'.Within ∧ (m'.Fair ↔ ∀ lev ∈ ev.ofLookups, m.SparesNext lev) := by
    intro lev lookups hlev hstep heq
    obtain ⟨hwithin, hfair⟩ := hf.relist_iff hw (relists_step hlev hstep) grow
    rw [heq]
    refine ⟨hwithin, hfair.trans ⟨fun hspares lev' hlev' => ?_, fun hall => hall lev hlev⟩⟩
    cases Option.mem_unique hlev hlev'
    exact hspares
  have hpass : (ev.ofLookups.bind fun lev => (m.lookups.step lev).map fun lookups =>
      m.relist grow (leaves m.lookups lev) lookups) = some m' →
      m'.Within ∧ (m'.Fair ↔ ∀ lev ∈ ev.ofLookups, m.SparesNext lev) := by
    intro hbind
    obtain ⟨lev, hlev, hmap⟩ := Option.bind_eq_some_iff.mp hbind
    obtain ⟨lookups, hstep, heq⟩ := Option.map_eq_some_iff.mp hmap
    exact hlookups lev lookups hlev hstep heq.symm
  unfold Notifier.step at h
  rw [if_neg (by rw [hf.valid]; exact Bool.false_ne_true)] at h
  cases ev with
  | notify state =>
    obtain ⟨-, heq⟩ := Option.ite_none_right_eq_some.mp h
    cases heq
    obtain ⟨hwithin, hfair⟩ := hf.notify hw state
    exact ⟨hwithin, iff_of_true hfair trivial⟩
  | proceed =>
    dsimp only at h
    split at h
    · rename_i n rest hn
      obtain ⟨-, heq⟩ := Option.ite_none_right_eq_some.mp h
      cases heq
      obtain ⟨hwithin, hfair⟩ := Fair.advance_iff hf.once hf.valid hf.cursors hw hn
      refine ⟨hwithin, hfair.trans ?_⟩
      unfold Heeds
      rw [hn]
      constructor
      · rintro hreads _ ⟨⟩
        exact hreads
      · intro hreads
        exact hreads n rfl
    · contradiction
  | resume =>
    obtain ⟨-, heq⟩ := Option.ite_none_right_eq_some.mp h
    obtain ⟨lookups, hstep, heq⟩ := Option.map_eq_some_iff.mp heq
    exact hlookups .resume lookups rfl hstep heq.symm
  | addListener i listener => exact hpass h
  | removeListener i listener => exact hpass h
  | activate i => exact hpass h
  | deactivate i => exact hpass h
  | change i given => exact hpass h

/-! ### The result -/

/-- No lookup is active.  `constant` are the states of the lookups whose states are constant, and
`given` are those which the expressions of the others give. -/
def initial (constant given : Nat → Option S) : Notifier S where
  lookups :=
    { cache :=
        { map := fun _ => none
          next := 0
          lookup := fun i => ⟨0, (constant i).isSome, constant i, none, false⟩ }
      expression := given
      listeners := fun _ => []
      calls := [] }

omit [DecidableEq S] in
theorem fair_initial (constant given : Nat → Option S) :
  (initial constant given).Fair
  := by
  constructor
  · intro _
    exact List.nodup_nil
  · rfl
  · rintro _ ⟨⟩
  · rintro _ ⟨⟩
  · rintro _ ⟨⟩

/-- All notifications of a run are fair, and every lookup is registered at most once, exactly if all
events are heeded. -/
theorem fair_iff [MessageStates S] (grow : Nat → Nat) (constant given : Nat → Option S)
    (es : List (Event S)) :
  StateMachine.Always (step grow) Fair es (initial constant given) ↔
    StateMachine.Meets (step grow) (Heeded grow) es (initial constant given)
  := by
  apply StateMachine.always_iff_meets_of_always (I := Within)
  · intro m ev m' hw hf hstep
    exact (hf.step_iff hw hstep).1
  · intro m ev hw hf
    constructor
    · intro hheeded m' hstep
      apply (hf.step_iff hw hstep).2.mpr
      apply hheeded
      rw [hstep]
      rfl
    · intro hall hsome
      obtain ⟨m', hstep⟩ := Option.isSome_iff_exists.mp hsome
      exact (hf.step_iff hw hstep).2.mp (hall m' hstep)
  · rintro _ ⟨⟩
  · exact fair_initial constant given

/-- The lookup `1` leaves the entry when the lookup `0` tells it of the change, and the loop runs
past the end of the vector. -/
theorem not_fair :
  ¬ ∀ (grow : Nat → Nat) (constant given : Nat → Option State) (es : List (Event State)),
      StateMachine.Always (step grow) Fair es (initial constant given)
  := by
  intro h
  let es : List (Event State) :=
    [.addListener 1 2, .activate 0, .resume, .resume, .activate 1, .resume, .resume,
      .notify (Subscriptions.stateNamed "x"),
      .change 1 (some (Subscriptions.stateNamed "y")), .resume, .proceed]
  have hrun : (StateMachine.run (step fun n => 2 * n + 1) es
      (initial (fun _ => none) fun _ => some (Subscriptions.stateNamed "x"))).map overrun =
        some true := by
    decide +kernel
  obtain ⟨m, hm, hoverrun⟩ := Option.map_eq_some_iff.mp hrun
  have hvalid := ((h _ _ _ es).of_run hm).valid
  rw [hoverrun] at hvalid
  contradiction

end Notifier

end Plexil.Intfc

import Plexil.Intfc.Registrations

/-!
# The registration of lookups

A lookup listens to its name and its parameters while it has listeners itself.  Before it is
registered its expressions are activated, and when it is registered the interface may be asked
for the value, which is notified to all lookups of the state: both may come back to the lookup
before the call has returned, and what is left to do in a call is kept in a stack.
-/

namespace Plexil.Intfc

/-- A call of a lookup which is under way. -/
inductive LookupCall where
  /-- `handleActivate`, which activates the expressions. -/
  | activate (i : Nat)
  /-- `registerLookup` of the entry, after which the lookup is marked as registered. -/
  | register (i : Nat)
  deriving DecidableEq

def LookupCall.lookup : LookupCall → Nat
  | activate i | register i => i

structure Subscriptions (S : Type) where
  cache : StateCache S
  /-- The state which the name and the parameters of a lookup give. -/
  expression : Nat → Option S
  /-- `m_outgoingListeners` of a lookup. -/
  listeners : Nat → List Nat
  /-- The calls which are under way, the innermost first. -/
  calls : List LookupCall

namespace Subscriptions

variable {S : Type} [DecidableEq S]

/-! ### Operations -/

/-- `ensureRegistered` as far as the call of `registerLookup`. -/
def ensureRegistered (s : Subscriptions S) (i : Nat) : Option (Subscriptions S) :=
  let l := s.cache.lookup i
  if l.isRegistered then some s
  else do
    let p ← l.entry
    let e ← s.cache.deref p
    some { s with
      cache := s.cache.setEntry p.state { e with lookups := e.lookups ++ [i] }
      calls := .register i :: s.calls }

/-- Makes the lookup `i` one of the state, whose entry it gets. -/
def enterState (s : Subscriptions S) (i : Nat) (state : S) : Option (Subscriptions S) :=
  let c := s.cache.ensureStateCacheEntry state
  ensureRegistered { s with
    cache := c.setLookup i
      { c.lookup i with cachedState := some state, entry := c.pointer state } } i

def handleChangeInternal (s : Subscriptions S) (i : Nat) : Option (Subscriptions S) :=
  let c := s.cache
  let old := (c.lookup i).cachedState
  match c.getState i (s.expression i) with
  | some newState =>
    (if old.isSome && old ≠ some newState then c.invalidateOldState i else some c).bind
      fun c => enterState { s with cache := c } i newState
  | none =>
    let c := c.setLookup i { c.lookup i with cachedState := none }
    (if old.isSome then c.invalidateOldState i else some c).map fun c => { s with cache := c }

def notifyChanged (s : Subscriptions S) (i : Nat) : Option (Subscriptions S) :=
  if 0 < (s.cache.lookup i).activeCount then s.handleChangeInternal i else some s

def setExpression (s : Subscriptions S) (i : Nat) (given : Option S) : Subscriptions S :=
  { s with expression := Function.update s.expression i given }

/-- The expressions of the lookup `i` change, or its tolerance does. -/
def change (s : Subscriptions S) (i : Nat) (given : Option S) : Option (Subscriptions S) :=
  let s := s.setExpression i given
  if (s.listeners i).isEmpty then some s else s.notifyChanged i

def activate (s : Subscriptions S) (i : Nat) : Subscriptions S :=
  let l := s.cache.lookup i
  { s with
    cache := s.cache.setLookup i { l with activeCount := l.activeCount + 1 }
    calls := if l.activeCount = 0 then .activate i :: s.calls else s.calls }

/-- `handleActivate` once the expressions are active. -/
def handleActivate (s : Subscriptions S) (i : Nat) : Option (Subscriptions S) :=
  let l := { s.cache.lookup i with cachedState := s.cache.getState i (s.expression i) }
  let s := { s with cache := s.cache.setLookup i l }
  match l.entry, l.cachedState with
  | some _, _ => s.ensureRegistered i
  | none, some state => s.enterState i state
  | none, none => some s

/-- The innermost call goes on to its end. -/
def resume (s : Subscriptions S) : Option (Subscriptions S) :=
  match s.calls with
  | [] => none
  | .activate i :: calls => handleActivate { s with calls := calls } i
  | .register i :: calls =>
    some { s with
      cache := s.cache.setLookup i { s.cache.lookup i with isRegistered := true }
      calls := calls }

def addListener (s : Subscriptions S) (i listener : Nat) : Subscriptions S :=
  if listener ∈ s.listeners i then s
  else { s with listeners := Function.update s.listeners i (s.listeners i ++ [listener]) }

def removeListener (s : Subscriptions S) (i listener : Nat) : Subscriptions S :=
  { s with listeners := Function.update s.listeners i ((s.listeners i).erase listener) }

/-! ### The machine -/

inductive Event (S : Type) where
  | addListener (i listener : Nat)
  | removeListener (i listener : Nat)
  | activate (i : Nat)
  | deactivate (i : Nat)
  | change (i : Nat) (given : Option S)
  | resume
  | lookupReturn (state : S) (val : Value)
  | setUnknown (state : S)
  | assignMessageHandle (msg : Message) (handle : StringValue)
  | releaseMessageHandle (handle : StringValue)

/-- The executive deactivates lookups, and the listeners are added and removed, when no call is
under way. -/
def step [MessageStates S] (s : Subscriptions S) : Event S → Option (Subscriptions S)
  | .addListener i listener => if s.calls = [] then some (s.addListener i listener) else none
  | .removeListener i listener => if s.calls = [] then some (s.removeListener i listener) else none
  | .activate i => some (s.activate i)
  | .deactivate i =>
    if s.calls = [] then (s.cache.deactivate i).map fun c => { s with cache := c } else none
  | .change i given => s.change i given
  | .resume => s.resume
  | .lookupReturn state val => (s.cache.lookupReturn state val).map fun c => { s with cache := c }
  | .setUnknown state => (s.cache.setUnknown state).map fun c => { s with cache := c }
  | .assignMessageHandle msg handle =>
    (s.cache.assignMessageHandle msg handle).map fun c => { s with cache := c }
  | .releaseMessageHandle handle =>
    (s.cache.releaseMessageHandle handle).map fun c => { s with cache := c }

/-- No lookup is active yet. -/
def Init (s : Subscriptions S) : Prop :=
  s.cache.Init ∧ s.calls = []

/-- The current state of a lookup, when it is known. -/
def currentState (s : Subscriptions S) (i : Nat) : Option S :=
  s.cache.getState i (s.expression i)

/-- A lookup which is not about to be activated is registered once on the entry of its current
state while it is active and the state is known, and on no other entry. -/
def RegisteredOnce (s : Subscriptions S) : Prop :=
  ∀ i, .activate i ∉ s.calls → ∀ state, s.cache.registrations i state =
    if 0 < (s.cache.lookup i).activeCount ∧ s.currentState i = some state then 1 else 0

/-- The change is notified to an active lookup, and not while the lookup is being registered. -/
def Heard (s : Subscriptions S) : Event S → Prop
  | .change i given => 0 < (s.cache.lookup i).activeCount →
      if s.listeners i = [] then
        s.cache.getState i given = s.currentState i ∨ .activate i ∈ s.calls
      else .register i ∉ s.calls
  | _ => True

instance (s : Subscriptions S) (ev : Event S) : Decidable (s.Heard ev) := by
  unfold Heard
  cases ev <;> infer_instance

/-! ### The settled cache -/

/-- The cache as it is when the lookups which are being registered are marked as registered. -/
def settle (calls : List LookupCall) (c : StateCache S) : StateCache S :=
  { c with
    lookup := fun i =>
      if .register i ∈ calls then { c.lookup i with isRegistered := true } else c.lookup i }

def settled (s : Subscriptions S) : StateCache S := settle s.calls s.cache

omit [DecidableEq S] in
@[simp] theorem expression_setExpression (s : Subscriptions S) (i : Nat) (given : Option S) :
  (s.setExpression i given).expression i = given
  := by
  apply Function.update_self

section Settle

variable {calls : List LookupCall} {c : StateCache S} {i : Nat} {s s' : Subscriptions S}

omit [DecidableEq S]

@[simp] theorem settle_nil (c : StateCache S) :
  settle [] c = c
  := rfl

@[simp] theorem settle_activate (calls : List LookupCall) (i : Nat) (c : StateCache S) :
  settle (.activate i :: calls) c = settle calls c
  := by
  simp [settle]

theorem settle_lookup (h : .register i ∉ calls) :
  (settle calls c).lookup i = c.lookup i
  := if_neg h

@[simp] theorem activeCount_settle (calls : List LookupCall) (c : StateCache S) (i : Nat) :
  ((settle calls c).lookup i).activeCount = (c.lookup i).activeCount
  := by
  unfold settle
  dsimp only
  split <;> rfl

@[simp] theorem cachedState_settle (calls : List LookupCall) (c : StateCache S) (i : Nat) :
  ((settle calls c).lookup i).cachedState = (c.lookup i).cachedState
  := by
  unfold settle
  dsimp only
  split <;> rfl

@[simp] theorem stateIsConstant_settle (calls : List LookupCall) (c : StateCache S) (i : Nat) :
  ((settle calls c).lookup i).stateIsConstant = (c.lookup i).stateIsConstant
  := by
  unfold settle
  dsimp only
  split <;> rfl

@[simp] theorem entry_settle (calls : List LookupCall) (c : StateCache S) (i : Nat) :
  ((settle calls c).lookup i).entry = (c.lookup i).entry
  := by
  unfold settle
  dsimp only
  split <;> rfl

@[simp] theorem getState_settle (calls : List LookupCall) (c : StateCache S) (i : Nat)
    (given : Option S) :
  (settle calls c).getState i given = c.getState i given
  := by
  simp only [StateCache.getState, stateIsConstant_settle, cachedState_settle]

theorem settle_setLookup (h : .register i ∉ calls) (l : LookupImpl S) :
  settle calls (c.setLookup i l) = (settle calls c).setLookup i l
  := by
  unfold settle StateCache.setLookup
  congr 1
  funext j
  obtain rfl | hj := eq_or_ne j i
  · simp [h]
  · simp [hj]

/-- The lookup is marked as registered in the settled cache when the call begins. -/
theorem settle_register (calls : List LookupCall) (i : Nat) (c : StateCache S) :
  settle (.register i :: calls) c =
    (settle calls c).setLookup i { (settle calls c).lookup i with isRegistered := true }
  := by
  unfold settle StateCache.setLookup
  congr 1
  funext j
  obtain rfl | hj := eq_or_ne j i
  · simp only [List.mem_cons, true_or, if_true, Function.update_self]
    split <;> rfl
  · simp [hj]

/-- Nothing changes in the settled cache when the lookup is marked. -/
theorem settle_marked (calls : List LookupCall) (i : Nat) (c : StateCache S) :
  settle calls (c.setLookup i { c.lookup i with isRegistered := true }) =
    settle (.register i :: calls) c
  := by
  unfold settle StateCache.setLookup
  congr 1
  funext j
  obtain rfl | hj := eq_or_ne j i
  · simp
  · simp [hj]

theorem settle_setActiveCount (calls : List LookupCall) (i n : Nat) (c : StateCache S) :
  settle calls (c.setLookup i { c.lookup i with activeCount := n }) =
    (settle calls c).setLookup i { (settle calls c).lookup i with activeCount := n }
  := by
  unfold settle StateCache.setLookup
  congr 1
  funext j
  obtain rfl | hj := eq_or_ne j i
  · simp only [Function.update_self]
    split <;> rfl
  · simp [hj]

variable [DecidableEq S]

theorem settle_ensureStateCacheEntry (calls : List LookupCall) (c : StateCache S) (state : S) :
  settle calls (c.ensureStateCacheEntry state) = (settle calls c).ensureStateCacheEntry state
  := by
  unfold StateCache.ensureStateCacheEntry
  change _ = if (c.map state).isSome then _ else _
  split <;> rfl

theorem unregister_settle (h : .register i ∉ calls) :
  (settle calls c).unregister i = (c.unregister i).map (settle calls)
  := by
  unfold StateCache.unregister
  rw [settle_lookup h]
  dsimp only
  split
  · rfl
  · cases (c.lookup i).entry with
    | none => rfl
    | some p =>
      change ((c.deref p).bind _) = ((c.deref p).bind _).map (settle calls)
      cases c.deref p with
      | none => rfl
      | some e =>
        simp only [Option.bind_some, Option.map_some, settle_setLookup h]
        rfl

theorem invalidateOldState_settle (h : .register i ∉ calls) :
  (settle calls c).invalidateOldState i = (c.invalidateOldState i).map (settle calls)
  := by
  unfold StateCache.invalidateOldState
  rw [unregister_settle h]
  cases c.unregister i with
  | none => rfl
  | some c₁ =>
    change some ((settle calls c₁).setLookup i _) = some (settle calls (c₁.setLookup i _))
    rw [settle_setLookup h, settle_lookup h]

/-- In the settled cache the whole of `ensureRegistered` is done when `registerLookup` is
called. -/
theorem ensureRegistered_settled (h : .register i ∉ s.calls) :
  s.settled.ensureRegistered i = (s.ensureRegistered i).map settled
  := by
  unfold StateCache.ensureRegistered ensureRegistered settled
  rw [settle_lookup h]
  dsimp only
  split
  · rfl
  · simp only [Option.bind_eq_bind, Option.map_bind]
    congr 1
    funext p
    change ((s.cache.deref p).bind _) = ((s.cache.deref p).bind _).map _
    rw [Option.map_bind]
    congr 1
    funext e
    simp only [Function.comp_apply, Option.map_some, settle_register]
    congr 2
    simp only [activeCount_settle, stateIsConstant_settle, cachedState_settle, entry_settle]
    rfl

theorem enterState_settled (h : .register i ∉ s.calls) (state : S) :
  s.settled.enterState i state = (s.enterState i state).map settled
  := by
  have hensure := settle_ensureStateCacheEntry s.calls s.cache state
  refine Eq.trans ?_ (ensureRegistered_settled (s := { s with
    cache := (s.cache.ensureStateCacheEntry state).setLookup i
      { (s.cache.ensureStateCacheEntry state).lookup i with
        cachedState := some state
        entry := (s.cache.ensureStateCacheEntry state).pointer state } }) h)
  unfold StateCache.enterState settled
  dsimp only
  rw [settle_setLookup h, ← hensure, settle_lookup h]
  rfl

theorem handleChangeInternal_settled (h : .register i ∉ s.calls) :
  s.settled.handleChangeInternal i (s.expression i) =
    (s.handleChangeInternal i).map settled
  := by
  unfold StateCache.handleChangeInternal handleChangeInternal settled
  simp only [getState_settle, cachedState_settle]
  cases s.cache.getState i (s.expression i) with
  | some newState =>
    dsimp only
    split
    · rw [invalidateOldState_settle h]
      cases s.cache.invalidateOldState i with
      | none => rfl
      | some c => exact enterState_settled (s := { s with cache := c }) h newState
    · exact enterState_settled h newState
  | none =>
    dsimp only
    rw [settle_lookup h, ← settle_setLookup h]
    split
    · rw [invalidateOldState_settle h, Option.map_map]
      rfl
    · rfl

theorem handleActivate_settled (h : .register i ∉ s.calls) :
  s.settled.handleActivate i (s.expression i) = (s.handleActivate i).map settled
  := by
  have hset := settle_setLookup h (c := s.cache)
    { s.cache.lookup i with cachedState := s.cache.getState i (s.expression i) }
  unfold StateCache.handleActivate handleActivate settled
  simp only [getState_settle, settle_lookup h]
  rw [← hset]
  dsimp only
  cases hentry : (s.cache.lookup i).entry with
  | some p => exact ensureRegistered_settled (s := { s with cache := s.cache.setLookup i _ }) h
  | none =>
    cases hstate : s.cache.getState i (s.expression i) with
    | some state =>
      exact enterState_settled (s := { s with cache := s.cache.setLookup i _ }) h state
    | none => rfl

/-- An operation of the lookup `i` makes at most one call. -/
structure Pushes (i : Nat) (s s' : Subscriptions S) : Prop where
  expression : s'.expression = s.expression
  listeners : s'.listeners = s.listeners
  calls : s'.calls = s.calls ∨ s'.calls = .register i :: s.calls

theorem ensureRegistered_pushes (h : s.ensureRegistered i = some s') :
  Pushes i s s'
  := by
  unfold ensureRegistered at h
  dsimp only at h
  split at h
  · cases h
    exact ⟨rfl, rfl, .inl rfl⟩
  · obtain ⟨p, -, h⟩ := Option.bind_eq_some_iff.mp h
    obtain ⟨e, -, h⟩ := Option.bind_eq_some_iff.mp h
    cases h
    exact ⟨rfl, rfl, .inr rfl⟩

theorem enterState_pushes {state : S} (h : s.enterState i state = some s') :
  Pushes i s s'
  := by
  obtain ⟨hexpression, hlisteners, hcalls⟩ := ensureRegistered_pushes h
  exact ⟨hexpression, hlisteners, hcalls⟩

theorem handleChangeInternal_pushes (h : s.handleChangeInternal i = some s') :
  Pushes i s s'
  := by
  unfold handleChangeInternal at h
  dsimp only at h
  split at h
  · obtain ⟨c, -, h⟩ := Option.bind_eq_some_iff.mp h
    obtain ⟨hexpression, hlisteners, hcalls⟩ := enterState_pushes h
    exact ⟨hexpression, hlisteners, hcalls⟩
  · obtain ⟨c, -, rfl⟩ := Option.map_eq_some_iff.mp h
    exact ⟨rfl, rfl, .inl rfl⟩

theorem handleActivate_pushes (h : s.handleActivate i = some s') :
  Pushes i s s'
  := by
  unfold handleActivate at h
  dsimp only at h
  split at h
  · obtain ⟨hexpression, hlisteners, hcalls⟩ := ensureRegistered_pushes h
    exact ⟨hexpression, hlisteners, hcalls⟩
  · obtain ⟨hexpression, hlisteners, hcalls⟩ := enterState_pushes h
    exact ⟨hexpression, hlisteners, hcalls⟩
  · cases h
    exact ⟨rfl, rfl, .inl rfl⟩

omit [DecidableEq S] in
theorem Pushes.mem_calls (h : Pushes i s s') {call : LookupCall} :
  call ∈ s'.calls → call = .register i ∨ call ∈ s.calls
  := by
  intro hcall
  obtain heq | heq := h.calls
  · right
    rwa [heq] at hcall
  · rw [heq] at hcall
    exact List.mem_cons.mp hcall

omit [DecidableEq S] in
theorem Pushes.mem_calls_iff (h : Pushes i s s') {call : LookupCall} (hcall : call ≠ .register i) :
  call ∈ s'.calls ↔ call ∈ s.calls
  := by
  obtain heq | heq := h.calls
  · rw [heq]
  · rw [heq, List.mem_cons]
    exact or_iff_right hcall

end Settle

/-! ### The invariant -/

/-- What the lookup `i` has at all times: it is active while a call of it is under way, and
registered in the settled cache exactly when its state is known, unless it is about to be
activated. -/
structure ConsistentAt (s : Subscriptions S) (i : Nat) : Prop where
  behaved : s.settled.WellBehaved i
  listed : s.settled.Listed i
  active : ∀ call ∈ s.calls, call.lookup = i → 0 < (s.settled.lookup i).activeCount
  tracks : 0 < (s.settled.lookup i).activeCount → .activate i ∉ s.calls →
    (s.settled.lookup i).cachedState = s.settled.getState i (s.expression i) ∧
      (s.settled.lookup i).isRegistered = (s.settled.lookup i).cachedState.isSome
  activating : .activate i ∈ s.calls → (s.settled.lookup i).entry ≠ none →
    (s.settled.lookup i).cachedState = s.settled.getState i (s.expression i) ∧
      ((s.settled.lookup i).stateIsConstant = true ∨ s.listeners i ≠ [])

/-- Within a call of a lookup there is no other one, but that it may be registered while it is
activated. -/
def Nested (calls : List LookupCall) : Prop :=
  calls.Pairwise fun call outer => call.lookup = outer.lookup →
    call = .register call.lookup ∧ outer = .activate outer.lookup

structure Consistent (s : Subscriptions S) : Prop where
  at' : ∀ i, s.ConsistentAt i
  nested : Nested s.calls

section Consistent

variable {s s' : Subscriptions S} {i j : Nat} {c' : StateCache S}

omit [DecidableEq S] in
theorem ConsistentAt.frame (hs : s.ConsistentAt j) (hbehaved : s'.settled.WellBehaved j)
    (hlisted : s'.settled.Listed j) (hlookup : s'.settled.lookup j = s.settled.lookup j)
    (hexpression : s'.expression j = s.expression j) (hlisteners : s'.listeners j = s.listeners j)
    (hcalls : ∀ call, call.lookup = j → (call ∈ s'.calls ↔ call ∈ s.calls)) :
  s'.ConsistentAt j
  := by
  constructor
  · exact hbehaved
  · exact hlisted
  · intro call hcall heq
    rw [hlookup]
    exact hs.active call ((hcalls call heq).mp hcall) heq
  · rw [hcalls (.activate j) rfl, StateCache.getState, hlookup, hexpression]
    exact hs.tracks
  · rw [hcalls (.activate j) rfl, StateCache.getState, hlookup, hexpression, hlisteners]
    exact hs.activating

omit [DecidableEq S] in
/-- An operation of the lookup `i`, which does not concern the others. -/
theorem Consistent.operate (hs : s.Consistent) (hkeeps : StateCache.Keeps i s.settled s'.settled)
    (hrelists : StateCache.Relists i s.settled s'.settled)
    (hexpression : ∀ j, j ≠ i → s'.expression j = s.expression j)
    (hlisteners : ∀ j, j ≠ i → s'.listeners j = s.listeners j)
    (hcalls : ∀ call, call.lookup ≠ i → (call ∈ s'.calls ↔ call ∈ s.calls))
    (hi : s'.ConsistentAt i) (hnested : Nested s'.calls) :
  s'.Consistent
  := by
  refine ⟨fun j => ?_, hnested⟩
  obtain rfl | hj := eq_or_ne j i
  · exact hi
  · apply (hs.at' j).frame
    · exact hkeeps.wellBehaved hj (hs.at' j).behaved
    · exact hrelists.listed hkeeps hj (hs.at' j).listed
    · exact hkeeps.lookup j hj
    · exact hexpression j hj
    · exact hlisteners j hj
    · intro call hcall
      apply hcalls
      rw [hcall]
      exact hj

omit [DecidableEq S] in
theorem Nested.pushes (hnested : Nested s.calls) (h : Pushes i s s')
    (hregister : .register i ∉ s.calls) :
  Nested s'.calls
  := by
  obtain heq | heq := h.calls
  · rwa [heq]
  · rw [heq]
    apply List.Pairwise.cons _ hnested
    intro outer houter hlookup
    use rfl
    cases outer with
    | activate j => rfl
    | register j =>
      cases hlookup
      contradiction

/-- A change of the state which is notified to the lookup. -/
theorem Consistent.handleChangeInternal {given : Option S} (hs : s.Consistent)
    (hactive : 0 < (s.settled.lookup i).activeCount) (hregister : .register i ∉ s.calls)
    (hlisteners : s.listeners i ≠ [])
    (h : (s.setExpression i given).handleChangeInternal i = some s') :
  s'.Consistent
  := by
  have hcoherent := (hs.at' i).behaved.toCoherent
  have hsettled : s.settled.handleChangeInternal i given = some s'.settled := by
    have := handleChangeInternal_settled (s := s.setExpression i given) hregister
    rw [h, expression_setExpression] at this
    exact this
  obtain ⟨hoperates, hcached⟩ := StateCache.handleChangeInternal_operates hcoherent hsettled
  obtain ⟨hrelists, hlisted, hregistered⟩ :=
    StateCache.handleChangeInternal_lists hcoherent (hs.at' i).listed hsettled
  have hpushes := handleChangeInternal_pushes h
  have hactive' : 0 < (s'.settled.lookup i).activeCount := by rwa [hoperates.activeCount]
  have htracks : (s'.settled.lookup i).cachedState =
      s'.settled.getState i (s'.expression i) := by
    rw [hpushes.expression, expression_setExpression]
    exact StateCache.cachedState_eq_getState hoperates.stateIsConstant hcached
  apply hs.operate hoperates.keeps hrelists
  · intro j hj
    rw [hpushes.expression]
    exact Function.update_of_ne hj given s.expression
  · intro j _
    rw [hpushes.listeners]
    rfl
  · intro call hcall
    apply hpushes.mem_calls_iff
    rintro rfl
    exact hcall rfl
  · constructor
    · exact ⟨hoperates.coherent, fun hinactive => absurd hinactive hactive'.ne'⟩
    · exact hlisted
    · exact fun _ _ _ => hactive'
    · exact fun _ _ => ⟨htracks, hregistered⟩
    · intro _ _
      rw [hpushes.listeners]
      exact ⟨htracks, .inr hlisteners⟩
  · exact Nested.pushes (s := s.setExpression i given) hs.nested hpushes hregister

omit [DecidableEq S] in
theorem Consistent.not_mem_calls (hs : s.Consistent)
    (hinactive : (s.settled.lookup i).activeCount = 0) {call : LookupCall} (hcall : call.lookup = i) :
  call ∉ s.calls
  := by
  intro hmem
  exact absurd hinactive ((hs.at' i).active call hmem hcall).ne'

/-- A change of the expressions. -/
theorem Consistent.change {given : Option S} (hs : s.Consistent) (hheard : s.Heard (.change i given))
    (h : s.change i given = some s') :
  s'.Consistent
  := by
  have silent : (0 < (s.settled.lookup i).activeCount → s.listeners i = [] ∧
      (s.settled.getState i given = s.settled.getState i (s.expression i) ∨
        .activate i ∈ s.calls)) →
      (s.setExpression i given).Consistent := by
    intro hsilent
    refine hs.operate (StateCache.Keeps.refl i s.settled) (fun _ _ _ => rfl) ?_ ?_ ?_ ?_ ?_
    · intro j hj
      exact Function.update_of_ne hj given s.expression
    · exact fun _ _ => rfl
    · exact fun _ _ => Iff.rfl
    · constructor
      · exact (hs.at' i).behaved
      · exact (hs.at' i).listed
      · exact (hs.at' i).active
      · intro hactive hcall
        obtain ⟨-, hsame | hcall'⟩ := hsilent hactive
        · rw [expression_setExpression]
          change (s.settled.lookup i).cachedState = s.settled.getState i given ∧ _
          rw [hsame]
          exact (hs.at' i).tracks hactive hcall
        · contradiction
      · intro hcall hentry
        obtain ⟨hcached, hheard⟩ := (hs.at' i).activating hcall hentry
        have hactive := (hs.at' i).active _ hcall rfl
        refine ⟨?_, hheard⟩
        obtain hconstant | hlisteners := hheard
        · change (s.settled.lookup i).cachedState = s.settled.getState i _
          rw [StateCache.getState, if_pos hconstant]
        · exact absurd (hsilent hactive).1 hlisteners
    · exact hs.nested
  unfold Subscriptions.change at h
  dsimp only at h
  split at h
  · rename_i hempty
    have hlisteners : s.listeners i = [] := List.isEmpty_iff.mp hempty
    cases h
    apply silent
    intro hactive
    rw [settled, activeCount_settle] at hactive
    have hheard := hheard hactive
    rw [if_pos hlisteners] at hheard
    refine ⟨hlisteners, ?_⟩
    rw [settled, getState_settle, getState_settle]
    exact hheard
  · rename_i hnonempty
    have hlisteners : s.listeners i ≠ [] := fun hempty => hnonempty (List.isEmpty_iff.mpr hempty)
    unfold notifyChanged at h
    split at h
    · rename_i hactive
      have hheard := hheard hactive
      rw [if_neg hlisteners] at hheard
      apply hs.handleChangeInternal _ hheard hlisteners h
      rw [settled, activeCount_settle]
      exact hactive
    · rename_i hactive
      cases h
      apply silent
      intro hactive'
      rw [settled, activeCount_settle] at hactive'
      contradiction

omit [DecidableEq S] in
theorem settled_activate (s : Subscriptions S) (i : Nat) :
  (s.activate i).settled = s.settled.setLookup i
    { s.settled.lookup i with activeCount := (s.settled.lookup i).activeCount + 1 }
  := by
  unfold settled activate
  dsimp only
  rw [activeCount_settle, ← settle_setActiveCount]
  split
  · exact settle_activate s.calls i _
  · rfl

omit [DecidableEq S] in
/-- The first activation is followed by `handleActivate`. -/
theorem mem_calls_activate (s : Subscriptions S) (i : Nat) (call : LookupCall) :
  call ∈ (s.activate i).calls ↔
    (s.settled.lookup i).activeCount = 0 ∧ call = .activate i ∨ call ∈ s.calls
  := by
  rw [settled, activeCount_settle]
  unfold activate
  dsimp only
  split
  · rename_i hzero
    rw [List.mem_cons, and_iff_right hzero]
  · rename_i hnonzero
    rw [or_iff_right]
    rintro ⟨hzero, -⟩
    contradiction

omit [DecidableEq S] in
theorem Consistent.activate (hs : s.Consistent) (i : Nat) :
  (s.activate i).Consistent
  := by
  have hsettled := settled_activate s i
  have hlookup : (s.activate i).settled.lookup i = { s.settled.lookup i with
      activeCount := (s.settled.lookup i).activeCount + 1 } := by
    rw [hsettled, StateCache.lookup_setLookup]
  have hactive : 0 < ((s.activate i).settled.lookup i).activeCount := by
    rw [hlookup]
    apply Nat.succ_pos
  have hgetState : ∀ given, (s.activate i).settled.getState i given =
      s.settled.getState i given := by
    intro given
    rw [StateCache.getState, StateCache.getState, hlookup]
  apply hs.operate (i := i)
  · rw [hsettled]
    apply StateCache.keeps_setLookup
  · rw [hsettled]
    exact fun _ _ _ => rfl
  · exact fun _ _ => rfl
  · exact fun _ _ => rfl
  · intro call hcall
    rw [mem_calls_activate, or_iff_right]
    rintro ⟨-, rfl⟩
    exact hcall rfl
  · constructor
    · refine ⟨?_, fun hinactive => absurd hinactive hactive.ne'⟩
      rw [hsettled]
      exact (hs.at' i).behaved.toCoherent.setActiveCount _
    · rw [hsettled]
      exact (hs.at' i).listed.setLookup rfl fun _ => rfl
    · exact fun _ _ _ => hactive
    · intro _ hcall
      rw [hgetState, hlookup]
      rw [mem_calls_activate, not_or] at hcall
      apply (hs.at' i).tracks _ hcall.2
      apply Nat.pos_of_ne_zero
      intro hzero
      exact hcall.1 ⟨hzero, rfl⟩
    · intro hcall hentry
      rw [hgetState, hlookup] at *
      obtain ⟨hzero, -⟩ | hcall := (mem_calls_activate s i _).mp hcall
      · have hregistered := (hs.at' i).behaved.inactive hzero
        refine ⟨(hs.at' i).behaved.toCoherent.getState_eq hregistered hentry, .inl ?_⟩
        exact (hs.at' i).behaved.unregistered hregistered hentry
      · exact (hs.at' i).activating hcall hentry
  · unfold Subscriptions.activate
    dsimp only
    split
    · rename_i hzero
      apply List.Pairwise.cons _ hs.nested
      intro outer houter hlookup'
      rw [← activeCount_settle s.calls] at hzero
      exact absurd houter (hs.not_mem_calls hzero hlookup'.symm)
    · exact hs.nested

/-- The innermost call, which activates the lookup, goes on. -/
theorem Consistent.handleActivate {calls : List LookupCall} (hs : s.Consistent)
    (hcalls : s.calls = .activate i :: calls)
    (h : { s with calls := calls }.handleActivate i = some s') :
  s'.Consistent
  := by
  have hnested := hs.nested
  rw [hcalls] at hnested
  obtain ⟨houter, hnested⟩ := List.pairwise_cons.mp hnested
  have habsent : ∀ call ∈ calls, call.lookup ≠ i := by
    intro call hcall hlookup
    obtain ⟨heq, -⟩ := houter call hcall hlookup.symm
    cases heq
  have hregister : .register i ∉ calls := fun hcall => habsent _ hcall rfl
  have hsettled₀ : settled { s with calls := calls } = s.settled := by
    unfold settled
    rw [hcalls, settle_activate]
  have hsettled : s.settled.handleActivate i (s.expression i) = some s'.settled := by
    have := handleActivate_settled (s := { s with calls := calls }) hregister
    rw [h, hsettled₀] at this
    exact this
  have hcall : .activate i ∈ s.calls := by
    rw [hcalls]
    exact List.mem_cons_self
  have hcoherent := (hs.at' i).behaved.toCoherent
  have hgiven := fun hentry => ((hs.at' i).activating hcall hentry).1
  have hoperates := StateCache.handleActivate_operates hcoherent hgiven hsettled
  obtain ⟨hrelists, hlisted, hregistered, hcached⟩ :=
    StateCache.handleActivate_lists hcoherent (hs.at' i).listed hgiven hsettled
  have hpushes := handleActivate_pushes h
  have hactive : 0 < (s'.settled.lookup i).activeCount := by
    rw [hoperates.activeCount]
    exact (hs.at' i).active _ hcall rfl
  apply hs.operate hoperates.keeps hrelists
  · intro j _
    rw [hpushes.expression]
  · intro j _
    rw [hpushes.listeners]
  · intro call hlookup
    have hne : call ≠ .register i := by
      rintro rfl
      exact hlookup rfl
    rw [hpushes.mem_calls_iff hne, hcalls, List.mem_cons, or_iff_right]
    rintro rfl
    exact hlookup rfl
  · constructor
    · exact ⟨hoperates.coherent, fun hinactive => absurd hinactive hactive.ne'⟩
    · exact hlisted
    · exact fun _ _ _ => hactive
    · intro _ _
      rw [hpushes.expression]
      exact ⟨StateCache.cachedState_eq_getState hoperates.stateIsConstant hcached, hregistered⟩
    · intro hcall'
      obtain heq | hcall' := hpushes.mem_calls hcall'
      · cases heq
      · exact absurd rfl (habsent _ hcall')
  · exact Nested.pushes (s := { s with calls := calls }) hnested hpushes hregister

omit [DecidableEq S] in
/-- The innermost call, which has registered the lookup, returns. -/
theorem Consistent.markRegistered {calls : List LookupCall} (hs : s.Consistent)
    (hcalls : s.calls = .register i :: calls) :
  Consistent { s with
    cache := s.cache.setLookup i { s.cache.lookup i with isRegistered := true }
    calls := calls }
  := by
  have hnested := hs.nested
  rw [hcalls] at hnested
  have hsettled : settled { s with
      cache := s.cache.setLookup i { s.cache.lookup i with isRegistered := true }
      calls := calls } = s.settled := by
    unfold settled
    dsimp only
    rw [settle_marked, hcalls]
  have hmem : ∀ call ∈ calls, call ∈ s.calls := by
    intro call hcall
    rw [hcalls]
    exact List.mem_cons_of_mem _ hcall
  refine ⟨fun j => ?_, (List.pairwise_cons.mp hnested).2⟩
  constructor
  · rw [hsettled]
    exact (hs.at' j).behaved
  · rw [hsettled]
    exact (hs.at' j).listed
  · rw [hsettled]
    exact fun call hcall => (hs.at' j).active call (hmem call hcall)
  · rw [hsettled]
    intro hactive hcall
    apply (hs.at' j).tracks hactive
    rw [hcalls]
    simpa using hcall
  · rw [hsettled]
    exact fun hcall => (hs.at' j).activating (hmem _ hcall)

theorem Consistent.resume (hs : s.Consistent) (h : s.resume = some s') :
  s'.Consistent
  := by
  unfold Subscriptions.resume at h
  split at h
  · cases h
  · rename_i i calls hcalls
    exact hs.handleActivate hcalls h
  · rename_i i calls hcalls
    cases h
    exact hs.markRegistered hcalls

theorem Consistent.deactivate (hs : s.Consistent) (hcalls : s.calls = [])
    (h : s.cache.deactivate i = some c') :
  Consistent { s with cache := c' }
  := by
  have hsettled : s.settled = s.cache := by
    rw [settled, hcalls, settle_nil]
  have hsettled' : settled { s with cache := c' } = c' := by
    rw [settled, hcalls, settle_nil]
  obtain ⟨hkeeps, hbehaved, -⟩ := StateCache.deactivate_keeps (hsettled ▸ (hs.at' i).behaved) h
  have hlisted := hsettled ▸ (hs.at' i).listed
  have hcoherent := hsettled ▸ (hs.at' i).behaved.toCoherent
  have htracks := hsettled ▸ (hs.at' i).tracks
  have hresult : StateCache.Relists i s.cache c' ∧ c'.Listed i ∧
      (0 < (c'.lookup i).activeCount →
        (c'.lookup i).cachedState = c'.getState i (s.expression i) ∧
          (c'.lookup i).isRegistered = (c'.lookup i).cachedState.isSome) := by
    unfold StateCache.deactivate at h
    dsimp only at h
    split at h
    · cases h
    · split at h
      · rename_i hone
        have hlisted₀ : (s.cache.setLookup i { s.cache.lookup i with
            activeCount := (s.cache.lookup i).activeCount - 1 }).Listed i :=
          hlisted.setLookup rfl fun _ => rfl
        obtain ⟨hrelists, hlisted'⟩ := StateCache.handleDeactivate_lists
          (hcoherent.setActiveCount _) hlisted₀ h
        refine ⟨hrelists, hlisted', fun hactive => ?_⟩
        rw [StateCache.handleDeactivate_activeCount h, StateCache.lookup_setLookup] at hactive
        dsimp only at hactive
        omega
      · rename_i hzero hone
        cases h
        refine ⟨fun _ _ _ => rfl, hlisted.setLookup rfl fun _ => rfl, fun hactive => ?_⟩
        have hlookup := StateCache.lookup_setLookup s.cache i
          { s.cache.lookup i with activeCount := (s.cache.lookup i).activeCount - 1 }
        rw [StateCache.getState, hlookup]
        apply htracks (Nat.pos_of_ne_zero hzero)
        rw [hcalls]
        exact List.not_mem_nil
  obtain ⟨hrelists, hlisted', htracks'⟩ := hresult
  refine hs.operate (i := i) ?_ ?_ ?_ ?_ ?_ ?_ ?_
  · rw [hsettled, hsettled']
    exact hkeeps
  · rw [hsettled, hsettled']
    exact hrelists
  · exact fun _ _ => rfl
  · exact fun _ _ => rfl
  · exact fun _ _ => Iff.rfl
  · constructor
    · rw [hsettled']
      exact hbehaved
    · rw [hsettled']
      exact hlisted'
    · intro call hcall
      rw [hcalls] at hcall
      cases hcall
    · rw [hsettled']
      exact fun hactive _ => htracks' hactive
    · intro hcall
      rw [hcalls] at hcall
      cases hcall
  · exact hs.nested

omit [DecidableEq S] in
/-- Listeners are added and removed. -/
theorem Consistent.setListeners (hs : s.Consistent) (hcalls : s.calls = [])
    (listeners : Nat → List Nat) :
  Consistent { s with listeners := listeners }
  := by
  refine ⟨fun j => ?_, hs.nested⟩
  obtain ⟨hbehaved, hlisted, hactive, htracks, -⟩ := hs.at' j
  refine ⟨hbehaved, hlisted, hactive, htracks, fun hcall => ?_⟩
  rw [hcalls] at hcall
  cases hcall

omit [DecidableEq S] in
/-- What leaves the lookups and their registrations as they are. -/
theorem Consistent.setCache (hs : s.Consistent) (hlookup : c'.lookup = s.cache.lookup)
    (hregistrations : ∀ i state, c'.registrations i state = s.cache.registrations i state)
    (hbehaved : ∀ i, (settle s.calls c').WellBehaved i) :
  Consistent { s with cache := c' }
  := by
  refine ⟨fun j => ?_, hs.nested⟩
  have hsettled : (settle s.calls c').lookup = s.settled.lookup := by
    unfold settled settle
    rw [hlookup]
  refine (hs.at' j).frame (hbehaved j) ?_ ?_ ?_ ?_ ?_
  · intro state
    change (c'.registrations j state = 1 ∧ _) ∨ (c'.registrations j state = 0 ∧ _)
    rw [hregistrations]
    change s.cache.registrations j state = 1 ∧ ((settle s.calls c').lookup j).isRegistered = true ∧
      ((settle s.calls c').lookup j).entry.map (·.state) = some state ∨ _ ∧
        ¬(((settle s.calls c').lookup j).isRegistered = true ∧
          ((settle s.calls c').lookup j).entry.map (·.state) = some state)
    rw [hsettled]
    exact (hs.at' j).listed state
  · exact congrFun hsettled j
  · rfl
  · rfl
  · exact fun _ _ => Iff.rfl

omit [DecidableEq S] in
theorem WellBehaved.settle {calls : List LookupCall} (hs : (settle calls s.cache).WellBehaved i)
    (hlookup : c'.lookup = s.cache.lookup)
    (hmap : ∀ p e, s.cache.deref p = some e → i ∈ e.lookups →
      ∃ e', c'.deref p = some e' ∧ i ∈ e'.lookups) :
  (Subscriptions.settle calls c').WellBehaved i
  := by
  refine hs.of_lookup_eq ?_ hmap
  unfold Subscriptions.settle
  rw [hlookup]

omit [DecidableEq S] in
/-- What is written to the entries concerns no lookup. -/
theorem Consistent.write (hs : s.Consistent)
    (hkeeps : ∀ i, StateCache.Keeps i s.cache c')
    (hregistrations : ∀ i state, c'.registrations i state = s.cache.registrations i state) :
  Consistent { s with cache := c' }
  := by
  have hlookup : c'.lookup = s.cache.lookup := by
    funext i
    exact (hkeeps (i + 1)).lookup i (Nat.lt_succ_self i).ne
  apply hs.setCache hlookup hregistrations
  intro i
  apply WellBehaved.settle (hs.at' i).behaved hlookup
  intro p e he hi
  obtain ⟨e', he', hmem⟩ := (hkeeps (i + 1)).entry p e he
  exact ⟨e', he', hmem i (Nat.lt_succ_self i).ne hi⟩

/-- The step lemma. -/
theorem Consistent.step [MessageStates S] {ev : Event S} (hs : s.Consistent) (hheard : s.Heard ev)
    (h : s.step ev = some s') :
  s'.Consistent
  := by
  cases ev with
  | addListener i listener =>
    obtain ⟨hcalls, h⟩ := Option.ite_none_right_eq_some.mp h
    cases h
    unfold addListener
    split
    · exact hs
    · exact hs.setListeners hcalls _
  | removeListener i listener =>
    obtain ⟨hcalls, h⟩ := Option.ite_none_right_eq_some.mp h
    cases h
    exact hs.setListeners hcalls _
  | activate i =>
    cases h
    exact hs.activate i
  | deactivate i =>
    obtain ⟨hcalls, h⟩ := Option.ite_none_right_eq_some.mp h
    obtain ⟨c, hc, rfl⟩ := Option.map_eq_some_iff.mp h
    exact hs.deactivate hcalls hc
  | change i given => exact hs.change hheard h
  | resume => exact hs.resume h
  | lookupReturn state val =>
    obtain ⟨c, hc, rfl⟩ := Option.map_eq_some_iff.mp h
    exact hs.write (StateCache.lookupReturn_keeps hc) (StateCache.lookupReturn_registrations hc)
  | setUnknown state =>
    obtain ⟨c, hc, rfl⟩ := Option.map_eq_some_iff.mp h
    exact hs.write (StateCache.setUnknown_keeps hc) (StateCache.setUnknown_registrations hc)
  | assignMessageHandle msg handle =>
    obtain ⟨c, hc, rfl⟩ := Option.map_eq_some_iff.mp h
    exact hs.write (StateCache.assignMessageHandle_keeps hc)
      (StateCache.assignMessageHandle_registrations hc)
  | releaseMessageHandle handle =>
    obtain ⟨c, hc, rfl⟩ := Option.map_eq_some_iff.mp h
    obtain ⟨hlookup, -⟩ := StateCache.releaseMessageHandle_spec hc
    apply hs.setCache hlookup (StateCache.releaseMessageHandle_registrations hc)
    intro i
    apply WellBehaved.settle (hs.at' i).behaved hlookup
    intro p e he hi
    exact ⟨e, StateCache.releaseMessageHandle_deref hc he hi, hi⟩

omit [DecidableEq S] in
theorem Init.consistent (h : s.Init) :
  s.Consistent
  := by
  obtain ⟨⟨hmap, hlookup⟩, hcalls⟩ := h
  have hsettled : s.settled = s.cache := by
    rw [settled, hcalls, settle_nil]
  refine ⟨fun i => ?_, ?_⟩
  · obtain ⟨hactive, hentry, hregistered, hconstant⟩ := hlookup i
    obtain ⟨hcoherent, -⟩ := StateCache.coherent_of_entry_none hentry hregistered hconstant
    constructor
    · rw [hsettled]
      exact ⟨hcoherent, fun _ => hregistered⟩
    · rw [hsettled]
      apply StateCache.Listed.of_not_isRegistered hregistered
      intro state
      apply StateCache.registrations_of_none
      rw [hmap]
    · rw [hcalls]
      intro call hcall
      cases hcall
    · rw [hsettled, hactive]
      intro hpos
      cases hpos
    · rw [hcalls]
      intro hcall
      cases hcall
  · rw [hcalls]
    exact List.Pairwise.nil

theorem Consistent.toRegisteredOnce (hs : s.Consistent) :
  s.RegisteredOnce
  := by
  intro i hcall state
  obtain ⟨hbehaved, hlisted, -, htracks, -⟩ := hs.at' i
  have hactiveCount : (s.settled.lookup i).activeCount = (s.cache.lookup i).activeCount :=
    activeCount_settle s.calls s.cache i
  have hcurrent : s.settled.getState i (s.expression i) = s.currentState i :=
    getState_settle s.calls s.cache i (s.expression i)
  rw [hactiveCount, hcurrent] at htracks
  change s.settled.registrations i state = _
  obtain ⟨hone, hregistered, hentry⟩ | ⟨hzero, hnot⟩ := hlisted state
  · obtain ⟨p, hp, rfl⟩ := Option.map_eq_some_iff.mp hentry
    have hactive : 0 < (s.cache.lookup i).activeCount := by
      apply Nat.pos_of_ne_zero
      intro hzero
      rw [hbehaved.inactive (hactiveCount.trans hzero)] at hregistered
      cases hregistered
    rw [hone, if_pos]
    refine ⟨hactive, ?_⟩
    rw [← (htracks hactive hcall).1, hbehaved.state p hp]
  · rw [hzero, if_neg]
    rintro ⟨hactive, hstate⟩
    obtain ⟨hcached, hregistered⟩ := htracks hactive hcall
    rw [hcached, hstate] at hregistered
    obtain ⟨p, e, hp, -⟩ := hbehaved.registered hregistered
    have := hbehaved.state p hp
    rw [hcached, hstate] at this
    cases this
    apply hnot
    rw [hp]
    exact ⟨hregistered, rfl⟩

end Consistent

/-- In every run in which a lookup hears of the changes of its state while it is active, and of
none while it is being registered, every lookup is registered once where it should be. -/
theorem registeredOnce [MessageStates S] {s : Subscriptions S}
    (h : StateMachine.Reachable step Init Heard s) :
  s.RegisteredOnce
  := by
  apply Consistent.toRegisteredOnce
  apply h.invariant
  · intro s hs
    exact hs.consistent
  · intro s ev s' hs hheard hstep
    exact hs.step hheard hstep

/-- Lookups of a state which is computed, and a cache without entries. -/
def newSubscriptions : Subscriptions State where
  cache := ⟨fun _ => none, 0, fun _ => ⟨0, false, none, none, false⟩⟩
  expression _ := none
  listeners _ := []
  calls := []

theorem init_newSubscriptions :
  newSubscriptions.Init
  := by
  refine ⟨⟨rfl, fun _ => ⟨rfl, rfl, rfl, ?_⟩⟩, rfl⟩
  rintro ⟨⟩

/-- The state with a name and without parameters. -/
def stateNamed (name : String) : State := ⟨MessageState.bytes name, []⟩

/-- A lookup with a listener follows its state from `x` to unknown, and to `y`. -/
theorem registeredOnce_followed :
  ∃ s, StateMachine.checkedRun step Heard
      [.addListener 0 7, .activate 0, .change 0 (some (stateNamed "x")), .resume, .resume,
        .change 0 none, .change 0 (some (stateNamed "y")), .resume] newSubscriptions = some s ∧
      s.RegisteredOnce
  := by
  have hrun : (StateMachine.checkedRun step Heard
      [.addListener 0 7, .activate 0, .change 0 (some (stateNamed "x")), .resume, .resume,
        .change 0 none, .change 0 (some (stateNamed "y")), .resume] newSubscriptions).isSome =
        true := by
    decide +kernel
  obtain ⟨s, hs⟩ := Option.isSome_iff_exists.mp hrun
  use s, hs
  exact registeredOnce (.of_checkedRun (.init init_newSubscriptions) hs)

/-- Without listeners a lookup does not hear of the change of its state from `x` to `y`. -/
theorem not_registeredOnce :
  ¬ ∀ s : Subscriptions State, StateMachine.Reachable step Init (fun _ _ => True) s →
    s.RegisteredOnce
  := by
  intro h
  have hrun : (StateMachine.run step
      [.activate 0, .change 0 (some (stateNamed "x")), .resume, .resume,
        .change 0 (some (stateNamed "y"))] newSubscriptions).map
      (fun s => (s.calls.isEmpty, s.cache.registrations 0 (stateNamed "x"),
        decide (s.currentState 0 = some (stateNamed "y")))) = some (true, 1, true) := by
    decide +kernel
  obtain ⟨s, hs, hresult⟩ := Option.map_eq_some_iff.mp hrun
  have honce := h s (.of_run (.init init_newSubscriptions) hs)
  simp only [Prod.mk.injEq, List.isEmpty_iff, decide_eq_true_eq] at hresult
  obtain ⟨hcalls, hregistrations, hstate⟩ := hresult
  have hx := honce 0 (by rw [hcalls]; exact List.not_mem_nil) (stateNamed "x")
  have hne : stateNamed "y" ≠ stateNamed "x" := by decide +kernel
  rw [hregistrations, hstate, if_neg fun hx => hne (Option.some.inj hx.2)] at hx
  cases hx

-- A change which comes back to a lookup while it is being registered: `unregister` finds the mark
-- not yet set, and the lookup stays on the entry of the old state as well.
example : (StateMachine.run step
    [.addListener 0 7, .activate 0, .change 0 (some (stateNamed "x")), .resume,
      .change 0 none, .change 0 (some (stateNamed "x")),
      .change 0 (some (stateNamed "y")), .resume, .resume, .resume] newSubscriptions).map
    (fun s => (s.cache.registrations 0 (stateNamed "x"),
      s.cache.registrations 0 (stateNamed "y"))) = some (1, 1) := by
  decide +kernel

end Subscriptions
end Plexil.Intfc

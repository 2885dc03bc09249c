import Plexil.Intfc.CachedValue
import Plexil.Intfc.LookupOnChange
import Plexil.Intfc.State

/-!
# The state cache

The state cache is a map from states to entries, which it creates on demand and never erases
but for the entries of a message handle which is released.  A lookup keeps a pointer to the
entry of its state.

The map is over a type `S` of states in which two states are equal when `operator==` says so.
What an entry does when it notifies its lookups, and what the interface returns while it is
asked for a value, are events of their own, as nothing which is under way depends on them.
-/

namespace Plexil.Intfc

/-! ### Messages -/

structure Message where
  message : State
  sender : StringValue
  timestamp : Real
  deriving DecidableEq

/-- The states of the data of a message which has a handle. -/
inductive MessageState where
  | text (handle : StringValue)
  | parameterCount (handle : StringValue)
  | parameter (handle : StringValue) (index : Integer)
  | sender (handle : StringValue)
  | arrived (handle : StringValue)
  deriving DecidableEq

namespace MessageState

def handle : MessageState → StringValue
  | text handle | parameterCount handle | parameter handle _ | sender handle | arrived handle =>
    handle

/-- The bytes of a string of the source. -/
def bytes (s : String) : StringValue := s.toList.map fun c => BitVec.ofNat 8 c.toNat

/-- The state as the source builds it. -/
def toState : MessageState → State
  | text handle => ⟨bytes "MessageText", [.string handle]⟩
  | parameterCount handle => ⟨bytes "MessageParameterCount", [.string handle]⟩
  | parameter handle index => ⟨bytes "MessageParameter", [.string handle, .integer index]⟩
  | sender handle => ⟨bytes "MessageSender", [.string handle]⟩
  | arrived handle => ⟨bytes "MessageArrived", [.string handle]⟩

/-- The states of messages are told apart by `operator==`. -/
theorem toState_equals_iff (k k' : MessageState) :
  k.toState.equals k'.toState = true ↔ k = k'
  := by
  have names : ([bytes "MessageText", bytes "MessageParameterCount", bytes "MessageParameter",
      bytes "MessageSender", bytes "MessageArrived"] : List StringValue).Nodup := by decide
  unfold toState
  generalize bytes "MessageText" = text, bytes "MessageParameterCount" = parameterCount,
    bytes "MessageParameter" = parameter, bytes "MessageSender" = sender,
    bytes "MessageArrived" = arrived at names ⊢
  simp only [List.nodup_cons, List.mem_cons, List.not_mem_nil, or_false, not_or] at names
  cases k <;> cases k' <;> simp [State.equals, Lexicographic.equal, Value.equals] <;> grind

end MessageState

/-- A type of states which has the states of messages. -/
class MessageStates (S : Type) where
  state : MessageState → S
  injective : Function.Injective state

instance : MessageStates State where
  state := MessageState.toState
  injective k k' h := by
    apply (MessageState.toState_equals_iff k k').mp
    rw [h]
    apply (MessageState.toState_equals_iff k' k').mpr rfl

/-! ### The cache and its lookups -/

/-- An entry.  The serial number tells it from the other entries which were made for the
state. -/
structure StateCacheEntryImpl where
  serial : Nat
  /-- `m_value`, which may be null. -/
  value : Option CachedValue
  /-- `m_lookups`, the registered lookups. -/
  lookups : List Nat
  deriving DecidableEq

/-- A pointer to the entry which was made for a state with a serial number. -/
structure EntryPointer (S : Type) where
  state : S
  serial : Nat
  deriving DecidableEq

structure LookupImpl (S : Type) where
  activeCount : Nat
  /-- Whether the state name and the parameters are constants. -/
  stateIsConstant : Bool
  /-- `m_cachedState`, when `m_stateKnown`. -/
  cachedState : Option S
  /-- `m_entry`, which may be null. -/
  entry : Option (EntryPointer S)
  isRegistered : Bool
  deriving DecidableEq

structure StateCache (S : Type) where
  map : S → Option StateCacheEntryImpl
  /-- The next serial number. -/
  next : Nat
  lookup : Nat → LookupImpl S

namespace StateCache

variable {S : Type} [DecidableEq S]

def setEntry (c : StateCache S) (state : S) (e : StateCacheEntryImpl) : StateCache S :=
  { c with map := Function.update c.map state (some e) }

def erase (c : StateCache S) (state : S) : StateCache S :=
  { c with map := Function.update c.map state none }

def setLookup (c : StateCache S) (i : Nat) (l : LookupImpl S) : StateCache S :=
  { c with lookup := Function.update c.lookup i l }

def ensureStateCacheEntry (c : StateCache S) (state : S) : StateCache S :=
  if (c.map state).isSome then c
  else { c.setEntry state ⟨c.next, none, []⟩ with next := c.next + 1 }

/-- The pointer to the entry of a state. -/
def pointer (c : StateCache S) (state : S) : Option (EntryPointer S) :=
  (c.map state).map fun e => ⟨state, e.serial⟩

/-- The entry which a pointer refers to, unless it has been erased. -/
def deref (c : StateCache S) (p : EntryPointer S) : Option StateCacheEntryImpl :=
  (c.map p.state).filter fun e => e.serial = p.serial

/-! ### Values -/

/-- `updateValue` of the entry of the state. -/
def lookupReturn (c : StateCache S) (state : S) (val : Value) : Option (StateCache S) := do
  let c := c.ensureStateCacheEntry state
  let e ← c.map state
  let value ← updateValue e.value val
  some (c.setEntry state { e with value := some value })

/-- `setUnknown` of the entry of the state. -/
def setUnknown (c : StateCache S) (state : S) : Option (StateCache S) := do
  let c := c.ensureStateCacheEntry state
  let e ← c.map state
  some (c.setEntry state { e with value := e.value.map CachedValue.setUnknown })

/-- The value which the lookups of the state see. -/
def value (c : StateCache S) (state : S) : Value :=
  match c.map state with
  | some e => cachedValue e.value
  | none => .unknown .unknown

def hasRegisteredLookups (c : StateCache S) (state : S) : Bool :=
  match c.map state with
  | some e => !e.lookups.isEmpty
  | none => false

/-! ### Message handles -/

/-- Erases the entry of a state, unless lookups are registered on it. -/
def deleteStateCacheEntry (c : StateCache S) (state : S) : StateCache S :=
  if c.hasRegisteredLookups state then c else c.erase state

section Messages

variable [MessageStates S]

open MessageStates

/-- The values of a message in the order in which they are written. -/
def messageValues (msg : Message) (handle : StringValue) : List (MessageState × Value) :=
  [(.text handle, .string msg.message.name),
    (.parameterCount handle, .integer (BitVec.ofNat 32 msg.message.parameters.length))] ++
  msg.message.parameters.mapIdx (fun i val => (.parameter handle (BitVec.ofNat 32 i), val)) ++
  [(.sender handle, .string msg.sender), (.arrived handle, .real msg.timestamp)]

def assignMessageHandle (c : StateCache S) (msg : Message) (handle : StringValue) :
    Option (StateCache S) :=
  (messageValues msg handle).foldlM (fun c entry => c.lookupReturn (state entry.1) entry.2) c

/-- The states of the parameters which are released with a count of them. -/
def parameterStates (handle : StringValue) (count : Integer) : List MessageState :=
  (List.range count.toInt.toNat).map fun i => .parameter handle (BitVec.ofNat 32 i)

def releaseMessageHandle (c : StateCache S) (handle : StringValue) : Option (StateCache S) :=
  match c.map (state (.parameterCount handle)) with
  | none => some c
  | some e => do
    -- a null pointer is an error
    let value ← e.value
    match ← value.getInteger with
    | none => some c
    | some count =>
      if !e.lookups.isEmpty then some c
      else
        let c := c.erase (state (.parameterCount handle))
        let c := (parameterStates handle count).foldl
          (fun c k => c.deleteStateCacheEntry (state k)) c
        let c := c.deleteStateCacheEntry (state (.text handle))
        let c := c.deleteStateCacheEntry (state (.sender handle))
        some (c.deleteStateCacheEntry (state (.arrived handle)))

end Messages

/-! ### Registration -/

/-- `ensureRegistered` of the lookup `i`. -/
def ensureRegistered (c : StateCache S) (i : Nat) : Option (StateCache S) :=
  let l := c.lookup i
  if l.isRegistered then some c
  else do
    let p ← l.entry
    let e ← c.deref p
    some ((c.setEntry p.state { e with lookups := e.lookups ++ [i] }).setLookup i
      { l with isRegistered := true })

/-- `unregister` of the lookup `i`. -/
def unregister (c : StateCache S) (i : Nat) : Option (StateCache S) :=
  let l := c.lookup i
  if !l.isRegistered then some c
  else do
    let p ← l.entry
    let e ← c.deref p
    some ((c.setEntry p.state
        { e with lookups := StateCacheEntry.removeLookup e.lookups i }).setLookup i
      { l with isRegistered := false })

/-- `invalidateOldState` of the lookup `i`. -/
def invalidateOldState (c : StateCache S) (i : Nat) : Option (StateCache S) := do
  let c ← c.unregister i
  some (c.setLookup i { c.lookup i with entry := none })

/-- The state of the lookup `i`, where `given` is what its expressions give when they are not
constants. -/
def getState (c : StateCache S) (i : Nat) (given : Option S) : Option S :=
  let l := c.lookup i
  if l.stateIsConstant then l.cachedState else given

/-- Makes the lookup `i` one of the state, whose entry it gets. -/
def enterState (c : StateCache S) (i : Nat) (state : S) : Option (StateCache S) :=
  let c := c.ensureStateCacheEntry state
  (c.setLookup i
    { c.lookup i with cachedState := some state, entry := c.pointer state }).ensureRegistered i

/-- `handleChangeInternal` of the lookup `i`. -/
def handleChangeInternal (c : StateCache S) (i : Nat) (given : Option S) :
    Option (StateCache S) :=
  let old := (c.lookup i).cachedState
  match c.getState i given with
  | some newState =>
    (if old.isSome && old ≠ some newState then c.invalidateOldState i else some c).bind
      fun c => c.enterState i newState
  | none =>
    let c := c.setLookup i { c.lookup i with cachedState := none }
    if old.isSome then c.invalidateOldState i else some c

/-- A change of the name, of a parameter or of the tolerance is notified to the lookup `i`. -/
def notifyChanged (c : StateCache S) (i : Nat) (given : Option S) : Option (StateCache S) :=
  if 0 < (c.lookup i).activeCount then c.handleChangeInternal i given else some c

/-! ### Activation -/

/-- `handleActivate` of the lookup `i` once its expressions are active. -/
def handleActivate (c : StateCache S) (i : Nat) (given : Option S) : Option (StateCache S) :=
  let l := { c.lookup i with cachedState := c.getState i given }
  let c := c.setLookup i l
  match l.entry, l.cachedState with
  | some _, _ => c.ensureRegistered i
  | none, some state => c.enterState i state
  | none, none => some c

/-- `activate` of the lookup `i`.  Its expressions give `given`, and then what they notify
while they are activated themselves. -/
def activate (c : StateCache S) (i : Nat) (given : Option S) (changes : List (Option S)) :
    Option (StateCache S) :=
  let l := c.lookup i
  let c := c.setLookup i { l with activeCount := l.activeCount + 1 }
  if l.activeCount = 0 then
    (changes.foldlM (fun c change => notifyChanged c i change) c).bind fun c =>
      c.handleActivate i (changes.getLast?.getD given)
  else some c

def handleDeactivate (c : StateCache S) (i : Nat) : Option (StateCache S) :=
  (if (c.lookup i).cachedState.isSome then c.unregister i else some c).map fun c =>
    let l := c.lookup i
    -- the entry is preserved if the state is constant
    if l.stateIsConstant then c else c.setLookup i { l with entry := none }

/-- `deactivate` of the lookup `i`, which is an error when it is not active. -/
def deactivate (c : StateCache S) (i : Nat) : Option (StateCache S) :=
  let l := c.lookup i
  if l.activeCount = 0 then none
  else
    let c := c.setLookup i { l with activeCount := l.activeCount - 1 }
    if l.activeCount = 1 then c.handleDeactivate i else some c

/-! ### The machine -/

/-- What happens to the cache and the lookups. -/
inductive Event (S : Type) where
  | activate (i : Nat) (given : Option S) (changes : List (Option S))
  | deactivate (i : Nat)
  | notifyChanged (i : Nat) (given : Option S)
  | lookupReturn (state : S) (val : Value)
  | setUnknown (state : S)
  | assignMessageHandle (msg : Message) (handle : StringValue)
  | releaseMessageHandle (handle : StringValue)

/-- There is no next state when the event uses an entry which has been erased, or when it is
an error. -/
def step [MessageStates S] (c : StateCache S) : Event S → Option (StateCache S)
  | .activate i given changes => c.activate i given changes
  | .deactivate i => c.deactivate i
  | .notifyChanged i given => c.notifyChanged i given
  | .lookupReturn state val => c.lookupReturn state val
  | .setUnknown state => c.setUnknown state
  | .assignMessageHandle msg handle => c.assignMessageHandle msg handle
  | .releaseMessageHandle handle => c.releaseMessageHandle handle

/-- No lookup is active yet; the states which are constant are known. -/
def Init (c : StateCache S) : Prop :=
  c.map = (fun _ => none) ∧
    ∀ i, (c.lookup i).activeCount = 0 ∧ (c.lookup i).entry = none ∧
      (c.lookup i).isRegistered = false ∧
      ((c.lookup i).stateIsConstant = true → (c.lookup i).cachedState.isSome = true)

/-- A cache without entries, and lookups of the text of the message with the handle `m`. -/
def newCache : StateCache State where
  map _ := none
  next := 0
  lookup _ := ⟨0, true, some (MessageState.toState (.text (MessageState.bytes "m"))), none, false⟩

/-! ### What a release erases -/

theorem hasRegisteredLookups_erase (c : StateCache S) (s t : S) :
  (c.erase s).hasRegisteredLookups t = (decide (t ≠ s) && c.hasRegisteredLookups t)
  := by
  unfold hasRegisteredLookups erase
  obtain rfl | hne := eq_or_ne t s
  · simp
  · simp [hne]

theorem map_deleteStateCacheEntry (c : StateCache S) (s t : S) :
  (c.deleteStateCacheEntry s).map t =
    if t = s ∧ c.hasRegisteredLookups t = false then none else c.map t
  := by
  unfold deleteStateCacheEntry erase
  obtain rfl | hne := eq_or_ne t s
  · cases hreg : c.hasRegisteredLookups t <;> simp
  · cases hreg : c.hasRegisteredLookups s <;> simp [hne]

theorem hasRegisteredLookups_deleteStateCacheEntry (c : StateCache S) (s t : S) :
  (c.deleteStateCacheEntry s).hasRegisteredLookups t = c.hasRegisteredLookups t
  := by
  cases hreg : c.hasRegisteredLookups s with
  | true => rw [deleteStateCacheEntry, if_pos hreg]
  | false =>
    rw [deleteStateCacheEntry, hreg, if_neg Bool.false_ne_true, hasRegisteredLookups_erase]
    obtain rfl | hne := eq_or_ne t s
    · simp [hreg]
    · simp [hne]

section Release

variable [MessageStates S]

open MessageStates

/-- The stored count of parameters, when the release of a handle erases entries at all. -/
def releasedCount (c : StateCache S) (handle : StringValue) : Option Integer := do
  let e ← c.map (state (.parameterCount handle))
  let count ← (← e.value).getInteger
  if e.lookups.isEmpty then count else none

/-- The states whose entries the release of a handle erases, if no lookups are registered on
them. -/
def releasedStates (handle : StringValue) (count : Integer) : List MessageState :=
  .parameterCount handle :: parameterStates handle count ++
    [.text handle, .sender handle, .arrived handle]

/-- Whether the release of a handle erases the entry of a state. -/
def erases (c : StateCache S) (handle : StringValue) (s : S) : Bool :=
  match c.releasedCount handle with
  | some count =>
    decide (s ∈ (releasedStates handle count).map state) && !c.hasRegisteredLookups s
  | none => false

theorem foldl_deleteStateCacheEntry (ks : List MessageState) (c : StateCache S) :
  (ks.foldl (fun c k => c.deleteStateCacheEntry (state k)) c).lookup = c.lookup ∧
    ∀ s, (ks.foldl (fun c k => c.deleteStateCacheEntry (state k)) c).map s =
      if s ∈ ks.map state ∧ c.hasRegisteredLookups s = false then none else c.map s
  := by
  induction ks generalizing c with
  | nil => simp
  | cons k ks ih =>
    obtain ⟨hlookup, hmap⟩ := ih (c.deleteStateCacheEntry (state k))
    rw [List.foldl_cons]
    constructor
    · rw [hlookup, deleteStateCacheEntry]
      split <;> rfl
    · intro s
      rw [hmap, hasRegisteredLookups_deleteStateCacheEntry, map_deleteStateCacheEntry]
      simp only [List.map_cons, List.mem_cons]
      grind

/-- A release which reads a count deletes the entries of the handle one after another. -/
theorem releaseMessageHandle_of_releasedCount {c : StateCache S} {handle : StringValue}
    {count : Integer} (h : c.releasedCount handle = some count) :
  c.releaseMessageHandle handle = some
    ((releasedStates handle count).foldl (fun c k => c.deleteStateCacheEntry (state k)) c)
  := by
  obtain ⟨e, he, h⟩ := Option.bind_eq_some_iff.mp h
  obtain ⟨value, hvalue, h⟩ := Option.bind_eq_some_iff.mp h
  obtain ⟨count', hcount', h⟩ := Option.bind_eq_some_iff.mp h
  split at h
  · rename_i hempty
    subst h
    have hdelete : c.deleteStateCacheEntry (state (.parameterCount handle)) =
        c.erase (state (.parameterCount handle)) := by
      rw [deleteStateCacheEntry, hasRegisteredLookups, he]
      simp [hempty]
    unfold releaseMessageHandle releasedStates
    simp [he, hvalue, hcount', hempty, hdelete]
  · cases h

/-- A release which reads no count, or finds lookups registered on it, erases nothing. -/
theorem releaseMessageHandle_of_releasedCount_none {c c' : StateCache S} {handle : StringValue}
    (hcount : c.releasedCount handle = none) (h : c.releaseMessageHandle handle = some c') :
  c' = c
  := by
  unfold releaseMessageHandle at h
  unfold releasedCount at hcount
  split at h
  · cases h
    rfl
  · rename_i e he
    rw [he] at hcount
    obtain ⟨value, hvalue, h⟩ := Option.bind_eq_some_iff.mp h
    obtain ⟨count, hcount', h⟩ := Option.bind_eq_some_iff.mp h
    cases count with
    | none =>
      cases h
      rfl
    | some count =>
      dsimp only at h
      split at h
      · cases h
        rfl
      · rename_i hempty
        simp_all

/-- What a release does to the cache. -/
theorem releaseMessageHandle_spec {c c' : StateCache S} {handle : StringValue}
    (h : c.releaseMessageHandle handle = some c') :
  c'.lookup = c.lookup ∧ ∀ s, c'.map s = if c.erases handle s then none else c.map s
  := by
  unfold erases
  cases hcount : c.releasedCount handle with
  | none =>
    rw [releaseMessageHandle_of_releasedCount_none hcount h]
    simp
  | some count =>
    rw [releaseMessageHandle_of_releasedCount hcount] at h
    cases h
    obtain ⟨hlookup, hmap⟩ := foldl_deleteStateCacheEntry (releasedStates handle count) c
    use hlookup
    intro s
    rw [hmap]
    simp

end Release

end StateCache
end Plexil.Intfc

import Plexil.Intfc.LookupRegistration
import Plexil.Util.LiveIteration

/-!
# Notification of lookups

When the value of an entry of the state cache has changed, `notify` calls `valueChanged` of its
lookups in a loop over the vector in which they are kept.  What a lookup publishes may change the
state of other lookups, which then leave the entry or enter it while the loop goes on.  A vector
which grows beyond its capacity moves to a new buffer.

The steps of the lookups are those of `Subscriptions`.  A notification in progress keeps the number
of their calls which were under way when it began, as calls return in the reverse order.
-/

namespace Plexil.Intfc

open LiveIteration

/-- A call of `notify`: the buffer over which the loop runs with its position. -/
structure Notification (S : Type) where
  state : S
  buffer : Nat
  cursor : Cursor Nat
  depth : Nat

/-- The lookups with the capacity and the current buffer of the vector of each entry, and the
notifications in progress, the innermost first.  The other fields keep the lookup of which
`valueChanged` has just been called, the notification which has just returned, and whether a
notification has read something else than a lookup of the vector. -/
structure Notifier (S : Type) where
  lookups : Subscriptions S
  capacity : S → Nat := fun _ => 0
  buffer : S → Nat := fun _ => 0
  notifications : List (Notification S) := []
  called : Option (S × Nat) := none
  returned : Option (Notification S) := none
  overrun : Bool := false

/-- The lookups which are registered on the entry of a state. -/
def StateCache.lookupsOf {S : Type} (c : StateCache S) (state : S) : List Nat :=
  match c.map state with
  | some e => e.lookups
  | none => []

/-- The lookup is no longer one which has been registered throughout a notification. -/
def Notification.lose {S : Type} [DecidableEq S] (left : Option (Nat × S)) (n : Notification S) :
    Notification S :=
  match left with
  | some (i, state) => if n.state = state then { n with cursor := n.cursor.lose i } else n
  | none => n

namespace Notifier

variable {S : Type} [DecidableEq S]

/-! ### The loop of `notify` -/

/-- The innermost notification goes on to the next call of `valueChanged`, or returns. -/
def advance (s : Notifier S) : Notifier S :=
  match s.notifications with
  | [] => s
  | n :: rest =>
    if n.cursor.index = n.cursor.finish then
      { s with notifications := rest, called := none, returned := some n }
    else if n.buffer = s.buffer n.state then
      match (s.lookups.cache.lookupsOf n.state)[n.cursor.index]? with
      | some i =>
        { s with
          notifications := { n with cursor := n.cursor.visit i } :: rest
          called := some (n.state, i)
          returned := none }
      | none => { s with overrun := true }
    else { s with overrun := true }

/-- The value of the entry has changed. -/
def notify (state : S) (s : Notifier S) : Notifier S :=
  let cursor := Cursor.start (s.lookups.cache.lookupsOf state)
  let n : Notification S := ⟨state, s.buffer state, cursor, s.lookups.calls.length⟩
  { s with notifications := n :: s.notifications }.advance

/-! ### The steps of the lookups -/

/-- The lookup with the entry which it leaves when it is unregistered. -/
def unregistered (s : Subscriptions S) (i : Nat) : Option (Nat × S) :=
  if (s.cache.lookup i).isRegistered then
    (s.cache.lookup i).entry.map fun p => (i, p.state)
  else none

/-- The lookup which an event takes off the lookups of an entry. -/
def leaves (s : Subscriptions S) : Subscriptions.Event S → Option (Nat × S)
  | .deactivate i =>
    if (s.cache.lookup i).activeCount = 1 ∧ (s.cache.lookup i).cachedState.isSome then
      unregistered s i
    else none
  | .change i given =>
    let l := s.cache.lookup i
    if (s.listeners i).isEmpty ∨ l.activeCount = 0 then none
    else if l.cachedState.isSome ∧ l.cachedState ≠ s.cache.getState i given then unregistered s i
    else none
  | _ => none

/-- The lookup which an event adds to the lookups of an entry. -/
def enters (s : Subscriptions S) : Subscriptions.Event S → Option (Nat × S)
  | .change i given =>
    let l := s.cache.lookup i
    if (s.listeners i).isEmpty ∨ l.activeCount = 0 then none
    else
      (s.cache.getState i given).bind fun newState =>
        if l.isRegistered ∧ ¬(l.cachedState.isSome ∧ l.cachedState ≠ some newState) then none
        else some (i, newState)
  | .resume =>
    match s.calls with
    | .activate i :: _ =>
      let l := s.cache.lookup i
      if l.isRegistered then none
      else ((l.entry.map (·.state)).or (s.cache.getState i (s.expression i))).map fun p => (i, p)
    | _ => none
  | _ => none

/-- The lookups after an event: where there are more of them than their vector can hold, it has
moved to a buffer with the capacity which it grows to. -/
def relist (grow : Nat → Nat) (left : Option (Nat × S)) (lookups : Subscriptions S)
    (s : Notifier S) : Notifier S :=
  let full := fun state => s.capacity state < (lookups.cache.lookupsOf state).length
  { s with
    lookups := lookups
    capacity := fun state => if full state then grow (s.capacity state) else s.capacity state
    buffer := fun state => if full state then s.buffer state + 1 else s.buffer state
    notifications := s.notifications.map (Notification.lose left)
    called := none
    returned := none }

/-! ### The machine -/

/-- The steps of the lookups themselves. -/
inductive Event (S : Type) where
  | addListener (i listener : Nat)
  | removeListener (i listener : Nat)
  | activate (i : Nat)
  | deactivate (i : Nat)
  | change (i : Nat) (given : Option S)
  | resume
  | notify (state : S)
  | proceed

/-- The events of the lookups. -/
def Event.ofLookups : Event S → Option (Subscriptions.Event S)
  | addListener i listener => some (.addListener i listener)
  | removeListener i listener => some (.removeListener i listener)
  | activate i => some (.activate i)
  | deactivate i => some (.deactivate i)
  | change i given => some (.change i given)
  | resume => some .resume
  | _ => none

/-- An event of the lookups is a reaction to the call of `valueChanged` in progress, if there is
one.  Neither a call of a lookup nor a notification goes on before those within it have returned. -/
def step [MessageStates S] (grow : Nat → Nat) (s : Notifier S) (ev : Event S) :
    Option (Notifier S) :=
  if s.overrun then none
  else
    match ev with
    | .notify state => if (s.lookups.cache.map state).isSome then some (s.notify state) else none
    | .proceed =>
      match s.notifications with
      | n :: _ => if n.depth = s.lookups.calls.length then some s.advance else none
      | [] => none
    | .resume =>
      if ∀ n ∈ s.notifications.head?, n.depth < s.lookups.calls.length then
        s.lookups.resume.map fun lookups => s.relist grow none lookups
      else none
    | ev =>
      ev.ofLookups.bind fun ev =>
        (s.lookups.step ev).map fun lookups => s.relist grow (leaves s.lookups ev) lookups

end Notifier

end Plexil.Intfc

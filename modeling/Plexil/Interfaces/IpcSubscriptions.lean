import Plexil.Interfaces.IpcFacade

/-!
# Subscriptions of the IPC facade

The facade keeps the listeners to all messages in one vector, and those to messages of a type
in a vector for the type.  A message is passed to the listeners of the first vector and then to
those of the vector for the type of its leader.

The purpose of the vectors is said by the list of subscriptions in the order in which they are
made: unsubscribing takes all subscriptions of a listener out of it.  The vectors agree with
this list as long as no listener with a subscription unsubscribes, as `std::remove` does not
shrink a vector, and the vectors for the types are copied before it is called.  The order of the
list is the order of the calls only where the subscriptions to all messages come first.
-/

namespace Plexil.Ipc

/-- The types of messages. -/
inductive PlexilMsgType where
  | notifyExec | command | message | lookupNow | telemetryValues | returnValues
  | addPlan | addPlanFile | addLibrary | addLibraryFile | plannerUpdate
  | unknownValue | commandHandleValue
  | booleanValue | booleanArray | integerValue | integerArray
  | realValue | realArray | stringValue | stringArray
  | pairBoolean | pairInteger | pairReal | pairString
  deriving DecidableEq

/-- `msgType` of a packet. -/
def Content.msgType : Content → PlexilMsgType
  | .notifyExec => .notifyExec
  | .command _ => .command
  | .message _ => .message
  | .lookupNow _ => .lookupNow
  | .telemetryValues _ => .telemetryValues
  | .returnValues _ _ => .returnValues
  | .addPlan _ => .addPlan
  | .addPlanFile _ => .addPlanFile
  | .addLibrary _ => .addLibrary
  | .addLibraryFile _ => .addLibraryFile
  | .plannerUpdate _ => .plannerUpdate
  | .unknownValue => .unknownValue
  | .commandHandleValue _ => .commandHandleValue
  | .booleanValue _ => .booleanValue
  | .booleanArray _ => .booleanArray
  | .integerValue _ => .integerValue
  | .integerArray _ => .integerArray
  | .realValue _ => .realValue
  | .realArray _ => .realArray
  | .stringValue _ => .stringValue
  | .stringArray _ => .stringArray
  | .pairBoolean _ _ => .pairBoolean
  | .pairInteger _ _ => .pairInteger
  | .pairReal _ _ => .pairReal
  | .pairString _ => .pairString

def Delivery.msgType (msgs : Delivery) : PlexilMsgType := msgs.leader.content.msgType

/-- What is done to a facade. -/
inductive SubscriptionEvent (Listener : Type) where
  | subscribeAll (listener : Listener)
  | subscribe (listener : Listener) (type : PlexilMsgType)
  | unsubscribe (listener : Listener)
  | deliverMessages (msgs : Delivery)

variable {Listener : Type} [DecidableEq Listener]

/-! ### The facade -/

/-- `std::remove`: the elements which stay are moved to the front.  Behind them the vector
keeps its old elements, and its length. -/
def remove (listeners : List Listener) (listener : Listener) : List Listener :=
  let kept := listeners.filter fun l => l ≠ listener
  kept ++ listeners.drop kept.length

/-- The listeners of a facade, and the calls of `ReceiveMessage` so far. -/
structure Listeners (Listener : Type) where
  listenersToAll : List Listener := []
  registeredListeners : PlexilMsgType → List Listener := fun _ => []
  received : List (Listener × Delivery) := []

namespace Listeners

def subscribeAll (listener : Listener) (f : Listeners Listener) : Listeners Listener :=
  { f with listenersToAll := f.listenersToAll ++ [listener] }

def subscribe (listener : Listener) (type : PlexilMsgType) (f : Listeners Listener) :
    Listeners Listener :=
  let listeners := f.registeredListeners type ++ [listener]
  { f with registeredListeners := Function.update f.registeredListeners type listeners }

/-- The loop over the types works on copies of the entries of the map. -/
def unsubscribe (listener : Listener) (f : Listeners Listener) : Listeners Listener :=
  { f with listenersToAll := remove f.listenersToAll listener }

/-- The listeners to which a message of a type is passed. -/
def receivers (f : Listeners Listener) (type : PlexilMsgType) : List Listener :=
  f.listenersToAll ++ f.registeredListeners type

def deliverMessages (msgs : Delivery) (f : Listeners Listener) : Listeners Listener :=
  { f with received := f.received ++ (f.receivers msgs.msgType).map fun l => (l, msgs) }

def apply (f : Listeners Listener) : SubscriptionEvent Listener → Listeners Listener
  | .subscribeAll listener => f.subscribeAll listener
  | .subscribe listener type => f.subscribe listener type
  | .unsubscribe listener => f.unsubscribe listener
  | .deliverMessages msgs => f.deliverMessages msgs

end Listeners

/-! ### Subscriptions -/

/-- A subscription to the messages of a type, or to all messages. -/
structure Subscription (Listener : Type) where
  listener : Listener
  type : Option PlexilMsgType

/-- The subscriptions in the order in which they are made, and who has to receive what: the
listeners to all messages before the others, or all of them in the order of the subscriptions. -/
structure Subscriptions (Listener : Type) where
  current : List (Subscription Listener) := []
  due : List (Listener × Delivery) := []
  dueInOrder : List (Listener × Delivery) := []

namespace Subscriptions

/-- The listeners of the subscriptions to a type, or to all messages. -/
def listeners (s : Subscriptions Listener) (type : Option PlexilMsgType) : List Listener :=
  (s.current.filter fun subscription => subscription.type = type).map Subscription.listener

/-- The listeners to all messages are served first. -/
def receivers (s : Subscriptions Listener) (type : PlexilMsgType) : List Listener :=
  s.listeners none ++ s.listeners (some type)

/-- The listeners are served in the order in which they have subscribed. -/
def receiversInOrder (s : Subscriptions Listener) (type : PlexilMsgType) : List Listener :=
  (s.current.filter fun subscription =>
    subscription.type = none || subscription.type = some type).map Subscription.listener

def apply (s : Subscriptions Listener) : SubscriptionEvent Listener → Subscriptions Listener
  | .subscribeAll listener => { s with current := s.current ++ [⟨listener, none⟩] }
  | .subscribe listener type => { s with current := s.current ++ [⟨listener, some type⟩] }
  | .unsubscribe listener =>
    { s with current := s.current.filter fun subscription => subscription.listener ≠ listener }
  | .deliverMessages msgs =>
    { s with
      due := s.due ++ (s.receivers msgs.msgType).map fun l => (l, msgs)
      dueInOrder := s.dueInOrder ++ (s.receiversInOrder msgs.msgType).map fun l => (l, msgs) }

/-- The listener has a subscription. -/
def Subscribed (s : Subscriptions Listener) (listener : Listener) : Prop :=
  ∃ subscription ∈ s.current, subscription.listener = listener

/-- No subscription to a type is made before one to all messages. -/
def AllFirst (s : Subscriptions Listener) (type : PlexilMsgType) : Prop :=
  s.current.Pairwise fun first later => first.type = some type → later.type ≠ none

omit [DecidableEq Listener] in
/-- Then the listeners to all messages are the first ones in the order of the subscriptions. -/
theorem receivers_of_allFirst {s : Subscriptions Listener} {type : PlexilMsgType}
    (h : s.AllFirst type) :
  s.receivers type = s.receiversInOrder type
  := by
  unfold receivers receiversInOrder listeners
  unfold AllFirst at h
  generalize s.current = current at h
  rw [← List.map_append]
  congr 1
  induction h with
  | nil => rfl
  | @cons subscription rest hfirst _ ih =>
    rcases hsubscription : subscription.type with _ | t
    · simp [hsubscription, ← ih]
    · by_cases htype : t = type
      · subst htype
        have hnone : rest.filter (fun s => decide (s.type = none)) = [] := by
          rw [List.filter_eq_nil_iff]
          intro later hlater
          simpa using hfirst later hlater hsubscription
        rw [hnone, List.nil_append] at ih
        simp [hsubscription, hnone, ← ih]
      · simp [hsubscription, htype, ← ih]

end Subscriptions

/-! ### Agreement -/

/-- A facade with the subscriptions which it should have. -/
structure Subscribers (Listener : Type) where
  facade : Listeners Listener := {}
  subscriptions : Subscriptions Listener := {}

namespace Subscribers

def apply (s : Subscribers Listener) (e : SubscriptionEvent Listener) : Subscribers Listener :=
  ⟨s.facade.apply e, s.subscriptions.apply e⟩

def step (s : Subscribers Listener) (e : SubscriptionEvent Listener) :
    Option (Subscribers Listener) :=
  some (s.apply e)

/-- The listeners in the vectors are those of the subscriptions. -/
structure SameListeners (s : Subscribers Listener) : Prop where
  toAll : s.facade.listenersToAll = s.subscriptions.listeners none
  toType : ∀ type, s.facade.registeredListeners type = s.subscriptions.listeners (some type)

/-- Every message so far has been passed to the listeners which were subscribed then, those to
all messages before the others. -/
structure Agrees (s : Subscribers Listener) : Prop extends s.SameListeners where
  received : s.facade.received = s.subscriptions.due

/-- Every message so far has been passed to the listeners which were subscribed then, in the
order of all their subscriptions. -/
structure AgreesInOrder (s : Subscribers Listener) : Prop extends s.SameListeners where
  received : s.facade.received = s.subscriptions.dueInOrder

/-- A listener which unsubscribes has no subscription. -/
def UnsubscribesNobody (s : Subscribers Listener) (e : SubscriptionEvent Listener) : Prop :=
  ∀ listener, e = .unsubscribe listener → ¬ s.subscriptions.Subscribed listener

/-- The listeners to all messages come before the others in the order of the subscriptions. -/
def DeliversInOrder (s : Subscribers Listener) (e : SubscriptionEvent Listener) : Prop :=
  ∀ msgs, e = .deliverMessages msgs →
    s.subscriptions.receivers msgs.msgType = s.subscriptions.receiversInOrder msgs.msgType

end Subscribers

theorem length_remove (listeners : List Listener) (listener : Listener) :
  (remove listeners listener).length = listeners.length
  := by
  unfold remove
  rw [List.length_append, List.length_drop]
  have := List.length_filter_le (fun l => decide (l ≠ listener)) listeners
  omega

/-- `std::remove` takes a listener out of a vector exactly when it is not in there. -/
theorem remove_eq_filter {listeners : List Listener} {listener : Listener} :
  remove listeners listener = listeners.filter (fun l => l ≠ listener) ↔ listener ∉ listeners
  := by
  constructor
  · intro h hmem
    have hlength := congrArg List.length h
    rw [length_remove] at hlength
    have hall := List.length_filter_eq_length_iff.mp hlength.symm listener hmem
    simp at hall
  · intro hmem
    have hall : listeners.filter (fun l => l ≠ listener) = listeners := by
      rw [List.filter_eq_self]
      intro l hl
      simpa using fun h : l = listener => hmem (h ▸ hl)
    unfold remove
    dsimp only
    rw [hall, List.drop_length, List.append_nil]

namespace Subscriptions

variable {s : Subscriptions Listener} {listener : Listener} {type : Option PlexilMsgType}

omit [DecidableEq Listener] in
theorem mem_listeners :
  listener ∈ s.listeners type ↔ ⟨listener, type⟩ ∈ s.current
  := by
  unfold listeners
  rw [List.mem_map]
  constructor
  · rintro ⟨subscription, hmem, rfl⟩
    rw [List.mem_filter, decide_eq_true_eq] at hmem
    obtain ⟨hmem, rfl⟩ := hmem
    exact hmem
  · intro hmem
    refine ⟨⟨listener, type⟩, ?_, rfl⟩
    rw [List.mem_filter]
    exact ⟨hmem, decide_eq_true rfl⟩

theorem listeners_unsubscribe :
  (s.apply (.unsubscribe listener)).listeners type =
    (s.listeners type).filter fun l => l ≠ listener
  := by
  unfold apply listeners
  dsimp only
  rw [List.filter_map, List.filter_filter, List.filter_filter]
  congr 1
  apply List.filter_congr
  intro subscription _
  exact Bool.and_comm _ _

end Subscriptions

namespace Subscribers

variable {s : Subscribers Listener} {e : SubscriptionEvent Listener}

/-- A step keeps the listeners exactly when nobody with a subscription unsubscribes. -/
theorem SameListeners.step_iff (h : s.SameListeners) :
  s.UnsubscribesNobody e ↔ (s.apply e).SameListeners
  := by
  obtain ⟨htoAll, htoType⟩ := h
  cases e with
  | subscribeAll listener =>
    refine iff_of_true (fun _ h => nomatch h) ⟨?_, fun type => ?_⟩
    · simp [apply, Listeners.apply, Listeners.subscribeAll, Subscriptions.apply,
        Subscriptions.listeners, htoAll]
    · simp [apply, Listeners.apply, Listeners.subscribeAll, Subscriptions.apply,
        Subscriptions.listeners, htoType]
  | subscribe listener type =>
    refine iff_of_true (fun _ h => nomatch h) ⟨?_, fun type' => ?_⟩
    · simp [apply, Listeners.apply, Listeners.subscribe, Subscriptions.apply,
        Subscriptions.listeners, htoAll]
    · by_cases htype : type' = type
      · subst htype
        simp [apply, Listeners.apply, Listeners.subscribe, Subscriptions.apply,
          Subscriptions.listeners, htoType]
      · simp [apply, Listeners.apply, Listeners.subscribe, Subscriptions.apply,
          Subscriptions.listeners, htoType, htype, Ne.symm htype]
  | unsubscribe listener =>
    have hnobody : s.UnsubscribesNobody (.unsubscribe listener) ↔
        ∀ type, listener ∉ s.subscriptions.listeners type := by
      constructor
      · intro h type hmem
        apply h listener rfl
        exact ⟨_, Subscriptions.mem_listeners.mp hmem, rfl⟩
      · rintro h _ ⟨⟩ ⟨subscription, hmem, rfl⟩
        exact h subscription.type (Subscriptions.mem_listeners.mpr hmem)
    rw [hnobody]
    constructor
    · intro hnone
      refine ⟨?_, fun type => ?_⟩
      · apply Eq.trans _ Subscriptions.listeners_unsubscribe.symm
        rw [← htoAll]
        apply remove_eq_filter.mpr
        rw [htoAll]
        exact hnone none
      · apply Eq.trans _ Subscriptions.listeners_unsubscribe.symm
        rw [List.filter_eq_self.mpr]
        · exact htoType type
        · intro l hl
          simpa using fun heq : l = listener => hnone (some type) (heq ▸ hl)
    · rintro ⟨htoAll', htoType'⟩ type
      cases type with
      | none =>
        have hsame := htoAll'.trans Subscriptions.listeners_unsubscribe
        rw [← htoAll] at hsame ⊢
        exact remove_eq_filter.mp hsame
      | some type =>
        have hsame := (htoType' type).trans Subscriptions.listeners_unsubscribe
        intro hmem
        have hkept := List.filter_eq_self.mp (hsame.symm.trans (htoType type)) listener hmem
        simp at hkept
  | deliverMessages msgs => exact iff_of_true (fun _ h => nomatch h) ⟨htoAll, htoType⟩

omit [DecidableEq Listener] in
theorem SameListeners.receivers (h : s.SameListeners) (type : PlexilMsgType) :
  s.facade.receivers type = s.subscriptions.receivers type
  := by
  unfold Listeners.receivers Subscriptions.receivers
  rw [h.toAll, h.toType]

theorem Agrees.received_apply (h : s.Agrees) :
  (s.apply e).facade.received = (s.apply e).subscriptions.due
  := by
  cases e with
  | deliverMessages msgs =>
    unfold apply Listeners.apply Listeners.deliverMessages Subscriptions.apply
    dsimp only
    rw [h.received, h.toSameListeners.receivers]
  | _ => exact h.received

theorem AgreesInOrder.received_apply_iff (h : s.AgreesInOrder) :
  s.DeliversInOrder e ↔ (s.apply e).facade.received = (s.apply e).subscriptions.dueInOrder
  := by
  cases e with
  | deliverMessages msgs =>
    unfold apply Listeners.apply Listeners.deliverMessages Subscriptions.apply
    dsimp only
    rw [h.received, h.toSameListeners.receivers, List.append_cancel_left_eq,
      (List.map_injective_iff.mpr (Prod.mk_left_injective msgs)).eq_iff]
    constructor
    · intro h
      exact h msgs rfl
    · rintro h _ ⟨⟩
      exact h
  | _ => exact iff_of_true (fun _ h => nomatch h) h.received

/-- Throughout a run, messages are passed to the listeners which are subscribed, once for each
subscription, those to all messages before the others, exactly when no listener with a
subscription unsubscribes.  They are passed on in the order of all subscriptions exactly when
besides, at every delivery, the subscriptions have been made in this order. -/
theorem agrees_iff (es : List (SubscriptionEvent Listener)) :
  (StateMachine.Always step Agrees es {} ↔ StateMachine.Meets step UnsubscribesNobody es {}) ∧
    (StateMachine.Always step AgreesInOrder es {} ↔
      StateMachine.Meets step (fun s e => s.UnsubscribesNobody e ∧ s.DeliversInOrder e) es {})
  := by
  constructor
  · apply StateMachine.always_iff_meets (I := fun _ => True) (fun _ _ _ _ _ => trivial)
    · intro s e _ h
      rw [h.toSameListeners.step_iff]
      unfold step
      constructor
      · rintro hsame s' ⟨⟩
        exact ⟨hsame, h.received_apply⟩
      · intro h'
        exact (h' _ rfl).toSameListeners
    · trivial
    · exact ⟨⟨rfl, fun _ => rfl⟩, rfl⟩
  · apply StateMachine.always_iff_meets (I := fun _ => True) (fun _ _ _ _ _ => trivial)
    · intro s e _ h
      rw [h.toSameListeners.step_iff, h.received_apply_iff]
      unfold step
      constructor
      · rintro ⟨hsame, hreceived⟩ s' ⟨⟩
        exact ⟨hsame, hreceived⟩
      · intro h'
        exact ⟨(h' _ rfl).toSameListeners, (h' _ rfl).received⟩
    · trivial
    · exact ⟨⟨rfl, fun _ => rfl⟩, rfl⟩

/-- Two listeners to all messages, of which the first one unsubscribes: the second one is then
called twice for a message. -/
theorem not_agrees :
  ¬ (∀ es : List (SubscriptionEvent Nat), StateMachine.Always step Agrees es {}) ∧
    ¬ ∀ es : List (SubscriptionEvent Nat), StateMachine.Always step AgreesInOrder es {}
  := by
  constructor
  · intro h
    have hall := h [.subscribeAll 1, .subscribeAll 2, .unsubscribe 1,
      .deliverMessages ⟨⟨.notifyExec, 0, 1, []⟩, []⟩]
    have hlength : 2 = 1 := congrArg List.length (hall.of_run rfl).received
    contradiction
  · intro h
    have hall := h [.subscribeAll 1, .subscribeAll 2, .unsubscribe 1,
      .deliverMessages ⟨⟨.notifyExec, 0, 1, []⟩, []⟩]
    have hlength : 2 = 1 := congrArg List.length (hall.of_run rfl).received
    contradiction

end Subscribers

end Plexil.Ipc

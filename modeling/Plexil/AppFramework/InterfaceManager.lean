import Plexil.AppFramework.SimpleInputQueue

/-!
# The interface manager

The interfaces notify the interface manager of events, which it puts in the input queue.  The
executive calls `processQueue`, which hands the events over to the state cache, to commands
and updates, and to the executive itself.
-/

namespace Plexil.Intfc

/-- An event with its payload, which is handed over to `markProcessed`, `lookupReturn`,
`commandHandleReturn`, `commandReturn`, `commandAbortAcknowledge`, `acknowledge`, `addPlan`,
`messageReceived`, `messageQueueEmpty`, `assignMessageHandle` or `releaseMessageHandle`. -/
inductive ExternalEvent where
  | mark (sequence : BitVec 32)
  | lookup (state : State) (value : Value)
  | commandAck (cmd : Nat) (handle : CommandHandleValue)
  | commandReturn (cmd : Nat) (value : Value)
  | commandAbort (cmd : Nat) (ack : Bool)
  | updateAck (upd : Nat) (ack : Bool)
  | addPlan (node : Nat)
  | receiveMessage (msg : Nat)
  | messageQueueEmpty
  | acceptMessage (msg : Nat) (handle : StringValue)
  | releaseMessageHandle (handle : StringValue)
  deriving DecidableEq

def ExternalEvent.isMark : ExternalEvent → Bool
  | mark _ => true
  | _ => false

/-- A call of the interface manager.  Commands, updates and messages are given by pointers,
which may be null. -/
inductive Call where
  | handleValueChange (state : State) (value : Value)
  | handleCommandAck (cmd : Option Nat) (value : CommandHandleValue)
  | handleCommandReturn (cmd : Option Nat) (value : Value)
  | handleCommandAbortAck (cmd : Option Nat) (ack : Bool)
  | handleUpdateAck (upd : Option Nat) (ack : Bool)
  | notifyMessageReceived (message : Option Nat)
  | notifyMessageQueueEmpty
  | notifyMessageAccepted (message : Option Nat) (handle : StringValue)
  | notifyMessageHandleReleased (handle : StringValue)
  /-- The plan has been parsed. -/
  | handleAddPlan (root : Nat)
  | markQueue

structure InterfaceManager where
  inputQueue : SimpleInputQueue
  markCount : BitVec 32
  /-- The events of the calls so far, as the callers give them. -/
  posted : List ExternalEvent
  /-- The events which have been handed over. -/
  delivered : List ExternalEvent
  /-- The result of the last `processQueue`. -/
  needsStep : Bool
  /-- Whether an assertion has failed. -/
  failed : Bool

namespace InterfaceManager

def new : InterfaceManager := ⟨.new, 0, [], [], false, false⟩

/-- Puts an entry in the queue, which is initialized with `init` for the event `given`. -/
def enqueue (m : InterfaceManager) (given : ExternalEvent) (init : QueueEntry → QueueEntry) :
    InterfaceManager :=
  let (q, entry) := m.inputQueue.allocate
  { m with inputQueue := (q.modify entry init).put entry, posted := m.posted ++ [given] }

/-! ### Calls -/

def handleValueChange (m : InterfaceManager) (state : State) (value : Value) :
    InterfaceManager :=
  m.enqueue (.lookup state value) (·.initForLookup state value)

/-- An invalid value is replaced. -/
def handleCommandAck (m : InterfaceManager) (cmd : Option Nat) (value : CommandHandleValue) :
    InterfaceManager :=
  match cmd with
  | none => m
  | some cmd =>
    let valid := if value = .noCommandHandle then .interfaceError else value
    m.enqueue (.commandAck cmd value) (·.initForCommandAck cmd valid)

def handleCommandReturn (m : InterfaceManager) (cmd : Option Nat) (value : Value) :
    InterfaceManager :=
  match cmd with
  | none => m
  | some cmd => m.enqueue (.commandReturn cmd value) (·.initForCommandReturn cmd value)

def handleCommandAbortAck (m : InterfaceManager) (cmd : Option Nat) (ack : Bool) :
    InterfaceManager :=
  match cmd with
  | none => m
  | some cmd => m.enqueue (.commandAbort cmd ack) (·.initForCommandAbort cmd ack)

def handleUpdateAck (m : InterfaceManager) (upd : Option Nat) (ack : Bool) :
    InterfaceManager :=
  match upd with
  | none => m
  | some upd => m.enqueue (.updateAck upd ack) (·.initForUpdateAck upd ack)

def notifyMessageReceived (m : InterfaceManager) (message : Option Nat) : InterfaceManager :=
  match message with
  | none => m
  | some message => m.enqueue (.receiveMessage message) (·.initForReceiveMessage message)

def notifyMessageQueueEmpty (m : InterfaceManager) : InterfaceManager :=
  m.enqueue .messageQueueEmpty (·.initForMessageQueueEmpty)

def notifyMessageAccepted (m : InterfaceManager) (message : Option Nat) (handle : StringValue) :
    InterfaceManager :=
  match message with
  | none => m
  | some message =>
    if handle.isEmpty then m
    else m.enqueue (.acceptMessage message handle) (·.initForAcceptMessage message handle)

def notifyMessageHandleReleased (m : InterfaceManager) (handle : StringValue) :
    InterfaceManager :=
  if handle.isEmpty then m
  else m.enqueue (.releaseMessageHandle handle) (·.initForReleaseMessageHandle handle)

def handleAddPlan (m : InterfaceManager) (root : Nat) : InterfaceManager :=
  m.enqueue (.addPlan root) (·.initForAddPlan root)

def markQueue (m : InterfaceManager) : InterfaceManager :=
  let sequence := m.markCount + 1
  { m with markCount := sequence }.enqueue (.mark sequence) (·.initForMark sequence)

def call (m : InterfaceManager) : Call → InterfaceManager
  | .handleValueChange state value => m.handleValueChange state value
  | .handleCommandAck cmd value => m.handleCommandAck cmd value
  | .handleCommandReturn cmd value => m.handleCommandReturn cmd value
  | .handleCommandAbortAck cmd ack => m.handleCommandAbortAck cmd ack
  | .handleUpdateAck upd ack => m.handleUpdateAck upd ack
  | .notifyMessageReceived message => m.notifyMessageReceived message
  | .notifyMessageQueueEmpty => m.notifyMessageQueueEmpty
  | .notifyMessageAccepted message handle => m.notifyMessageAccepted message handle
  | .notifyMessageHandleReleased handle => m.notifyMessageHandleReleased handle
  | .handleAddPlan root => m.handleAddPlan root
  | .markQueue => m.markQueue

/-! ### Processing -/

/-- What the switch of `processQueue` makes of an entry.  There is no event when an assertion
fails, which is also said of the use of a pointer which is null or not valid. -/
def processEntry (entry : QueueEntry) : Option ExternalEvent :=
  match entry.type, entry.member, entry.value with
  | .mark, .sequence seq, _ => some (.mark seq)
  | .lookup, .state state, value => some (.lookup state value)
  | .commandAck, .command cmd, .commandHandle handle => some (.commandAck cmd handle)
  | .commandReturn, .command cmd, value => some (.commandReturn cmd value)
  | .commandAbort, .command cmd, .boolean ack => some (.commandAbort cmd ack)
  | .updateAck, .update upd, .boolean ack => some (.updateAck upd ack)
  | .addPlan, .plan node, _ => some (.addPlan node)
  | .receiveMsg, .message msg, _ => some (.receiveMessage msg)
  | .msgQueueEmpty, _, _ => some .messageQueueEmpty
  | .acceptMsg, .message msg, .string handle => some (.acceptMessage msg handle)
  | .releaseMsgHandle, _, .string handle => some (.releaseMessageHandle handle)
  | _, _, _ => none

/-- The loop of `processQueue` for at most `fuel` rounds.  The calls which are made while the
entries are handled, one list for each entry, are `reactions`. -/
def processLoop (m : InterfaceManager) : Nat → List (List Call) → InterfaceManager
  | 0, _ => { m with failed := true }
  | fuel + 1, reactions =>
    match m.inputQueue.get with
    | none => { m with failed := true }
    | some (_, none) => m
    | some (q, some entry) =>
      match processEntry (q.heap entry) with
      | none => { m with inputQueue := q, failed := true }
      | some event =>
        let m :=
          { m with
            inputQueue := q
            delivered := m.delivered ++ [event]
            needsStep := m.needsStep || !event.isMark }
        let m := (reactions.headD []).foldl call m
        let m := { m with inputQueue := m.inputQueue.release entry }
        m.processLoop fuel reactions.tail

/-- The number of events which have not been handed over. -/
def pendingCount (m : InterfaceManager) : Nat := m.posted.length - m.delivered.length

def processQueue (m : InterfaceManager) (reactions : List (List Call)) : InterfaceManager :=
  { m with needsStep := false }.processLoop (m.pendingCount + reactions.flatten.length + 1)
    reactions

/-! ### The machine -/

inductive Event where
  | call (c : Call)
  | processQueue (reactions : List (List Call))

/-- The interface manager, and whether the last event was `processQueue`.  Nothing follows a
failed assertion. -/
def step (s : InterfaceManager × Bool) (ev : Event) : Option (InterfaceManager × Bool) :=
  if s.1.failed then none
  else
    match ev with
    | .call c => some (s.1.call c, false)
    | .processQueue reactions => some (s.1.processQueue reactions, true)

end InterfaceManager
end Plexil.Intfc

import Plexil.Util.Pairing
import Plexil.Util.StateMachine
import Plexil.Value.Value

/-!
# Messages and their recipients

A `MessageQueueMap` has a queue of messages and a queue of recipients for every name.  A
recipient is a command, which the first message in the queue is returned to.

The purpose of the two queues is to pair the recipients of a name with its messages, without
the recipients whose commands are aborted while they wait.  An abort does not take a recipient
out of its queue, and disallowing duplicates does not take messages out of theirs.  So the
queues serve their purpose as long as no message meets an aborted recipient, and duplicates are
disallowed only while no name has several messages.
-/

namespace Plexil.Udp

open Intfc

/-! ### The queues -/

/-- An entry of a recipient queue is a pointer to a command.  The mark tells whether this
execution of the command has been aborted; no operation reads it. -/
structure Recipient (Command : Type) where
  command : Command
  aborted : Bool := false
  deriving DecidableEq

/-- The two queues of a name, and the calls of `handleCommandReturn` for the name so far. -/
structure PairingQueue (Command : Type) where
  recipientQueue : List (Recipient Command) := []
  messageQueue : List Intfc.Value := []
  returned : List (Recipient Command × Intfc.Value) := []

/-- A name without an entry in the map has empty queues, as `ensureQueue` makes them. -/
structure MessageQueueMap (Command : Type) where
  queues : StringValue → PairingQueue Command := fun _ => {}
  allowDuplicateMessages : Bool := true
  notifications : Nat := 0

section

variable {Command : Type}

/-- The loop of `updateQueue`: who gets what, and what is left of the two queues. -/
def pairUp : List (Recipient Command) → List Intfc.Value →
    List (Recipient Command × Intfc.Value) × List (Recipient Command) × List Intfc.Value
  | recipient :: rq, message :: mq =>
    let (returned, left) := pairUp rq mq
    ((recipient, message) :: returned, left)
  | rq, mq => ([], rq, mq)

namespace PairingQueue

/-- The two queues after the loop. -/
def pairedUp (queue : PairingQueue Command) : PairingQueue Command :=
  let (returned, rq, mq) := pairUp queue.recipientQueue queue.messageQueue
  ⟨rq, mq, queue.returned ++ returned⟩

def pushRecipient (cmd : Command) (queue : PairingQueue Command) : PairingQueue Command :=
  { queue with recipientQueue := queue.recipientQueue ++ [⟨cmd, false⟩] }

def clearMessages (queue : PairingQueue Command) : PairingQueue Command :=
  { queue with messageQueue := [] }

def pushMessage (param : Intfc.Value) (queue : PairingQueue Command) : PairingQueue Command :=
  { queue with messageQueue := queue.messageQueue ++ [param] }

/-- Marks the recipients with a command. -/
def markAborted [DecidableEq Command] (cmd : Command) (queue : PairingQueue Command) :
    PairingQueue Command :=
  { queue with
    recipientQueue := queue.recipientQueue.map fun recipient =>
      if recipient.command = cmd then { recipient with aborted := true } else recipient }

end PairingQueue

namespace MessageQueueMap

def setQueue (message : StringValue) (queue : PairingQueue Command) (m : MessageQueueMap Command) :
    MessageQueueMap Command :=
  { m with queues := Function.update m.queues message queue }

/-- `updateQueue` of the queue of a name, which has been changed. -/
def updateQueue (message : StringValue) (queue : PairingQueue Command)
    (m : MessageQueueMap Command) : MessageQueueMap Command :=
  let valChanged := !queue.messageQueue.isEmpty && !queue.recipientQueue.isEmpty
  let m := m.setQueue message queue.pairedUp
  { m with notifications := if valChanged then m.notifications + 1 else m.notifications }

def addRecipient (message : StringValue) (cmd : Command) (m : MessageQueueMap Command) :
    MessageQueueMap Command :=
  m.updateQueue message ((m.queues message).pushRecipient cmd)

/-- A message without a parameter has its name as the parameter. -/
def addMessage (message : StringValue) (param : Intfc.Value) (m : MessageQueueMap Command) :
    MessageQueueMap Command :=
  let queue := m.queues message
  let queue := if m.allowDuplicateMessages then queue else queue.clearMessages
  m.updateQueue message (queue.pushMessage param)

def setAllowDuplicateMessages (flag : Bool) (m : MessageQueueMap Command) :
    MessageQueueMap Command :=
  { m with allowDuplicateMessages := flag }

/-- `abortReceiveCommandCommand` closes the listener of the message and acknowledges the abort.
Of the queues it changes nothing but the mark. -/
def abortReceiveCommandCommand [DecidableEq Command] (message : StringValue) (cmd : Command)
    (m : MessageQueueMap Command) : MessageQueueMap Command :=
  m.setQueue message ((m.queues message).markAborted cmd)

end MessageQueueMap

end

inductive QueueEvent (Command : Type) where
  | addRecipient (message : StringValue) (cmd : Command)
  | addMessage (message : StringValue) (param : Intfc.Value)
  | setAllowDuplicateMessages (flag : Bool)
  | abort (message : StringValue) (cmd : Command)

variable {Command : Type} [DecidableEq Command]

def MessageQueueMap.apply (m : MessageQueueMap Command) :
    QueueEvent Command → MessageQueueMap Command
  | .addRecipient message cmd => m.addRecipient message cmd
  | .addMessage message param => m.addMessage message param
  | .setAllowDuplicateMessages flag => m.setAllowDuplicateMessages flag
  | .abort message cmd => m.abortReceiveCommandCommand message cmd

/-! ### The purpose of the queues -/

/-- For every name, the recipients which have not been aborted while they were waiting, and the
messages which have not been replaced while they were queued. -/
structure Pairings (Command : Type) where
  ofName : StringValue → Pairing Command Intfc.Value := fun _ => {}
  allowDuplicates : Bool := true

namespace Pairings

def update (message : StringValue) (f : Pairing Command Intfc.Value → Pairing Command Intfc.Value)
    (s : Pairings Command) : Pairings Command :=
  { s with ofName := Function.update s.ofName message (f (s.ofName message)) }

/-- When duplicates are not allowed, a message replaces the queued ones. -/
def addMessage (message : StringValue) (param : Intfc.Value) (s : Pairings Command) :
    Pairings Command :=
  s.update message fun p => (if s.allowDuplicates then p else p.requeue []).addItem param

/-- Disallowing duplicates leaves the newest of the queued messages. -/
def setAllowDuplicates (flag : Bool) (s : Pairings Command) : Pairings Command where
  ofName message :=
    let p := s.ofName message
    if flag then p else p.requeue p.queued.getLast?.toList
  allowDuplicates := flag

def apply (s : Pairings Command) : QueueEvent Command → Pairings Command
  | .addRecipient message cmd => s.update message (Pairing.addReceiver cmd)
  | .addMessage message param => s.addMessage message param
  | .setAllowDuplicateMessages flag => s.setAllowDuplicates flag
  | .abort message cmd => s.update message (Pairing.withdraw fun c => c ≠ cmd)

end Pairings

/-- The commands of the recipients in a queue which have not been aborted. -/
def surviving (rq : List (Recipient Command)) : List Command :=
  (rq.filter fun recipient => !recipient.aborted).map Recipient.command

/-- The queues of a name are as they should be: the first surviving recipient has got the first
message and so on, the other messages are queued, and the other recipients are waiting. -/
structure PairingQueue.Serves (queue : PairingQueue Command) (p : Pairing Command Intfc.Value) :
    Prop where
  neverBoth : queue.recipientQueue = [] ∨ queue.messageQueue = []
  returned : queue.returned = p.pairs.map fun pair => (⟨pair.1, false⟩, pair.2)
  queued : queue.messageQueue = p.queued
  waiting : surviving queue.recipientQueue = p.waiting

/-- The queues with the pairings which they are for. -/
structure PairedQueues (Command : Type) where
  map : MessageQueueMap Command := {}
  pairings : Pairings Command := {}

namespace PairedQueues

def initial (allow : Bool) : PairedQueues Command where
  map := { allowDuplicateMessages := allow }
  pairings := { allowDuplicates := allow }

def step (s : PairedQueues Command) (e : QueueEvent Command) : Option (PairedQueues Command) :=
  some ⟨s.map.apply e, s.pairings.apply e⟩

/-- The queues of all names are as they should be, with at most one message in each when
duplicates are not allowed. -/
structure Serve (s : PairedQueues Command) : Prop where
  queues : ∀ message, (s.map.queues message).Serves (s.pairings.ofName message)
  newest : s.map.allowDuplicateMessages = false →
    ∀ message, (s.map.queues message).messageQueue.length ≤ 1

/-- No recipient in front of a queue has been aborted when a message for it comes, and
duplicates are disallowed only while there are none. -/
def Heeded (s : PairedQueues Command) : QueueEvent Command → Prop
  | .addMessage message _ =>
    ∀ recipient ∈ (s.map.queues message).recipientQueue.head?, recipient.aborted = false
  | .setAllowDuplicateMessages flag =>
    flag = false → ∀ message, (s.map.queues message).messageQueue.length ≤ 1
  | .addRecipient _ _ | .abort _ _ => True

end PairedQueues

end Plexil.Udp

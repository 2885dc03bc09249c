import Plexil.Intfc.State

/-!
# Queue entries

An entry of the input queue holds one event for the executive.  Its members `command`,
`message`, `plan`, `state`, `update` and `sequence` share their memory, and entries are used
again; the type of the entry says which member is valid.  Commands, messages, plans and
updates are given by their addresses.
-/

namespace Plexil.Intfc

inductive QueueEntryType where
  | uninited | lookup | commandAck | commandReturn | commandAbort | updateAck | addPlan
  | receiveMsg | acceptMsg | releaseMsgHandle | msgQueueEmpty | mark
  deriving DecidableEq

/-- The shared memory, with the member which was written last. -/
inductive QueueEntryMember where
  | null
  | command (cmd : Nat)
  | message (msg : Nat)
  | plan (node : Nat)
  | state (stat : State)
  | update (upd : Nat)
  | sequence (seq : BitVec 32)
  deriving DecidableEq

structure QueueEntry where
  next : Option Nat
  member : QueueEntryMember
  value : Value
  type : QueueEntryType
  deriving DecidableEq

namespace QueueEntry

def new : QueueEntry := ⟨none, .null, .unknown .unknown, .uninited⟩

def reset (_ : QueueEntry) : QueueEntry := ⟨none, .null, .unknown .unknown, .uninited⟩

def initForLookup (e : QueueEntry) (stat : State) (val : Value) : QueueEntry :=
  { e with member := .state stat, value := val, type := .lookup }

def initForCommandAck (e : QueueEntry) (cmd : Nat) (val : CommandHandleValue) : QueueEntry :=
  { e with member := .command cmd, value := .commandHandle val, type := .commandAck }

def initForCommandReturn (e : QueueEntry) (cmd : Nat) (val : Value) : QueueEntry :=
  { e with member := .command cmd, value := val, type := .commandReturn }

def initForCommandAbort (e : QueueEntry) (cmd : Nat) (ack : Bool) : QueueEntry :=
  { e with member := .command cmd, value := .boolean ack, type := .commandAbort }

def initForUpdateAck (e : QueueEntry) (upd : Nat) (ack : Bool) : QueueEntry :=
  { e with member := .update upd, value := .boolean ack, type := .updateAck }

def initForAddPlan (e : QueueEntry) (node : Nat) : QueueEntry :=
  { e with member := .plan node, type := .addPlan }

def initForReceiveMessage (e : QueueEntry) (msg : Nat) : QueueEntry :=
  { e with member := .message msg, type := .receiveMsg }

/-- The handle is not stored. -/
def initForAcceptMessage (e : QueueEntry) (msg : Nat) (_handle : StringValue) : QueueEntry :=
  { e with member := .message msg, type := .acceptMsg }

def initForReleaseMessageHandle (e : QueueEntry) (handle : StringValue) : QueueEntry :=
  { e with value := .string handle, type := .releaseMsgHandle }

def initForMessageQueueEmpty (e : QueueEntry) : QueueEntry :=
  { e with type := .msgQueueEmpty }

def initForMark (e : QueueEntry) (seq : BitVec 32) : QueueEntry :=
  { e with member := .sequence seq, type := .mark }

/-- What an entry holds, apart from its place in a list. -/
def contents (e : QueueEntry) : QueueEntry := { e with next := none }

/-- An entry which holds nothing. -/
def IsBlank (e : QueueEntry) : Prop := e.contents = new

end QueueEntry
end Plexil.Intfc

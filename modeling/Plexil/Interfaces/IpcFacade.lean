import Plexil.Interfaces.IpcFormats
import Plexil.Util.StateMachine

/-!
# The IPC facade

A call publishes a leading packet and then one packet for each parameter.  The packets
which are published by IPC are delivered to the receivers; publishing without a message name
fails.  A call which raises an error is the last one of its sender.

The receiver keeps the leaders with parameters that are still to come in `m_incompletes`,
under the sender and the serial number, and delivers a message when it has received as many
parameters as the leader counts.
-/

namespace Plexil.Ipc

open Intfc

/-! ### Publishing -/

/-- The packets which are published, and whether an error is raised then. -/
structure Publication where
  packets : List Packet
  raised : Bool

/-- `IPC_publishData` succeeds. -/
def Packet.isPublished (packet : Packet) : Bool := (msgFormatForType packet.content).isSome

/-- Constructs the packets of all arguments, then publishes them until this fails. -/
def sendParameters (senderUID : Uid) (serial : Serial) (args : List Intfc.Value) : Publication :=
  match args.mapM constructPlexilValueMsg with
  | none => ⟨[], true⟩
  | some contents =>
    let packets := contents.zipIdx.map fun (content, i) =>
      (⟨content, BitVec.ofNat 16 i, serial, senderUID⟩ : Packet)
    ⟨packets.takeWhile Packet.isPublished, false⟩

/-- The loop of `sendPairs` from the pair with the number `i`. -/
def sendPairsFrom (senderUID : Uid) (serial : Serial) :
    Nat → List (StringValue × Intfc.Value) → Publication
  | _, [] => ⟨[], false⟩
  | i, (name, value) :: rest =>
    match constructPlexilPairMsg name value with
    | none => ⟨[], true⟩
    | some content =>
      let packet : Packet := ⟨content, BitVec.ofNat 16 i, serial, senderUID⟩
      if packet.isPublished then
        let others := sendPairsFrom senderUID serial (i + 1) rest
        ⟨packet :: others.packets, others.raised⟩
      else ⟨[], false⟩

def sendPairs (senderUID : Uid) (serial : Serial) (pairs : List (StringValue × Intfc.Value)) :
    Publication :=
  sendPairsFrom senderUID serial 0 pairs

/-- Publishes a leader which counts `size` parameters, then the parameters. -/
def publishLeader (senderUID : Uid) (serial : Serial) (content : Content) (size : Nat)
    (parameters : Publication) : Publication :=
  ⟨⟨content, BitVec.ofNat 16 size, serial, senderUID⟩ :: parameters.packets,
    parameters.raised⟩

def sendCommand (senderUID : Uid) (serial : Serial) (command : StringValue)
    (argsToDeliver : List Intfc.Value) : Publication :=
  publishLeader senderUID serial (.command (cString command)) argsToDeliver.length
    (sendParameters senderUID serial argsToDeliver)

def sendLookupNow (senderUID : Uid) (serial : Serial) (lookup : StringValue)
    (argsToDeliver : List Intfc.Value) : Publication :=
  publishLeader senderUID serial (.lookupNow (cString lookup)) argsToDeliver.length
    (if argsToDeliver.isEmpty then ⟨[], false⟩
     else sendParameters senderUID serial argsToDeliver)

def publishTelemetry (senderUID : Uid) (serial : Serial) (destName : StringValue)
    (values : List Intfc.Value) : Publication :=
  publishLeader senderUID serial (.telemetryValues (cString destName)) values.length
    (if values.isEmpty then ⟨[], false⟩ else sendParameters senderUID serial values)

def publishUpdate (senderUID : Uid) (serial : Serial) (nodeName : StringValue)
    (update : List (StringValue × Intfc.Value)) : Publication :=
  publishLeader senderUID serial (.plannerUpdate (cString nodeName)) update.length
    (sendPairs senderUID serial update)

/-- The calls which publish a message. -/
inductive Request where
  | command (name : StringValue) (args : List Intfc.Value)
  | lookupNow (name : StringValue) (args : List Intfc.Value)
  | telemetry (name : StringValue) (values : List Intfc.Value)
  | update (name : StringValue) (pairs : List (StringValue × Intfc.Value))

def publish (senderUID : Uid) (serial : Serial) : Request → Publication
  | .command name args => sendCommand senderUID serial name args
  | .lookupNow name args => sendLookupNow senderUID serial name args
  | .telemetry name values => publishTelemetry senderUID serial name values
  | .update name pairs => publishUpdate senderUID serial name pairs

/-- The packets of the calls of a sender, where `serial` is its `m_nextSerial`. -/
def sentFrom (senderUID : Uid) : Serial → List Request → List Packet
  | _, [] => []
  | serial, request :: rest =>
    let call := publish senderUID serial request
    call.packets ++ if call.raised then [] else sentFrom senderUID (serial + 1) rest

/-- The packets of a sender.  The first serial number is 1. -/
def sent (senderUID : Uid) (requests : List Request) : List Packet :=
  sentFrom senderUID 1 requests

/-! ### Receiving -/

/-- A leader with parameters that are still to come, and those which have been received. -/
structure IncompleteMessage (id : Uid × Serial) where
  leader : Packet
  trailers : List Packet
  sender : leader.id = id
  awaiting : trailers.length + 1 ≤ leader.count.toNat

/-- The packets of a message which is passed to the listeners. -/
structure Delivery where
  leader : Packet
  trailers : List Packet

structure Receiver where
  incompletes : ∀ id : Uid × Serial, Option (IncompleteMessage id)
  delivered : List Delivery

namespace Receiver

def initial : Receiver := ⟨fun _ => none, []⟩

def deliverMessages (leader : Packet) (trailers : List Packet) (r : Receiver) : Receiver :=
  { r with delivered := r.delivered ++ [⟨leader, trailers⟩] }

/-- `none` is the error for a second leader. -/
def cacheMessageLeader (packet : Packet) (r : Receiver) : Option Receiver :=
  if (r.incompletes packet.id).isSome then none
  else if h : packet.count.toNat = 0 then some (r.deliverMessages packet [])
  else
    let message : IncompleteMessage packet.id := ⟨packet, [], rfl, Nat.pos_of_ne_zero h⟩
    some { r with incompletes := Function.update r.incompletes packet.id (some message) }

def cacheMessageTrailer (packet : Packet) (r : Receiver) : Receiver :=
  match r.incompletes packet.id with
  | none => r
  | some message =>
    if h : message.trailers.length + 2 > message.leader.count.toNat then
      let r := r.deliverMessages message.leader (message.trailers ++ [packet])
      { r with incompletes := Function.update r.incompletes packet.id none }
    else
      let message : IncompleteMessage packet.id :=
        { message with
          trailers := message.trailers ++ [packet]
          awaiting := by
            rw [List.length_append, List.length_singleton]
            exact Nat.le_of_not_gt h }
      { r with incompletes := Function.update r.incompletes packet.id (some message) }

/-- `none` is an error of the receiver. -/
def handleMessage (myUID : Uid) (r : Receiver) (packet : Packet) : Option Receiver :=
  match packet.content with
  | .command _ | .lookupNow _ =>
    if packet.count.toNat ≠ 0 then r.cacheMessageLeader packet
    else some (r.deliverMessages packet [])
  | .plannerUpdate _ | .telemetryValues _ => r.cacheMessageLeader packet
  | .returnValues _ requesterUID =>
    -- Return values for others are ignored.
    if requesterUID = myUID then r.cacheMessageLeader packet else some r
  | .unknownValue | .booleanValue _ | .integerValue _ | .realValue _ | .stringValue _
  | .booleanArray _ | .integerArray _ | .realArray _ | .stringArray _
  | .pairBoolean _ _ | .pairInteger _ _ | .pairReal _ _ | .pairString _
  | .commandHandleValue _ => some (r.cacheMessageTrailer packet)
  | .message _ | .notifyExec | .addPlan _ | .addPlanFile _ | .addLibrary _
  | .addLibraryFile _ => some (r.deliverMessages packet [])

/-- The receiver after the packets, in the order in which they arrive. -/
def receive (myUID : Uid) : List Packet → Receiver → Option Receiver :=
  StateMachine.run (handleMessage myUID)

end Receiver

end Plexil.Ipc

import Plexil.Util.Binary32
import Plexil.Util.Slots
import Plexil.Value.Value

/-!
# UDP messages

A message is defined by its parameters, each with a type, a length in bytes and, for an array, a
number of elements.  The parameters are encoded one after another into a buffer, and they are
decoded from the buffer of a received datagram.

Lengths are unsigned numbers of 32 bits.  The places in a buffer are signed ones; decoding uses
the lengths as signed numbers too.  What is read outside of the buffer is undefined, hence
decoding stops there.
-/

open Slots

namespace Plexil.Udp

open Intfc

/-! ### Definitions -/

inductive Kind where
  | int | float | bool | string
  deriving DecidableEq

structure ParameterType where
  kind : Kind
  array : Bool
  deriving DecidableEq

/-- The types which are accepted. -/
def ParameterType.ofName : String → Option ParameterType
  | "int" => some ⟨.int, false⟩
  | "int-array" => some ⟨.int, true⟩
  | "float" => some ⟨.float, false⟩
  | "float-array" => some ⟨.float, true⟩
  | "bool" => some ⟨.bool, false⟩
  | "bool-array" => some ⟨.bool, true⟩
  | "string" => some ⟨.string, false⟩
  | "string-array" => some ⟨.string, true⟩
  | _ => none

structure Parameter where
  type : ParameterType
  len : BitVec 32
  elements : BitVec 32
  deriving DecidableEq

structure UdpMessage where
  name : String
  peer : String
  parameters : List Parameter
  len : BitVec 32
  localPort : BitVec 32
  peerPort : BitVec 32
  deriving DecidableEq

/-- A `Parameter` element.  A text which is missing is empty; the numbers are what pugixml makes
of the attributes. -/
structure ParameterXml where
  type : String
  bytes : Option (BitVec 32)
  elements : Option (BitVec 32)
  deriving DecidableEq

/-- A `Message` element. -/
structure MessageXml where
  name : String
  localPort : Option (BitVec 32)
  peerPort : Option (BitVec 32)
  peer : Option String
  parameters : List ParameterXml
  deriving DecidableEq

/-- The defaults of the adapter. -/
structure Defaults where
  localPort : BitVec 32
  peerPort : BitVec 32
  peer : String
  deriving DecidableEq

/-- A port, or the default unless that is 0. -/
def parsePort (given : Option (BitVec 32)) (default : BitVec 32) : Option (BitVec 32) :=
  match given with
  | some port => if port = 0 ∨ 65535 < port.toNat then none else some port
  | none => if default ≠ 0 then some default else none

/-- The lengths which are accepted for a type. -/
def Kind.acceptsBytes : Kind → BitVec 32 → Bool
  | .int, len | .float, len => len = 2 || len = 4
  | .bool, len => len = 1 || len = 2 || len = 4
  | .string, len => 1 ≤ len.toNat

def parseParameter (param : ParameterXml) : Option Parameter :=
  match param.bytes with
  | none => none
  | some len =>
    if len = 0 then none
    else
      match ParameterType.ofName param.type with
      | none => none
      | some type =>
        if !type.kind.acceptsBytes len then none
        else if type.array then
          match param.elements with
          | none => none
          | some elements => if elements = 0 then none else some ⟨type, len, elements⟩
        else if param.elements.isSome then none
        else some ⟨type, len, 1⟩

def parseMessageDefinition (defaults : Defaults) (msgXml : MessageXml) : Option UdpMessage := do
  if msgXml.name = "" then none
  let localPort ← parsePort msgXml.localPort defaults.localPort
  let peerPort ← parsePort msgXml.peerPort defaults.peerPort
  let parameters ← msgXml.parameters.mapM parseParameter
  return {
    name := msgXml.name
    peer := msgXml.peer.getD defaults.peer
    parameters
    len := parameters.foldl (fun len arg => len + arg.len * arg.elements) 0
    localPort
    peerPort }

/-! ### Encoding -/

inductive BuildError where
  | wrongNumberOfParameters
  | unknownValue
  | wrongType
  | invalidLength
  | outOfRange
  | tooLong
  | wrongSize
  | unknownElement
  deriving DecidableEq

/-- `encode_int32_t`. -/
def encodeInt32 (n : BitVec 32) : List Byte := Byte.bigEndian 4 n

def encodeShortInt (n : BitVec 16) : List Byte := Byte.bigEndian 2 n

/-- A `float` is given by its bits. -/
def encodeFloat (x : Binary32) : List Byte := encodeInt32 x

def encodeBool (len : BitVec 32) (temp : Boolean) : Except BuildError (List Byte) :=
  if len = 1 then .ok [if temp then 1 else 0]
  else if len = 2 then .ok (encodeShortInt (if temp then 1 else 0))
  else if len = 4 then .ok (encodeInt32 (if temp then 1 else 0))
  else .error .invalidLength

def encodeInteger (len : BitVec 32) (temp : Integer) : Except BuildError (List Byte) :=
  if len ≠ 2 ∧ len ≠ 4 then .error .invalidLength
  else if len = 2 then
    if temp.toInt < -2 ^ 15 ∨ 2 ^ 15 ≤ temp.toInt then .error .outOfRange
    else .ok (encodeShortInt (temp.setWidth 16))
  else .ok (encodeInt32 temp)

/-- The largest finite `float`, and its negation. -/
def fltMax : Real := 0x47EFFFFFE0000000#64

def negFltMax : Real := 0xC7EFFFFFE0000000#64

/-- `toFloat` is the conversion to `float`, which rounds. -/
def encodeReal (toFloat : Real → Binary32) (len : BitVec 32) (temp : Real) :
    Except BuildError (List Byte) :=
  if len ≠ 4 then .error .invalidLength
  else if temp.lt negFltMax ∨ fltMax.lt temp then .error .outOfRange
  else .ok (encodeFloat (toFloat temp))

/-- The bytes of a string, without an end. -/
def encodeString (len : BitVec 32) (str : StringValue) : Except BuildError (List Byte) :=
  if len.toNat < str.length then .error .tooLong else .ok str

/-- The lengths which the encoder accepts for the elements of an array. -/
def Kind.encodesBytes : Kind → BitVec 32 → Bool
  | .int, len => len = 2 || len = 4
  | .float, len => len = 4
  | .bool, len => len = 1 || len = 2 || len = 4
  | .string, _ => true

def encodeElement {α : Type} (encode : α → Except BuildError (List Byte))
    (element : ArrayElement α) : Except BuildError (List Byte) :=
  if element.known then encode element.contents else .error .unknownElement

/-- The elements of an array of the declared size. -/
def encodeArray {α : Type} (param : Parameter) (encode : α → Except BuildError (List Byte))
    (start : BitVec 32) (array : ArrayImpl α) : Except BuildError Output :=
  if !param.type.kind.encodesBytes param.len then .error .invalidLength
  else if param.elements.toNat ≠ array.length then .error .wrongSize
  else writeSlots param.len (encodeElement encode) start array

section

variable (toFloat : Real → Binary32)

/-- The body of the loop of `buildUdpBuffer`. -/
def encodeParameter (param : Parameter) (start : BitVec 32) (value : Intfc.Value) :
    Except BuildError Output :=
  if !value.isKnown then .error .unknownValue
  else
    match param.type, value with
    | ⟨.bool, false⟩, .boolean temp => writeSlots param.len (encodeBool param.len) start [temp]
    | ⟨.int, false⟩, .integer temp => writeSlots param.len (encodeInteger param.len) start [temp]
    | ⟨.float, false⟩, .real temp =>
      writeSlots param.len (encodeReal toFloat param.len) start [temp]
    | ⟨.string, false⟩, .string str => writeSlots param.len (encodeString param.len) start [str]
    | ⟨.bool, true⟩, .booleanArray array => encodeArray param (encodeBool param.len) start array
    | ⟨.int, true⟩, .integerArray array => encodeArray param (encodeInteger param.len) start array
    | ⟨.float, true⟩, .realArray array =>
      encodeArray param (encodeReal toFloat param.len) start array
    | ⟨.string, true⟩, .stringArray array =>
      encodeArray param (encodeString param.len) start array
    | _, _ => .error .wrongType

def encodeParameters (start : BitVec 32) :
    List (Parameter × Intfc.Value) → Except BuildError Output
  | [] => .ok ⟨start, []⟩
  | (param, value) :: rest => do
    let first ← encodeParameter toFloat param start value
    let others ← encodeParameters first.index rest
    return ⟨others.index, first.writes ++ others.writes⟩

/-- The size which is returned, and what is written into the buffer. -/
def buildUdpBuffer (msg : UdpMessage) (args : List Intfc.Value) (skipArg : Bool) :
    Except BuildError Output :=
  if args.length ≠ msg.parameters.length + (if skipArg then 1 else 0) then
    .error .wrongNumberOfParameters
  else
    encodeParameters toFloat 0 (msg.parameters.zip (if skipArg then args.drop 1 else args))

end

/-! ### Decoding -/

/-- Why decoding stops: a length which is not supported, a read outside of the buffer, or the
exception for a string or an array of a negative length. -/
inductive Stop where
  | invalidLength
  | outOfBounds
  | lengthError
  deriving DecidableEq

def orOutOfBounds {α : Type} : Option α → Except Stop α
  | some x => .ok x
  | none => .error .outOfBounds

/-- `decode_int32_t`. -/
def decodeInt32 (buffer : List Byte) (start : Int) : Except Stop (BitVec 32) :=
  orOutOfBounds ((load buffer start 4).map (Byte.ofBigEndian (BitVec.setWidth 32)))

def decodeShortInt (buffer : List Byte) (start : Int) : Except Stop (BitVec 16) :=
  orOutOfBounds ((load buffer start 2).map (Byte.ofBigEndian (BitVec.setWidth 16)))

def decodeFloat (buffer : List Byte) (start : Int) : Except Stop Binary32 :=
  decodeInt32 buffer start

/-- The bytes up to a zero; `reserve` does not accept a negative length. -/
def decodeString (len : BitVec 32) (buffer : List Byte) (start : Int) :
    Except Stop StringValue :=
  if len.msb then .error .lengthError
  else orOutOfBounds (loadText buffer start len.toNat)

def decodeInteger (len : BitVec 32) (buffer : List Byte) (start : Int) : Except Stop Integer :=
  if len ≠ 2 ∧ len ≠ 4 then .error .invalidLength
  else if len = 2 then (decodeShortInt buffer start).map (BitVec.signExtend 32)
  else decodeInt32 buffer start

def decodeReal (len : BitVec 32) (buffer : List Byte) (start : Int) : Except Stop Real :=
  if len ≠ 4 then .error .invalidLength
  else (decodeFloat buffer start).map Binary32.toBinary64

def decodeBool (len : BitVec 32) (buffer : List Byte) (start : Int) : Except Stop Boolean :=
  if len = 1 then (orOutOfBounds (load buffer start 1)).map fun bytes => decide (bytes ≠ [0])
  else if len = 2 then (decodeShortInt buffer start).map fun num => decide (num ≠ 0)
  else if len = 4 then (decodeInt32 buffer start).map fun num => decide (num ≠ 0)
  else .error .invalidLength

/-- The value of a parameter which is not an array. -/
def decodeScalar {α : Type} (param : Parameter) (decode : Int → Except Stop α)
    (value : α → Intfc.Value) (offset : BitVec 32) : Except Stop (Intfc.Value × BitVec 32) := do
  let x ← decode offset.toInt
  return (value x, offset + param.len)

/-- The value of an array, all of whose elements become known. -/
def decodeArray {α : Type} (param : Parameter) (decode : Int → Except Stop α)
    (value : ArrayImpl α → Intfc.Value) (offset : BitVec 32) :
    Except Stop (Intfc.Value × BitVec 32) :=
  if param.elements.msb then .error .lengthError
  else do
    let (xs, offset) ← readSlots param.len decode param.elements.toNat offset
    return (value (xs.map fun x => ⟨true, x⟩), offset)

/-- The body of the loop of `handleUdpMessage`. -/
def decodeParameter (buffer : List Byte) (param : Parameter) (offset : BitVec 32) :
    Except Stop (Intfc.Value × BitVec 32) :=
  match param.type with
  | ⟨.int, false⟩ => decodeScalar param (decodeInteger param.len buffer) .integer offset
  | ⟨.int, true⟩ =>
    if param.len ≠ 2 ∧ param.len ≠ 4 then .error .invalidLength
    else decodeArray param (decodeInteger param.len buffer) .integerArray offset
  | ⟨.float, false⟩ => decodeScalar param (decodeReal param.len buffer) .real offset
  | ⟨.float, true⟩ =>
    if param.len ≠ 4 then .error .invalidLength
    else decodeArray param (decodeReal param.len buffer) .realArray offset
  | ⟨.bool, false⟩ => decodeScalar param (decodeBool param.len buffer) .boolean offset
  | ⟨.bool, true⟩ => decodeArray param (decodeBool param.len buffer) .booleanArray offset
  | ⟨.string, false⟩ => decodeScalar param (decodeString param.len buffer) .string offset
  | ⟨.string, true⟩ => decodeArray param (decodeString param.len buffer) .stringArray offset

/-- The values which are decoded, and why decoding has stopped. -/
def decodeParameters (buffer : List Byte) :
    BitVec 32 → List Parameter → List Intfc.Value × Option Stop
  | _, [] => ([], none)
  | offset, param :: rest =>
    match decodeParameter buffer param offset with
    | .error stop => ([], some stop)
    | .ok (value, offset) =>
      let others := decodeParameters buffer offset rest
      (value :: others.1, others.2)

/-- The label of a received message, which stands for its parameters. -/
structure MessageLabel where
  name : String
  counter : Nat
  deriving DecidableEq

/-- The names which `formatMessageName` makes. -/
inductive MessageName where
  | receiveCommand (name : String)
  | getParameter (label : MessageLabel) (id : Nat)
  deriving DecidableEq

inductive QueuedMessage where
  | label (label : MessageLabel)
  | value (value : Intfc.Value)
  deriving DecidableEq

/-- What is added to the message queues, in order, and why `handleUdpMessage` has stopped. -/
structure Handling where
  messages : List (MessageName × QueuedMessage)
  stop : Option Stop
  deriving DecidableEq

/-- The values among the messages. -/
def Handling.values (handling : Handling) : List Intfc.Value :=
  handling.messages.filterMap fun m =>
    match m.2 with
    | .label _ => none
    | .value value => some value

/-- The length of the datagram is not used. -/
def handleUdpMessage (counter : Nat) (msgDef : UdpMessage) (buffer : List Byte) (_length : Nat) :
    Handling :=
  let label : MessageLabel := ⟨msgDef.name, counter⟩
  let decoded := decodeParameters buffer 0 msgDef.parameters
  { messages := (.receiveCommand msgDef.name, .label label) ::
      decoded.1.mapIdx fun i value => (.getParameter label i, .value value)
    stop := decoded.2 }

@[simp] theorem values_handleUdpMessage (counter : Nat) (msgDef : UdpMessage)
    (buffer : List Byte) (length : Nat) :
  (handleUdpMessage counter msgDef buffer length).values
    = (decodeParameters buffer 0 msgDef.parameters).1
  := by
  rw [Handling.values, handleUdpMessage, List.filterMap_cons_none rfl]
  generalize (decodeParameters buffer 0 msgDef.parameters).1 = values
  rw [List.mapIdx_eq_zipIdx_map, List.filterMap_map]
  change values.zipIdx.filterMap (fun p => some p.1) = values
  rw [List.filterMap_eq_map', List.zipIdx_map_fst]

end Plexil.Udp

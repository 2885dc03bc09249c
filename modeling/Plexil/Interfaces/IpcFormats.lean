import Plexil.Value.Value

/-!
# IPC packets

A message which is published by IPC is a packet, or a packet followed by others.  Every
packet has a header with the type of the packet, a count, the serial number of the message
and the identifier of the sender.  The header is followed by the data of its type; here the
type and the data are one `Content`.  A text of a packet is a pointer to a C string.
-/

namespace Plexil.Ipc

open Intfc

abbrev Uid := StringValue

/-- `IpcSerialNumber`. -/
abbrev Serial := BitVec 32

/-- The types of packets, with the data each of them carries. -/
inductive Content where
  | notifyExec
  | command (name : StringValue)
  | message (text : StringValue)
  | lookupNow (name : StringValue)
  | telemetryValues (name : StringValue)
  | returnValues (requestSerial : Serial) (requesterUID : Uid)
  | addPlan (text : StringValue)
  | addPlanFile (text : StringValue)
  | addLibrary (text : StringValue)
  | addLibraryFile (text : StringValue)
  | plannerUpdate (name : StringValue)
  | unknownValue
  | commandHandleValue (handle : CommandHandleValue)
  | booleanValue (value : Boolean)
  | booleanArray (contents : List Boolean)
  | integerValue (value : Integer)
  | integerArray (contents : List Integer)
  | realValue (value : Real)
  | realArray (contents : List Real)
  | stringValue (value : StringValue)
  | stringArray (contents : List StringValue)
  | pairBoolean (name : StringValue) (value : Boolean)
  | pairInteger (name : StringValue) (value : Integer)
  | pairReal (name : StringValue) (value : Real)
  -- The value is a pointer into a copy which is gone when the packet is published.
  | pairString (name : StringValue)
  deriving DecidableEq

structure Packet where
  content : Content
  count : BitVec 16
  serial : Serial
  senderUID : Uid
  deriving DecidableEq

/-- `IpcMessageId`. -/
def Packet.id (packet : Packet) : Uid × Serial := (packet.senderUID, packet.serial)

/-- The names under which packets are published. -/
inductive MsgName where
  | base | returnValue | booleanValue | integerValue | realValue | stringValue
  | booleanArray | integerArray | realArray | stringArray
  | booleanPair | integerPair | realPair | stringPair
  deriving DecidableEq

/-- The name for the type of a packet, `none` for a null pointer. -/
def msgFormatForType : Content → Option MsgName
  | .notifyExec | .unknownValue => some .base
  | .addPlan _ | .addPlanFile _ | .addLibrary _ | .addLibraryFile _ | .command _ | .message _
  | .lookupNow _ | .plannerUpdate _ | .stringValue _ | .telemetryValues _ => some .stringValue
  | .returnValues _ _ => some .returnValue
  | .booleanValue _ => some .booleanValue
  | .integerValue _ => some .integerValue
  | .realValue _ => some .realValue
  | .booleanArray _ => some .booleanArray
  | .integerArray _ => some .integerArray
  | .realArray _ => some .realArray
  | .stringArray _ => some .stringArray
  | .pairBoolean _ _ => some .booleanPair
  | .pairInteger _ _ => some .integerPair
  | .pairReal _ _ => some .realPair
  | .pairString _ => some .stringPair
  | .commandHandleValue _ => none

/-- What is read at a `c_str()`. -/
def cString (s : StringValue) : StringValue := s.takeWhile (· ≠ 0)

/-! ### Values -/

/-- The contents of an array, `none` when an element is unknown. -/
def knownContents {α : Type} : ArrayImpl α → Option (List α)
  | [] => some []
  | element :: rest =>
    if element.known then (knownContents rest).map (element.contents :: ·) else none

/-- The elements which are sent of an array; the size of a packet's array has 32 bits. -/
def sentElements {α : Type} (contents : List α) : List α :=
  contents.take (BitVec.ofNat 32 contents.length).toNat

/-- The packet of a value, `none` when an error is raised. -/
def constructPlexilValueMsg : Intfc.Value → Option Content
  | .unknown _ => some .unknownValue
  | .boolean value => some (.booleanValue value)
  | .integer value => some (.integerValue value)
  | .real value => some (.realValue value)
  | .string value => some (.stringValue (cString value))
  | .commandHandle value => some (.commandHandleValue value)
  | .booleanArray value => (knownContents value).map fun c => .booleanArray (sentElements c)
  | .integerArray value => (knownContents value).map fun c => .integerArray (sentElements c)
  | .realArray value => (knownContents value).map fun c => .realArray (sentElements c)
  | .stringArray value =>
    (knownContents value).map fun c => .stringArray (sentElements (c.map cString))
  | .nodeState _ | .outcome _ | .failure _ => none

/-- The packet of a pair, `none` for a null pointer. -/
def constructPlexilPairMsg (name : StringValue) : Intfc.Value → Option Content
  | .boolean value => some (.pairBoolean (cString name) value)
  | .integer value => some (.pairInteger (cString name) value)
  | .real value => some (.pairReal (cString name) value)
  | .string _ => some (.pairString (cString name))
  | _ => none

/-- An array of known elements. -/
def knownElements {α : Type} (contents : List α) : ArrayImpl α :=
  contents.map fun value => ⟨true, value⟩

/-- The value of a packet, `none` when an error is raised. -/
def getPlexilMsgValue : Content → Option Intfc.Value
  | .commandHandleValue handle => some (.commandHandle handle)
  | .booleanValue value => some (.boolean value)
  | .integerValue value => some (.integer value)
  | .realValue value => some (.real value)
  | .stringValue value => some (.string value)
  | .booleanArray contents => some (.booleanArray (knownElements contents))
  | .integerArray contents => some (.integerArray (knownElements contents))
  | .realArray contents => some (.realArray (knownElements contents))
  | .stringArray contents => some (.stringArray (knownElements contents))
  | .unknownValue => some (.unknown .unknown)
  | .notifyExec | .command _ | .message _ | .lookupNow _ | .telemetryValues _
  | .returnValues _ _ | .addPlan _ | .addPlanFile _ | .addLibrary _ | .addLibraryFile _
  | .plannerUpdate _ | .pairBoolean _ _ | .pairInteger _ _ | .pairReal _ _
  | .pairString _ => none

/-- The `pairName` of a packet. -/
def Content.pairName : Content → Option StringValue
  | .pairBoolean name _ | .pairInteger name _ | .pairReal name _ | .pairString name => some name
  | _ => none

/-! ### Values which are given back -/

/-- The strings which are their C strings. -/
def NulFree (s : StringValue) : Prop := 0 ∉ s

/-- The arrays which are sent as they are. -/
structure Sendable {α : Type} (ary : ArrayImpl α) : Prop where
  length : ary.length < 2 ^ 32
  known : ∀ element ∈ ary, element.known = true

/-- The values which have a packet that is published and gives the value back. -/
def Transmissible : Intfc.Value → Prop
  | .unknown type => type = .unknown
  | .boolean _ | .integer _ | .real _ => True
  | .string value => NulFree value
  | .booleanArray value => Sendable value
  | .integerArray value => Sendable value
  | .realArray value => Sendable value
  | .stringArray value => Sendable value ∧ ∀ element ∈ value, NulFree element.contents
  | .nodeState _ | .outcome _ | .failure _ | .commandHandle _ => False

theorem cString_eq_self (s : StringValue) :
  cString s = s ↔ NulFree s
  := by
  unfold cString NulFree
  induction s with
  | nil => simp
  | cons b s ih =>
    rw [List.takeWhile_cons, List.mem_cons, not_or, ← ih]
    by_cases hb : b = 0#8
    · simp [hb]
    · have hb' : ¬ 0#8 = b := fun h => hb h.symm
      simp [hb, hb']

section Arrays

variable {α : Type}

theorem knownElements_injective :
  Function.Injective (knownElements (α := α))
  := by
  apply List.map_injective_iff.mpr
  intro x y h
  exact congrArg ArrayElement.contents h

theorem knownContents_eq_some (ary : ArrayImpl α) (contents : List α) :
  knownContents ary = some contents ↔ ary = knownElements contents
  := by
  induction ary generalizing contents with
  | nil => cases contents <;> simp [knownContents, knownElements]
  | cons element ary ih =>
    obtain ⟨known, value⟩ := element
    unfold knownElements at ih ⊢
    cases known with
    | false => cases contents <;> simp [knownContents]
    | true =>
      cases contents with
      | nil => simp [knownContents]
      | cons head tail => simp [knownContents, ih tail, and_comm]

/-- An array with elements that are all known has contents. -/
theorem exists_knownElements (ary : ArrayImpl α) :
  (∃ contents, ary = knownElements contents) ↔ ∀ element ∈ ary, element.known = true
  := by
  constructor
  · rintro ⟨contents, rfl⟩ element h
    obtain ⟨value, -, rfl⟩ := List.mem_map.mp h
    rfl
  · intro h
    use ary.getContentsVector
    unfold knownElements ArrayImpl.getContentsVector
    rw [List.map_map]
    symm
    apply List.map_congr_left (g := id) _ |>.trans (List.map_id ary)
    intro element helement
    obtain ⟨known, value⟩ := element
    obtain rfl : known = true := h _ helement
    rfl

/-- The elements are sent and given back exactly when their number fits and each of them is
given back, where `f` is what becomes of an element. -/
theorem sentElements_map_eq_self (f : α → α) (contents : List α) :
  sentElements (contents.map f) = contents ↔
    contents.length < 2 ^ 32 ∧ ∀ value ∈ contents, f value = value
  := by
  unfold sentElements
  rw [List.length_map, BitVec.toNat_ofNat]
  constructor
  · intro h
    have hlength : contents.length % 2 ^ 32 = contents.length := by
      have h' := congrArg List.length h
      rw [List.length_take, List.length_map] at h'
      have := Nat.mod_le contents.length (2 ^ 32)
      omega
    rw [hlength, List.take_of_length_le (List.length_map f).le] at h
    constructor
    · rw [← hlength]
      apply Nat.mod_lt
      apply Nat.two_pow_pos
    · intro value hvalue
      apply List.map_inj_left.mp (h.trans (List.map_id contents).symm) value hvalue
  · rintro ⟨hlength, hf⟩
    rw [Nat.mod_eq_of_lt hlength, List.take_of_length_le (List.length_map f).le]
    apply (List.map_congr_left hf).trans (List.map_id' contents)

/-- An array is given back exactly when it is sendable and its elements are given back, where
`f` is what becomes of an element. -/
theorem array_given_back (f : α → α) (ary : ArrayImpl α) :
  (∃ contents, knownContents ary = some contents ∧
    knownElements (sentElements (contents.map f)) = ary) ↔
    Sendable ary ∧ ∀ element ∈ ary, f element.contents = element.contents
  := by
  constructor
  · rintro ⟨contents, hknown, hsent⟩
    obtain rfl := (knownContents_eq_some ary contents).mp hknown
    obtain ⟨hlength, hf⟩ := (sentElements_map_eq_self f contents).mp
      (knownElements_injective hsent)
    refine ⟨⟨?_, ?_⟩, ?_⟩
    · rw [knownElements, List.length_map]
      apply hlength
    · apply (exists_knownElements _).mp
      use contents
    · intro element helement
      obtain ⟨value, hvalue, rfl⟩ := List.mem_map.mp helement
      apply hf value hvalue
  · rintro ⟨⟨hlength, hknown⟩, hf⟩
    obtain ⟨contents, rfl⟩ := (exists_knownElements ary).mpr hknown
    use contents, (knownContents_eq_some _ _).mpr rfl
    congr 1
    apply (sentElements_map_eq_self f contents).mpr
    constructor
    · rw [knownElements, List.length_map] at hlength
      apply hlength
    · intro value hvalue
      apply hf ⟨true, value⟩
      apply List.mem_map_of_mem hvalue

end Arrays

/-- A value has a packet which is published and gives the value back exactly when it is
transmissible. -/
theorem transmissible_iff (value : Intfc.Value) :
  (∃ content, constructPlexilValueMsg value = some content ∧
    msgFormatForType content ≠ none ∧ getPlexilMsgValue content = some value) ↔
    Transmissible value
  := by
  have booleans := fun ary : ArrayImpl Boolean => array_given_back id ary
  have integers := fun ary : ArrayImpl Integer => array_given_back id ary
  have reals := fun ary : ArrayImpl Real => array_given_back id ary
  have strings := fun ary : ArrayImpl StringValue => array_given_back cString ary
  simp only [List.map_id, id, implies_true, and_true, cString_eq_self]
    at booleans integers reals strings
  cases value with
  | unknown type =>
    simp [constructPlexilValueMsg, msgFormatForType, getPlexilMsgValue, Transmissible, eq_comm]
  | booleanArray value =>
    simp [constructPlexilValueMsg, msgFormatForType, getPlexilMsgValue, Transmissible, booleans]
  | integerArray value =>
    simp [constructPlexilValueMsg, msgFormatForType, getPlexilMsgValue, Transmissible, integers]
  | realArray value =>
    simp [constructPlexilValueMsg, msgFormatForType, getPlexilMsgValue, Transmissible, reals]
  | stringArray value =>
    simp [constructPlexilValueMsg, msgFormatForType, getPlexilMsgValue, Transmissible, strings]
  | boolean | integer | real | string | commandHandle | nodeState | outcome | failure =>
    simp [constructPlexilValueMsg, msgFormatForType, getPlexilMsgValue, Transmissible,
      cString_eq_self]

end Plexil.Ipc

import Plexil.Interfaces.UdpMessage
import Mathlib.Data.List.TakeWhile

/-!
# The round trip of UDP messages

A message which has been encoded into a buffer of zeros is decoded to the values which have been
encoded, a Real as the `float` to which it has been converted, unless a string contains a zero or
the lengths add up to `2 ^ 31` bytes or more.  A `float` of two bytes is accepted in a definition
and cannot be encoded.
-/

open Slots

namespace Plexil.Udp

open Intfc

variable (toFloat : Real → Binary32)

/-! ### Values -/

/-- The value with its Reals as they are sent. -/
def transmitted : Intfc.Value → Intfc.Value
  | .real x => .real (toFloat x).toBinary64
  | .realArray array =>
    .realArray (array.map fun e => { e with contents := (toFloat e.contents).toBinary64 })
  | value => value

def untilZero (str : StringValue) : StringValue := str.takeWhile fun b => b ≠ 0

/-- The value which is received: a string ends before its first zero. -/
def received : Intfc.Value → Intfc.Value
  | .string str => .string (untilZero str)
  | .stringArray array =>
    .stringArray (array.map fun e => { e with contents := untilZero e.contents })
  | value => transmitted toFloat value

/-- No string contains a zero. -/
def noZeros : Intfc.Value → Bool
  | .string str => str.all fun b => b ≠ 0
  | .stringArray array => array.all fun e => e.contents.all fun b => b ≠ 0
  | _ => true

theorem untilZero_eq_iff {str : StringValue} :
  untilZero str = str ↔ (str.all fun b => b ≠ 0) = true
  := by
  rw [untilZero, List.takeWhile_eq_self_iff, List.all_eq_true]

/-- A value is received as it is sent when its strings contain no zeros. -/
theorem received_eq_iff {value : Intfc.Value} :
  received toFloat value = transmitted toFloat value ↔ noZeros value = true
  := by
  cases value with
  | string str =>
    change Intfc.Value.string _ = Intfc.Value.string _ ↔ _
    rw [Intfc.Value.string.injEq]
    exact untilZero_eq_iff
  | stringArray array =>
    change Intfc.Value.stringArray _ = Intfc.Value.stringArray _ ↔ (array.all _) = true
    have hid : array = array.map id := (List.map_id array).symm
    rw [Intfc.Value.stringArray.injEq, List.all_eq_true]
    nth_rewrite 2 [hid]
    rw [List.map_inj_left]
    constructor
    · intro h e he
      exact untilZero_eq_iff.mp (congrArg ArrayElement.contents (h e he))
    · intro h e he
      rw [untilZero_eq_iff.mpr (h e he)]
      rfl
  | _ => exact ⟨fun _ => rfl, fun _ => rfl⟩

theorem map_received_eq_iff {values : List Intfc.Value} :
  values.map (received toFloat) = values.map (transmitted toFloat)
    ↔ ∀ value ∈ values, noZeros value = true
  := by
  rw [List.map_inj_left]
  simp only [received_eq_iff]

/-! ### Codecs -/

theorem decodeInt32_append (pre post : List Byte) (n : BitVec 32) :
  decodeInt32 (pre ++ encodeInt32 n ++ post) pre.length = .ok n
  := by
  have hload := load_append pre (encodeInt32 n) post
  rw [show (encodeInt32 n).length = 4 from Byte.bigEndian_length 4 n] at hload
  rw [decodeInt32, hload]
  exact congrArg Except.ok (Byte.ofBigEndian_bigEndian (by decide) n.isLt)

theorem decodeShortInt_append (pre post : List Byte) (n : BitVec 16) :
  decodeShortInt (pre ++ encodeShortInt n ++ post) pre.length = .ok n
  := by
  have hload := load_append pre (encodeShortInt n) post
  rw [show (encodeShortInt n).length = 2 from Byte.bigEndian_length 2 n] at hload
  rw [decodeShortInt, hload]
  exact congrArg Except.ok (Byte.ofBigEndian_bigEndian (by decide) n.isLt)

/-- An Integer in the range of two bytes. -/
theorem signExtend_setWidth {n : Integer} (h : -2 ^ 15 ≤ n.toInt) (h' : n.toInt < 2 ^ 15) :
  (n.setWidth 16).signExtend 32 = n
  := by
  apply BitVec.eq_of_toInt_eq
  rw [BitVec.toInt_signExtend_of_le (by decide), BitVec.toInt_setWidth]
  rw [BitVec.toInt_eq_toNat_cond] at h h' ⊢
  rw [Int.bmod_def]
  have := n.isLt
  split_ifs at * <;> omega

theorem orOutOfBounds_ok {α : Type} {x : Option α} {y : α} :
  orOutOfBounds x = .ok y ↔ x = some y
  := by
  cases x <;> simp [orOutOfBounds]

theorem decodeInt32_inside {buf : List Byte} {i : Int} {n : BitVec 32}
    (h : decodeInt32 buf i = .ok n) :
  0 ≤ i ∧ i < buf.length
  := by
  obtain ⟨bytes, hload, -⟩ := Option.map_eq_some_iff.mp (orOutOfBounds_ok.mp h)
  exact load_inside (by decide) hload

theorem decodeShortInt_inside {buf : List Byte} {i : Int} {n : BitVec 16}
    (h : decodeShortInt buf i = .ok n) :
  0 ≤ i ∧ i < buf.length
  := by
  obtain ⟨bytes, hload, -⟩ := Option.map_eq_some_iff.mp (orOutOfBounds_ok.mp h)
  exact load_inside (by decide) hload

/-- Integers of two or four bytes. -/
def integerCodec (len : BitVec 32) : SlotCodec Integer BuildError Stop :=
  SlotCodec.ofFull len (encodeInteger len) (decodeInteger len) id
    (by
      intro n bytes h
      unfold encodeInteger at h
      split_ifs at h with hlen htwo hrange
      · cases h
        rw [htwo]
        exact Byte.bigEndian_length 2 _
      · cases h
        have hfour : len = 4 := by tauto
        rw [hfour]
        exact Byte.bigEndian_length 4 _)
    (by
      intro n bytes h pre post
      unfold encodeInteger at h
      unfold decodeInteger
      split_ifs at h ⊢ with hlen htwo hrange
      · cases h
        rw [not_or, not_lt, not_le] at hrange
        rw [decodeShortInt_append]
        exact congrArg Except.ok (signExtend_setWidth hrange.1 hrange.2)
      · cases h
        exact decodeInt32_append pre post n)
    (by
      intro buf i n h
      unfold decodeInteger at h
      split_ifs at h with hlen htwo
      · obtain ⟨m, hm, -⟩ := Except.map_eq_ok.mp h
        rw [htwo]
        exact ⟨by decide, decodeShortInt_inside hm⟩
      · have hfour : len = 4 := by tauto
        rw [hfour]
        exact ⟨by decide, decodeInt32_inside h⟩)

/-- Reals of four bytes. -/
def realCodec (len : BitVec 32) : SlotCodec Real BuildError Stop :=
  SlotCodec.ofFull len (encodeReal toFloat len) (decodeReal len) (fun x => (toFloat x).toBinary64)
    (by
      intro x bytes h
      unfold encodeReal at h
      split_ifs at h with hlen hrange
      cases h
      rw [not_not.mp hlen]
      exact Byte.bigEndian_length 4 _)
    (by
      intro x bytes h pre post
      unfold encodeReal at h
      unfold decodeReal decodeFloat
      split_ifs at h ⊢ with hlen hrange
      cases h
      rw [encodeFloat, decodeInt32_append]
      rfl)
    (by
      intro buf i x h
      unfold decodeReal decodeFloat at h
      split_ifs at h with hlen
      obtain ⟨m, hm, -⟩ := Except.map_eq_ok.mp h
      rw [not_not.mp hlen]
      exact ⟨by decide, decodeInt32_inside hm⟩)

/-- Booleans of one, two or four bytes. -/
def boolCodec (len : BitVec 32) : SlotCodec Boolean BuildError Stop :=
  SlotCodec.ofFull len (encodeBool len) (decodeBool len) id
    (by
      intro x bytes h
      unfold encodeBool at h
      split_ifs at h with hone hx htwo hx hfour
      all_goals
        cases h
        subst_vars
        rfl)
    (by
      intro x bytes h pre post
      unfold encodeBool at h
      unfold decodeBool
      by_cases hone : len = 1
      · rw [if_pos hone] at h ⊢
        cases h
        rw [show (1 : Nat) = [if x then (1 : Byte) else 0].length from rfl, load_append]
        cases x <;> rfl
      · rw [if_neg hone] at h ⊢
        by_cases htwo : len = 2
        · rw [if_pos htwo] at h ⊢
          cases h
          rw [decodeShortInt_append]
          cases x <;> rfl
        · rw [if_neg htwo] at h ⊢
          by_cases hfour : len = 4
          · rw [if_pos hfour] at h ⊢
            cases h
            rw [decodeInt32_append]
            cases x <;> rfl
          · rw [if_neg hfour] at h
            contradiction)
    (by
      intro buf i x h
      unfold decodeBool at h
      split_ifs at h with hone htwo hfour
      · obtain ⟨bytes, hbytes, -⟩ := Except.map_eq_ok.mp h
        rw [hone]
        exact ⟨by decide, load_inside (by decide) (orOutOfBounds_ok.mp hbytes)⟩
      · obtain ⟨m, hm, -⟩ := Except.map_eq_ok.mp h
        rw [htwo]
        exact ⟨by decide, decodeShortInt_inside hm⟩
      · obtain ⟨m, hm, -⟩ := Except.map_eq_ok.mp h
        rw [hfour]
        exact ⟨by decide, decodeInt32_inside hm⟩)

theorem untilZero_append_zeros (str : StringValue) (n : Nat) :
  (str ++ zeros n).takeWhile (fun b => b ≠ 0) = untilZero str
  := by
  induction str with
  | nil =>
    cases n <;> rfl
  | cons b str ih =>
    rw [List.cons_append, List.takeWhile_cons, ih, untilZero, untilZero, List.takeWhile_cons]

theorem msb_eq_false {x : BitVec 32} (h : x.toNat < 2 ^ 31) : x.msb = false
  := by
  rw [BitVec.msb_eq_decide, decide_eq_false_iff_not]
  omega

/-- Strings, which may be shorter than their slots. -/
def stringCodec (len : BitVec 32) (hlen : 0 < len.toNat) :
    SlotCodec StringValue BuildError Stop where
  len := len
  encode := encodeString len
  decode := decodeString len
  received := untilZero
  encode_length := by
    intro str bytes h
    unfold encodeString at h
    split_ifs at h with hlong
    cases h
    omega
  decode_encode := by
    intro str bytes h hfits pre post
    unfold encodeString at h
    split_ifs at h with hlong
    cases h
    have hload := loadText_append (str ++ zeros (len.toNat - str.length)) pre post
    have hlength : (str ++ zeros (len.toNat - str.length)).length = len.toNat := by
      rw [List.length_append, zeros_length]
      omega
    rw [hlength, untilZero_append_zeros] at hload
    unfold decodeString
    rw [msb_eq_false hfits, hload]
    rfl
  decode_inside := by
    intro buf i str h
    unfold decodeString at h
    split_ifs at h with hmsb
    refine ⟨?_, loadText_inside hlen (orOutOfBounds_ok.mp h)⟩
    rw [Bool.not_eq_true, BitVec.msb_eq_decide, decide_eq_false_iff_not] at hmsb
    omega

/-! ### Parameters -/

/-- The number of slots of a parameter. -/
def Parameter.count (param : Parameter) : Nat :=
  if param.type.array then param.elements.toNat else 1

def Parameter.bytes (param : Parameter) : Nat := param.count * param.len.toNat

def UdpMessage.bytes (msg : UdpMessage) : Nat := (msg.parameters.map Parameter.bytes).sum

/-- The lengths which the definition of a message has accepted. -/
def Parameter.Accepted (param : Parameter) : Prop :=
  0 < param.len.toNat ∧ param.type.kind.acceptsBytes param.len = true ∧
    if param.type.array then param.elements ≠ 0 else param.elements = 1

section

variable {α : Type} {codec : SlotCodec α BuildError Stop} {param : Parameter}
  {start : BitVec 32} {out : Output}

/-- A parameter which is not an array. -/
theorem scalar_spec (hlen : codec.len = param.len) {x : α}
    (h : writeSlots codec.len codec.encode start [x] = .ok out)
    (hfits : start.toNat + codec.len.toNat < 2 ^ 31) (value : α → Intfc.Value) :
  ∃ image, Wrote start codec.len.toNat out image ∧
    Finds (fun buf => decodeScalar param (codec.decode buf) value) start image
      (value (codec.received x))
  := by
  obtain ⟨image, hwrote, hfinds⟩ := codec.writeSlots_spec h (by simpa using hfits)
  rw [List.length_singleton, Nat.one_mul] at hwrote
  refine ⟨image, hwrote, ?_⟩
  intro pre post hpre
  obtain ⟨y, hy, hread⟩ := Except.bind_eq_ok.mp (hfinds pre post hpre)
  obtain ⟨hvalues, hindex⟩ := Prod.mk.inj (Except.ok.inj hread)
  obtain rfl : y = codec.received x := List.head_eq_of_cons_eq hvalues
  dsimp only [decodeScalar]
  rw [hy, ← hindex, hlen]
  rfl

theorem elements_known {encode : α → Except BuildError (List Byte)} {len : BitVec 32}
    {array : ArrayImpl α} (h : writeSlots len (encodeElement encode) start array = .ok out) :
  writeSlots len encode start (array.map ArrayElement.contents) = .ok out ∧
    ∀ e ∈ array, e.known = true
  := by
  induction array generalizing start out with
  | nil =>
    refine ⟨h, ?_⟩
    intro e he
    contradiction
  | cons e array ih =>
    rw [writeSlots] at h
    obtain ⟨bytes, hbytes, h⟩ := Except.bind_eq_ok.mp h
    obtain ⟨rest, hrest, h⟩ := Except.bind_eq_ok.mp h
    obtain ⟨hothers, hall⟩ := ih hrest
    unfold encodeElement at hbytes
    split_ifs at hbytes with hknown
    refine ⟨?_, List.forall_mem_cons.mpr ⟨hknown, hall⟩⟩
    rw [List.map_cons, writeSlots, hbytes]
    change (writeSlots len encode (start + len) _ >>= _) = _
    rw [hothers]
    exact h

/-- A parameter which is an array. -/
theorem array_spec (hlen : codec.len = param.len) {array : ArrayImpl α}
    (h : encodeArray param codec.encode start array = .ok out)
    (helements : param.elements.toNat < 2 ^ 31)
    (hfits : start.toNat + param.elements.toNat * codec.len.toNat < 2 ^ 31)
    (value : ArrayImpl α → Intfc.Value) :
  ∃ image, Wrote start (param.elements.toNat * codec.len.toNat) out image ∧
    Finds (fun buf => decodeArray param (codec.decode buf) value) start image
      (value (array.map fun e => { e with contents := codec.received e.contents }))
  := by
  unfold encodeArray at h
  split_ifs at h with hbytes hsize
  rw [← hlen] at h
  obtain ⟨hwrite, hknown⟩ := elements_known h
  rw [not_not] at hsize
  have hlength : (array.map ArrayElement.contents).length = param.elements.toNat := by
    rw [List.length_map, hsize]
  obtain ⟨image, hwrote, hfinds⟩ := codec.writeSlots_spec hwrite (by rwa [hlength])
  rw [hlength] at hwrote hfinds
  refine ⟨image, hwrote, ?_⟩
  intro pre post hpre
  have hread := hfinds pre post hpre
  dsimp only [decodeArray] at hread ⊢
  rw [msb_eq_false helements, if_neg Bool.false_ne_true, ← hlen, hread]
  have hvalues : ((array.map ArrayElement.contents).map codec.received).map
      (fun x => (⟨true, x⟩ : ArrayElement α))
        = array.map fun e => { e with contents := codec.received e.contents } := by
    rw [List.map_map, List.map_map]
    apply List.map_congr_left
    intro e he
    have := hknown e he
    simp [this]
  rw [← hvalues]
  rfl

end

theorem encodesBytes_of_encodeArray {α : Type} {param : Parameter}
    {encode : α → Except BuildError (List Byte)} {start : BitVec 32} {array : ArrayImpl α}
    {out : Output} (h : encodeArray param encode start array = .ok out) :
  param.type.kind.encodesBytes param.len = true
  := by
  unfold encodeArray at h
  split_ifs at h with hbytes
  simpa using hbytes

/-- Elements which are received as they are. -/
theorem map_contents_id {α : Type} (array : ArrayImpl α) :
  array.map (fun e => { e with contents := id e.contents }) = array
  := List.map_id array

/-- One parameter of a message. -/
theorem encodeParameter_spec {param : Parameter} {start : BitVec 32} {value : Intfc.Value}
    {out : Output} (haccepted : param.Accepted)
    (h : encodeParameter toFloat param start value = .ok out)
    (hfits : start.toNat + param.bytes < 2 ^ 31) :
  ∃ image, Wrote start param.bytes out image ∧
    Finds (fun buf => decodeParameter buf param) start image (received toFloat value)
  := by
  obtain ⟨⟨kind, array⟩, len, elements⟩ := param
  obtain ⟨hlen, -, -⟩ := haccepted
  dsimp only at hlen
  unfold encodeParameter at h
  split_ifs at h with hknown
  cases array with
  | false =>
    have hbytes : Parameter.bytes ⟨⟨kind, false⟩, len, elements⟩ = len.toNat := Nat.one_mul _
    rw [hbytes] at hfits ⊢
    cases kind with
    | int =>
      cases value with
      | integer temp => exact @scalar_spec _ (integerCodec len) _ _ _ rfl _ h hfits .integer
      | _ => contradiction
    | float =>
      cases value with
      | real temp => exact @scalar_spec _ (realCodec toFloat len) _ _ _ rfl _ h hfits .real
      | _ => contradiction
    | bool =>
      cases value with
      | boolean temp => exact @scalar_spec _ (boolCodec len) _ _ _ rfl _ h hfits .boolean
      | _ => contradiction
    | string =>
      cases value with
      | string str => exact @scalar_spec _ (stringCodec len hlen) _ _ _ rfl _ h hfits .string
      | _ => contradiction
  | true =>
    have hbytes : Parameter.bytes ⟨⟨kind, true⟩, len, elements⟩
        = elements.toNat * len.toNat := rfl
    rw [hbytes] at hfits ⊢
    have helements : elements.toNat < 2 ^ 31 := by
      have := Nat.le_mul_of_pos_right elements.toNat hlen
      omega
    cases kind with
    | int =>
      cases value with
      | integerArray array =>
        have hvalid := encodesBytes_of_encodeArray h
        have hreceived : received toFloat (.integerArray array) = .integerArray (array.map
            fun e => { e with contents := (integerCodec len).received e.contents }) :=
          congrArg Intfc.Value.integerArray (map_contents_id array).symm
        have hdecode : (fun buf => decodeParameter buf ⟨⟨.int, true⟩, len, elements⟩)
            = fun buf => decodeArray ⟨⟨.int, true⟩, len, elements⟩ (decodeInteger len buf)
                .integerArray := by
          funext buf start
          have hlen' : ¬ (len ≠ 2 ∧ len ≠ 4) := by
            rw [← not_or, not_not]
            simpa [Kind.encodesBytes] using hvalid
          exact if_neg hlen'
        rw [hdecode, hreceived]
        exact @array_spec _ (integerCodec len) _ _ _ rfl _ h helements hfits .integerArray
      | _ => contradiction
    | float =>
      cases value with
      | realArray array =>
        have hvalid := encodesBytes_of_encodeArray h
        have hdecode : (fun buf => decodeParameter buf ⟨⟨.float, true⟩, len, elements⟩)
            = fun buf => decodeArray ⟨⟨.float, true⟩, len, elements⟩ (decodeReal len buf)
                .realArray := by
          funext buf start
          have hlen' : ¬ len ≠ 4 := by
            simpa [Kind.encodesBytes] using hvalid
          exact if_neg hlen'
        rw [hdecode]
        exact @array_spec _ (realCodec toFloat len) _ _ _ rfl _ h helements hfits .realArray
      | _ => contradiction
    | bool =>
      cases value with
      | booleanArray array =>
        have hreceived : received toFloat (.booleanArray array) = .booleanArray (array.map
            fun e => { e with contents := (boolCodec len).received e.contents }) :=
          congrArg Intfc.Value.booleanArray (map_contents_id array).symm
        rw [hreceived]
        exact @array_spec _ (boolCodec len) _ _ _ rfl _ h helements hfits .booleanArray
      | _ => contradiction
    | string =>
      cases value with
      | stringArray array =>
        exact @array_spec _ (stringCodec len hlen) _ _ _ rfl _ h helements hfits .stringArray
      | _ => contradiction

/-! ### Places -/

theorem encodeArray_index {α : Type} {param : Parameter}
    {encode : α → Except BuildError (List Byte)} {start : BitVec 32} {array : ArrayImpl α}
    {out : Output} (h : encodeArray param encode start array = .ok out) :
  out.index = start + BitVec.ofNat 32 (param.elements.toNat * param.len.toNat)
  := by
  unfold encodeArray at h
  split_ifs at h with hbytes hsize
  rw [writeSlots_index h, ← not_not.mp hsize]

/-- The place behind a parameter, which may have wrapped. -/
theorem encodeParameter_index {param : Parameter} {start : BitVec 32} {value : Intfc.Value}
    {out : Output} (h : encodeParameter toFloat param start value = .ok out) :
  out.index = start + BitVec.ofNat 32 param.bytes
  := by
  unfold encodeParameter at h
  split_ifs at h with hknown
  split at h
  case h_9 => contradiction
  all_goals
    rename_i htype
    unfold Parameter.bytes Parameter.count
    rw [htype]
  case h_1 | h_2 | h_3 | h_4 => exact writeSlots_index h
  case h_5 | h_6 | h_7 | h_8 => exact encodeArray_index h

section

variable {α : Type} {codec : SlotCodec α BuildError Stop} {param : Parameter}
  {buffer : List Byte} {offset offset' : BitVec 32} {value : Intfc.Value}

theorem decodeScalar_index (hlen : codec.len = param.len) {make : α → Intfc.Value}
    (h : decodeScalar param (codec.decode buffer) make offset = .ok (value, offset')) :
  offset.toNat + param.len.toNat < 2 ^ 32 ∧ offset'.toNat = offset.toNat + param.len.toNat
  := by
  obtain ⟨x, hx, h⟩ := Except.bind_eq_ok.mp h
  cases h
  have hread : readSlots codec.len (codec.decode buffer) 1 offset
      = .ok ([x], offset + param.len) := by
    rw [readSlots, hx, hlen]
    rfl
  simpa [hlen] using codec.readSlots_index hread

theorem decodeArray_index (hlen : codec.len = param.len) {make : ArrayImpl α → Intfc.Value}
    (h : decodeArray param (codec.decode buffer) make offset = .ok (value, offset')) :
  offset.toNat + param.elements.toNat * param.len.toNat < 2 ^ 32 ∧
    offset'.toNat = offset.toNat + param.elements.toNat * param.len.toNat
  := by
  unfold decodeArray at h
  split_ifs at h with hmsb
  obtain ⟨⟨xs, last⟩, hread, h⟩ := Except.bind_eq_ok.mp h
  cases h
  rw [← hlen] at hread ⊢
  exact codec.readSlots_index hread

end

/-- The place behind a parameter which has been decoded has not wrapped. -/
theorem decodeParameter_index {param : Parameter} (hlen : 0 < param.len.toNat)
    {buffer : List Byte} {offset offset' : BitVec 32} {value : Intfc.Value}
    (h : decodeParameter buffer param offset = .ok (value, offset')) :
  offset.toNat + param.bytes < 2 ^ 32 ∧ offset'.toNat = offset.toNat + param.bytes
  := by
  unfold decodeParameter at h
  split at h
  all_goals
    rename_i htype
    unfold Parameter.bytes Parameter.count
    rw [htype]
  case h_1 => simpa using @decodeScalar_index _ (integerCodec param.len) _ _ _ _ _ rfl _ h
  case h_2 =>
    split_ifs at h
    exact @decodeArray_index _ (integerCodec param.len) _ _ _ _ _ rfl _ h
  case h_3 =>
    simpa using @decodeScalar_index _ (realCodec (fun _ => 0) param.len) _ _ _ _ _ rfl _ h
  case h_4 =>
    split_ifs at h
    exact @decodeArray_index _ (realCodec (fun _ => 0) param.len) _ _ _ _ _ rfl _ h
  case h_5 => simpa using @decodeScalar_index _ (boolCodec param.len) _ _ _ _ _ rfl _ h
  case h_6 => exact @decodeArray_index _ (boolCodec param.len) _ _ _ _ _ rfl _ h
  case h_7 => simpa using @decodeScalar_index _ (stringCodec param.len hlen) _ _ _ _ _ rfl _ h
  case h_8 => exact @decodeArray_index _ (stringCodec param.len hlen) _ _ _ _ _ rfl _ h

/-! ### Messages -/

/-- All parameters are decoded to what is received. -/
theorem encodeParameters_spec {pairs : List (Parameter × Intfc.Value)} {start : BitVec 32}
    {out : Output} (haccepted : ∀ p ∈ pairs, p.1.Accepted)
    (h : encodeParameters toFloat start pairs = .ok out)
    (hfits : start.toNat + (pairs.map fun p => p.1.bytes).sum < 2 ^ 31) :
  ∃ image, Wrote start (pairs.map fun p => p.1.bytes).sum out image ∧
    ∀ pre post : List Byte, pre.length = start.toNat →
      decodeParameters (pre ++ image ++ post) start (pairs.map Prod.fst)
        = (pairs.map fun p => received toFloat p.2, none)
  := by
  induction pairs generalizing start out with
  | nil =>
    cases h
    refine ⟨[], wrote_nil start, ?_⟩
    intro pre post _
    rfl
  | cons p pairs ih =>
    obtain ⟨param, value⟩ := p
    rw [List.map_cons, List.sum_cons] at hfits ⊢
    obtain ⟨first, hfirst, h⟩ := Except.bind_eq_ok.mp h
    obtain ⟨others, hothers, h⟩ := Except.bind_eq_ok.mp h
    cases h
    dsimp only at hfits ⊢
    have haccepted' : param.Accepted := haccepted _ List.mem_cons_self
    obtain ⟨image, hwrote, hfinds⟩ := encodeParameter_spec toFloat haccepted' hfirst (by omega)
    have hindex := hwrote.index
    obtain ⟨image', hwrote', hdecode⟩ :=
      ih (fun q hq => haccepted q (List.mem_cons_of_mem _ hq)) hothers (by omega)
    refine ⟨image ++ image', hwrote.append hwrote', ?_⟩
    intro pre post hpre
    have hhead := hfinds pre (image' ++ post) hpre
    have htail := hdecode (pre ++ image) post
      (by rw [List.length_append, hwrote.length, hpre, hindex])
    have hplace : start + BitVec.ofNat 32 image.length = first.index := by
      rw [hwrote.length, encodeParameter_index toFloat hfirst]
    simp only [List.append_assoc] at hhead htail ⊢
    rw [List.map_cons, List.map_cons, decodeParameters, hhead, hplace]
    dsimp only
    rw [htail]

theorem encodeParameters_index {pairs : List (Parameter × Intfc.Value)} {start : BitVec 32}
    {out : Output} (h : encodeParameters toFloat start pairs = .ok out) :
  out.index = start + BitVec.ofNat 32 (pairs.map fun p => p.1.bytes).sum
  := by
  induction pairs generalizing start out with
  | nil =>
    cases h
    simp
  | cons p pairs ih =>
    obtain ⟨param, value⟩ := p
    obtain ⟨first, hfirst, h⟩ := Except.bind_eq_ok.mp h
    obtain ⟨others, hothers, h⟩ := Except.bind_eq_ok.mp h
    cases h
    rw [List.map_cons, List.sum_cons, BitVec.ofNat_add, ← BitVec.add_assoc,
      ← encodeParameter_index toFloat hfirst, ← ih hothers]

theorem decodeParameters_index {params : List Parameter} (hlen : ∀ p ∈ params, 0 < p.len.toNat)
    {buffer : List Byte} {offset : BitVec 32}
    (h : (decodeParameters buffer offset params).2 = none) :
  offset.toNat + (params.map Parameter.bytes).sum < 2 ^ 32
  := by
  induction params generalizing offset with
  | nil =>
    have := offset.isLt
    simpa using this
  | cons param params ih =>
    rw [decodeParameters] at h
    split at h
    · contradiction
    · rename_i value last hdecode
      have hindex := decodeParameter_index (hlen _ List.mem_cons_self) hdecode
      have hrest := ih (fun p hp => hlen p (List.mem_cons_of_mem _ hp)) h
      rw [List.map_cons, List.sum_cons]
      omega

/-! ### Accepted definitions -/

theorem accepted_of_parseParameter {xml : ParameterXml} {param : Parameter}
    (h : parseParameter xml = some param) :
  param.Accepted
  := by
  unfold parseParameter at h
  split at h
  · contradiction
  · rename_i len hbytes
    split at h
    · contradiction
    · rename_i hzero
      have hpos : 0 < len.toNat := by
        rw [Nat.pos_iff_ne_zero]
        intro hlen
        exact hzero (BitVec.eq_of_toNat_eq hlen)
      split at h
      · contradiction
      · rename_i type htype
        split at h
        · contradiction
        · rename_i hvalid
          split at h
          · rename_i harray
            split at h
            · contradiction
            · split at h
              · contradiction
              · rename_i helements
                cases h
                refine ⟨hpos, by simpa using hvalid, ?_⟩
                rw [if_pos harray]
                exact helements
          · rename_i harray
            split at h
            · contradiction
            · cases h
              refine ⟨hpos, by simpa using hvalid, ?_⟩
              rw [if_neg harray]

theorem parameters_accepted {xmls : List ParameterXml} {params : List Parameter}
    (h : xmls.mapM parseParameter = some params) :
  ∀ param ∈ params, param.Accepted
  := by
  induction xmls generalizing params with
  | nil =>
    cases h
    intro param hparam
    contradiction
  | cons xml xmls ih =>
    rw [List.mapM_cons] at h
    obtain ⟨first, hfirst, h⟩ := Option.bind_eq_some_iff.mp h
    obtain ⟨others, hothers, h⟩ := Option.bind_eq_some_iff.mp h
    cases h
    exact List.forall_mem_cons.mpr ⟨accepted_of_parseParameter hfirst, ih hothers⟩

theorem Parameter.Accepted.bytes_eq {param : Parameter} (h : param.Accepted) :
  param.len * param.elements = BitVec.ofNat 32 param.bytes
  := by
  have hcount : BitVec.ofNat 32 param.count = param.elements := by
    unfold Parameter.count
    split
    · rw [BitVec.ofNat_toNat, BitVec.setWidth_eq]
    · rename_i harray
      have helements := h.2.2
      rw [if_neg harray] at helements
      rw [helements]
      rfl
  rw [Parameter.bytes, BitVec.ofNat_mul, hcount, BitVec.ofNat_toNat, BitVec.setWidth_eq,
    BitVec.mul_comm]

theorem foldl_len {params : List Parameter} (h : ∀ param ∈ params, param.Accepted)
    (len : BitVec 32) :
  params.foldl (fun len arg => len + arg.len * arg.elements) len
    = len + BitVec.ofNat 32 (params.map Parameter.bytes).sum
  := by
  induction params generalizing len with
  | nil => simp
  | cons param params ih =>
    obtain ⟨hparam, hparams⟩ := List.forall_mem_cons.mp h
    rw [List.foldl_cons, ih hparams, hparam.bytes_eq, List.map_cons, List.sum_cons,
      BitVec.ofNat_add, BitVec.add_assoc]

/-- The length of a message is the sum of its lengths, which may have wrapped. -/
theorem parseMessageDefinition_spec {defaults : Defaults} {msgXml : MessageXml}
    {msg : UdpMessage} (h : parseMessageDefinition defaults msgXml = some msg) :
  (∀ param ∈ msg.parameters, param.Accepted) ∧ msg.len = BitVec.ofNat 32 msg.bytes
  := by
  unfold parseMessageDefinition at h
  split at h
  · contradiction
  · obtain ⟨localPort, -, h⟩ := Option.bind_eq_some_iff.mp h
    obtain ⟨peerPort, -, h⟩ := Option.bind_eq_some_iff.mp h
    obtain ⟨parameters, hparameters, h⟩ := Option.bind_eq_some_iff.mp h
    cases h
    have haccepted := parameters_accepted hparameters
    refine ⟨haccepted, ?_⟩
    have hlen := foldl_len haccepted 0#32
    rw [BitVec.zero_add] at hlen
    exact hlen

/-! ### Round trips -/

/-- The arguments which are sent. -/
def usedArgs (args : List Intfc.Value) (skipArg : Bool) : List Intfc.Value :=
  if skipArg then args.drop 1 else args

/-- The size which has been returned is the length of the message, nothing has been written
outside of the buffer, and the values which are sent are queued. -/
structure RoundTrips (counter : Nat) (msg : UdpMessage) (args : List Intfc.Value) (out : Output) :
    Prop where
  size : out.index = msg.len
  inside : ∀ w ∈ out.writes, w.2 ≠ [] →
    0 ≤ w.1.toInt ∧ w.1.toInt + w.2.length ≤ msg.len.toNat
  values : (handleUdpMessage counter msg (storeAll (zeros msg.len.toNat) out.writes)
    msg.len.toNat).values = args.map (transmitted toFloat)
  complete : (handleUdpMessage counter msg (storeAll (zeros msg.len.toNat) out.writes)
    msg.len.toNat).stop = none

section

variable {msg : UdpMessage} {args : List Intfc.Value} {skipArg : Bool} {out : Output}

theorem buildUdpBuffer_pairs (h : buildUdpBuffer toFloat msg args skipArg = .ok out) :
  encodeParameters toFloat 0 (msg.parameters.zip (usedArgs args skipArg)) = .ok out ∧
    (usedArgs args skipArg).length = msg.parameters.length
  := by
  unfold buildUdpBuffer at h
  unfold usedArgs
  cases skipArg with
  | false =>
    rw [if_neg Bool.false_ne_true, if_neg Bool.false_ne_true] at h
    rw [if_neg Bool.false_ne_true]
    split at h
    · contradiction
    · rename_i hlength
      exact ⟨h, not_not.mp hlength⟩
  | true =>
    rw [if_pos rfl, if_pos rfl] at h
    rw [if_pos rfl]
    split at h
    · contradiction
    · rename_i hlength
      rw [not_not] at hlength
      refine ⟨h, ?_⟩
      rw [List.length_drop]
      omega

theorem map_fst_bytes_sum {params : List Parameter} {values : List Intfc.Value}
    (h : values.length = params.length) :
  ((params.zip values).map fun p => p.1.bytes).sum = (params.map Parameter.bytes).sum
  := by
  conv_rhs => rw [← List.map_fst_zip h.ge, List.map_map]
  rfl

/-- What is queued for a message whose lengths fit. -/
theorem buildUdpBuffer_spec (haccepted : ∀ param ∈ msg.parameters, param.Accepted)
    (hlen : msg.len = BitVec.ofNat 32 msg.bytes)
    (h : buildUdpBuffer toFloat msg args skipArg = .ok out) (hfits : msg.bytes < 2 ^ 31)
    (counter : Nat) :
  RoundTrips toFloat counter msg (usedArgs args skipArg) out
    ↔ ∀ value ∈ usedArgs args skipArg, noZeros value = true
  := by
  obtain ⟨hencode, hlength⟩ := buildUdpBuffer_pairs toFloat h
  have hfst : (msg.parameters.zip (usedArgs args skipArg)).map Prod.fst = msg.parameters :=
    List.map_fst_zip hlength.ge
  have hsnd : (msg.parameters.zip (usedArgs args skipArg)).map Prod.snd
      = usedArgs args skipArg := List.map_snd_zip hlength.le
  have hsum : ((msg.parameters.zip (usedArgs args skipArg)).map fun p => p.1.bytes).sum
      = msg.bytes := map_fst_bytes_sum hlength
  have haccepted' : ∀ p ∈ msg.parameters.zip (usedArgs args skipArg), p.1.Accepted :=
    fun p hp => haccepted p.1 (List.of_mem_zip hp).1
  obtain ⟨image, hwrote, hdecode⟩ := encodeParameters_spec toFloat haccepted' hencode
    (by rw [hsum]; simpa using hfits)
  rw [hsum] at hwrote
  have hbytes : msg.len.toNat = msg.bytes := by
    rw [hlen, BitVec.toNat_ofNat]
    omega
  have himage := hwrote.stored [] [] rfl
  have hqueue := hdecode [] [] rfl
  rw [List.nil_append, List.append_nil, List.nil_append, List.append_nil] at himage
  rw [List.nil_append, List.append_nil, hfst] at hqueue
  have hreceived : ((msg.parameters.zip (usedArgs args skipArg)).map
      fun p => received toFloat p.2) = (usedArgs args skipArg).map (received toFloat) := by
    rw [← hsnd, List.map_map, hsnd]
    rfl
  rw [hreceived] at hqueue
  rw [← map_received_eq_iff toFloat]
  constructor
  · intro hround
    have hvalues := hround.values
    rw [values_handleUdpMessage, hbytes, himage, hqueue] at hvalues
    exact hvalues
  · intro hvalues
    constructor
    · apply BitVec.eq_of_toNat_eq
      rw [hwrote.index, hbytes]
      simp
    · intro w hw _
      have hinside := hwrote.inside w hw
      rw [show (0 : BitVec 32).toNat = 0 from rfl, Nat.zero_add] at hinside
      rw [toInt_of_lt (by omega), hbytes]
      omega
    · rw [values_handleUdpMessage, hbytes, himage, hqueue]
      exact hvalues
    · rw [hbytes, himage]
      change (decodeParameters image 0 msg.parameters).2 = none
      rw [hqueue]

/-- A message which goes round has lengths which fit. -/
theorem bytes_lt_of_roundTrips (haccepted : ∀ param ∈ msg.parameters, param.Accepted)
    (h : buildUdpBuffer toFloat msg args skipArg = .ok out) (hsize : 0 ≤ out.index.toInt)
    {counter : Nat} (hround : RoundTrips toFloat counter msg (usedArgs args skipArg) out) :
  msg.bytes < 2 ^ 31
  := by
  have hcomplete : (decodeParameters (storeAll (zeros msg.len.toNat) out.writes) 0
      msg.parameters).2 = none := hround.complete
  have htotal := decodeParameters_index (fun p hp => (haccepted p hp).1) hcomplete
  rw [show (0 : BitVec 32).toNat = 0 from rfl, Nat.zero_add] at htotal
  obtain ⟨hencode, hlength⟩ := buildUdpBuffer_pairs toFloat h
  have hindex := encodeParameters_index toFloat hencode
  have hsum : ((msg.parameters.zip (usedArgs args skipArg)).map fun p => p.1.bytes).sum
      = msg.bytes := map_fst_bytes_sum hlength
  have hbelow := lt_of_toInt_nonneg hsize
  rw [hindex, hsum, BitVec.toNat_add, BitVec.toNat_ofNat] at hbelow
  rw [show (0 : BitVec 32).toNat = 0 from rfl, Nat.zero_add] at hbelow
  change msg.bytes < 2 ^ 32 at htotal
  omega

/-- The arguments which are encoded are queued exactly when the lengths fit and no string
contains a zero. -/
theorem roundTrips_iff_of_accepted (haccepted : ∀ param ∈ msg.parameters, param.Accepted)
    (hlen : msg.len = BitVec.ofNat 32 msg.bytes)
    (h : buildUdpBuffer toFloat msg args skipArg = .ok out) (hsize : 0 ≤ out.index.toInt)
    (counter : Nat) :
  RoundTrips toFloat counter msg (usedArgs args skipArg) out
    ↔ msg.bytes < 2 ^ 31 ∧ ∀ value ∈ usedArgs args skipArg, noZeros value = true
  := by
  constructor
  · intro hround
    have hfits := bytes_lt_of_roundTrips toFloat haccepted h hsize hround
    exact ⟨hfits, (buildUdpBuffer_spec toFloat haccepted hlen h hfits counter).mp hround⟩
  · rintro ⟨hfits, hzeros⟩
    exact (buildUdpBuffer_spec toFloat haccepted hlen h hfits counter).mpr hzeros

end

/-! ### Definitions which can be encoded -/

/-- A Real is sent in four bytes. -/
def Parameter.Encodable (param : Parameter) : Prop :=
  param.type.kind = .float → param.len = 4

theorem encodable_of_encodeParameter {param : Parameter} {start : BitVec 32} {value : Intfc.Value}
    {out : Output} (h : encodeParameter toFloat param start value = .ok out) :
  param.Encodable
  := by
  intro hfloat
  obtain ⟨⟨kind, array⟩, len, elements⟩ := param
  obtain rfl : kind = .float := hfloat
  unfold encodeParameter at h
  split_ifs at h with hknown
  cases array with
  | false =>
    cases value with
    | real temp =>
      obtain ⟨bytes, hbytes, -⟩ := Except.bind_eq_ok.mp h
      unfold encodeReal at hbytes
      split_ifs at hbytes with hlen
      exact not_not.mp hlen
    | _ => contradiction
  | true =>
    cases value with
    | realArray array => simpa [Kind.encodesBytes] using encodesBytes_of_encodeArray h
    | _ => contradiction

theorem encodable_of_encodeParameters {pairs : List (Parameter × Intfc.Value)} {start : BitVec 32}
    {out : Output} (h : encodeParameters toFloat start pairs = .ok out) :
  ∀ p ∈ pairs, p.1.Encodable
  := by
  induction pairs generalizing start out with
  | nil =>
    intro p hp
    contradiction
  | cons p pairs ih =>
    obtain ⟨param, value⟩ := p
    obtain ⟨first, hfirst, h⟩ := Except.bind_eq_ok.mp h
    obtain ⟨others, hothers, h⟩ := Except.bind_eq_ok.mp h
    exact List.forall_mem_cons.mpr ⟨encodable_of_encodeParameter toFloat hfirst, ih hothers⟩

/-- A value which can be encoded for every accepted length. -/
def Parameter.sample (param : Parameter) : Intfc.Value :=
  match param.type with
  | ⟨.int, false⟩ => .integer 0
  | ⟨.float, false⟩ => .real 0
  | ⟨.bool, false⟩ => .boolean false
  | ⟨.string, false⟩ => .string []
  | ⟨.int, true⟩ => .integerArray (List.replicate param.elements.toNat ⟨true, 0⟩)
  | ⟨.float, true⟩ => .realArray (List.replicate param.elements.toNat ⟨true, 0⟩)
  | ⟨.bool, true⟩ => .booleanArray (List.replicate param.elements.toNat ⟨true, false⟩)
  | ⟨.string, true⟩ => .stringArray (List.replicate param.elements.toNat ⟨true, []⟩)

theorem noZeros_sample (param : Parameter) : noZeros param.sample = true
  := by
  unfold Parameter.sample
  split
  all_goals try rfl
  simp [noZeros]

theorem encodeArray_replicate {α : Type} {param : Parameter}
    {encode : α → Except BuildError (List Byte)} {x : α} {bytes : List Byte}
    (hvalid : param.type.kind.encodesBytes param.len = true) (hx : encode x = .ok bytes)
    (start : BitVec 32) :
  ∃ out, encodeArray param encode start (List.replicate param.elements.toNat ⟨true, x⟩) = .ok out
  := by
  unfold encodeArray
  rw [hvalid, Bool.not_true, if_neg Bool.false_ne_true, List.length_replicate, if_neg (by simp)]
  apply writeSlots_ok
  intro e he
  rw [List.eq_of_mem_replicate he]
  exact ⟨bytes, hx⟩

theorem encodeInteger_zero {len : BitVec 32} (h : Kind.int.acceptsBytes len = true) :
  ∃ bytes, encodeInteger len 0 = .ok bytes
  := by
  rw [Kind.acceptsBytes, Bool.or_eq_true, decide_eq_true_eq, decide_eq_true_eq] at h
  rcases h with rfl | rfl <;> exact ⟨_, rfl⟩

theorem encodeBool_false {len : BitVec 32} (h : Kind.bool.acceptsBytes len = true) :
  ∃ bytes, encodeBool len false = .ok bytes
  := by
  rw [Kind.acceptsBytes, Bool.or_eq_true, Bool.or_eq_true, decide_eq_true_eq, decide_eq_true_eq,
    decide_eq_true_eq] at h
  rcases h with (rfl | rfl) | rfl <;> exact ⟨_, rfl⟩

theorem encodeReal_zero : ∃ bytes, encodeReal toFloat 4 0 = .ok bytes
  := by
  unfold encodeReal
  rw [if_neg (by decide), if_neg (by decide)]
  exact ⟨_, rfl⟩

theorem encodeString_nil (len : BitVec 32) : ∃ bytes, encodeString len [] = .ok bytes
  := ⟨[], rfl⟩

theorem writeSlots_singleton {α : Type} {len : BitVec 32}
    {encode : α → Except BuildError (List Byte)} {x : α} (h : ∃ bytes, encode x = .ok bytes)
    (start : BitVec 32) :
  ∃ out, writeSlots len encode start [x] = .ok out
  := by
  apply writeSlots_ok
  intro y hy
  rwa [List.mem_singleton.mp hy]

/-- The sample of a parameter is encoded. -/
theorem encodeParameter_sample {param : Parameter} (haccepted : param.Accepted)
    (hencodable : param.Encodable) (start : BitVec 32) :
  ∃ out, encodeParameter toFloat param start param.sample = .ok out
  := by
  obtain ⟨⟨kind, array⟩, len, elements⟩ := param
  obtain ⟨-, hvalid, -⟩ := haccepted
  cases kind with
  | int =>
    obtain ⟨bytes, hbytes⟩ := encodeInteger_zero hvalid
    cases array with
    | false => exact writeSlots_singleton ⟨bytes, hbytes⟩ start
    | true => exact @encodeArray_replicate _ ⟨⟨.int, true⟩, len, elements⟩ _ _ _ hvalid hbytes start
  | float =>
    obtain rfl : len = 4 := hencodable rfl
    obtain ⟨bytes, hbytes⟩ := encodeReal_zero toFloat
    cases array with
    | false => exact writeSlots_singleton ⟨bytes, hbytes⟩ start
    | true => exact @encodeArray_replicate _ ⟨⟨.float, true⟩, 4, elements⟩ _ _ _ rfl hbytes start
  | bool =>
    obtain ⟨bytes, hbytes⟩ := encodeBool_false hvalid
    cases array with
    | false => exact writeSlots_singleton ⟨bytes, hbytes⟩ start
    | true => exact @encodeArray_replicate _ ⟨⟨.bool, true⟩, len, elements⟩ _ _ _ hvalid hbytes start
  | string =>
    cases array with
    | false => exact writeSlots_singleton (encodeString_nil len) start
    | true =>
      obtain ⟨bytes, hbytes⟩ := encodeString_nil len
      exact @encodeArray_replicate _ ⟨⟨.string, true⟩, len, elements⟩ _ _ _ rfl hbytes start

theorem encodeParameters_samples {params : List Parameter}
    (haccepted : ∀ param ∈ params, param.Accepted)
    (hencodable : ∀ param ∈ params, param.Encodable) (start : BitVec 32) :
  ∃ out, encodeParameters toFloat start (params.zip (params.map Parameter.sample)) = .ok out
  := by
  induction params generalizing start with
  | nil => exact ⟨_, rfl⟩
  | cons param params ih =>
    obtain ⟨first, hfirst⟩ := encodeParameter_sample toFloat (haccepted _ List.mem_cons_self)
      (hencodable _ List.mem_cons_self) start
    obtain ⟨others, hothers⟩ := ih (fun p hp => haccepted p (List.mem_cons_of_mem _ hp))
      (fun p hp => hencodable p (List.mem_cons_of_mem _ hp)) first.index
    rw [List.map_cons, List.zip_cons_cons, encodeParameters, hfirst]
    change ∃ out, (encodeParameters toFloat first.index _ >>= _) = _
    rw [hothers]
    exact ⟨_, rfl⟩

/-- Some arguments of a message go round exactly when the lengths fit and every Real is sent in
four bytes. -/
theorem exists_roundTrips_iff {msg : UdpMessage}
    (haccepted : ∀ param ∈ msg.parameters, param.Accepted)
    (hlen : msg.len = BitVec.ofNat 32 msg.bytes) (counter : Nat) :
  (∃ args out, buildUdpBuffer toFloat msg args false = .ok out ∧ 0 ≤ out.index.toInt ∧
      RoundTrips toFloat counter msg args out)
    ↔ msg.bytes < 2 ^ 31 ∧ ∀ param ∈ msg.parameters, param.Encodable
  := by
  constructor
  · rintro ⟨args, out, h, hsize, hround⟩
    refine ⟨bytes_lt_of_roundTrips toFloat haccepted h hsize hround, ?_⟩
    obtain ⟨hencode, hlength⟩ := buildUdpBuffer_pairs toFloat h
    have hencodable := encodable_of_encodeParameters toFloat hencode
    intro param hparam
    rw [← List.map_fst_zip hlength.ge] at hparam
    obtain ⟨p, hp, rfl⟩ := List.mem_map.mp hparam
    exact hencodable p hp
  · rintro ⟨hfits, hencodable⟩
    obtain ⟨out, hout⟩ := encodeParameters_samples toFloat haccepted hencodable 0
    have h : buildUdpBuffer toFloat msg (msg.parameters.map Parameter.sample) false = .ok out := by
      unfold buildUdpBuffer
      rw [if_neg (by simp)]
      exact hout
    refine ⟨_, out, h, ?_, ?_⟩
    · have hindex := encodeParameters_index toFloat hout
      rw [map_fst_bytes_sum (List.length_map _)] at hindex
      have hbytes : out.index.toNat = msg.bytes := by
        rw [hindex]
        change (0#32 + _).toNat = _
        rw [BitVec.zero_add, BitVec.toNat_ofNat]
        change msg.bytes % _ = _
        omega
      rw [toInt_of_lt (by omega)]
      omega
    · apply (buildUdpBuffer_spec toFloat haccepted hlen h hfits counter).mpr
      intro value hvalue
      obtain ⟨param, -, rfl⟩ := List.mem_map.mp hvalue
      exact noZeros_sample param

/-- What goes round, for each definition which is accepted: the arguments which are encoded,
unless the lengths do not fit or a string contains a zero; and some arguments at all, unless the
lengths do not fit or a Real is sent in two bytes. -/
theorem roundTrips_iff {defaults : Defaults} {msgXml : MessageXml} {msg : UdpMessage}
    (hparse : parseMessageDefinition defaults msgXml = some msg) (counter : Nat) :
  (∀ (args : List Intfc.Value) (skipArg : Bool) (out : Output),
      buildUdpBuffer toFloat msg args skipArg = .ok out → 0 ≤ out.index.toInt →
      (RoundTrips toFloat counter msg (usedArgs args skipArg) out
        ↔ msg.bytes < 2 ^ 31 ∧ ∀ value ∈ usedArgs args skipArg, noZeros value = true)) ∧
    ((∃ args out, buildUdpBuffer toFloat msg args false = .ok out ∧ 0 ≤ out.index.toInt ∧
        RoundTrips toFloat counter msg args out)
      ↔ msg.bytes < 2 ^ 31 ∧ ∀ param ∈ msg.parameters, param.Encodable)
  := by
  obtain ⟨haccepted, hlen⟩ := parseMessageDefinition_spec hparse
  constructor
  · intro args skipArg out h hsize
    exact roundTrips_iff_of_accepted toFloat haccepted hlen h hsize counter
  · exact exists_roundTrips_iff toFloat haccepted hlen counter

/-- A message with parameters of the given types and lengths, none of which is an array. -/
def scalarMessage (params : List (String × BitVec 32)) : MessageXml :=
  ⟨"m", some 8031, some 8032, none, params.map fun p => ⟨p.1, some p.2, none⟩⟩

def noDefaults : Defaults := ⟨0, 0, "localhost"⟩

/-- A negative Integer in two bytes goes round. -/
theorem roundTrips_iff_minusFive :
  RoundTrips (fun _ => 0) 1 ⟨"m", "localhost", [⟨⟨.int, false⟩, 2, 1⟩], 2, 8031, 8032⟩
    [.integer (-5)] ⟨2, [(0, [255, 251])]⟩
  := by
  have hparse : parseMessageDefinition noDefaults (scalarMessage [("int", 2)])
      = some ⟨"m", "localhost", [⟨⟨.int, false⟩, 2, 1⟩], 2, 8031, 8032⟩ := rfl
  exact ((roundTrips_iff (fun _ => 0) hparse 1).1 [.integer (-5)] false ⟨2, [(0, [255, 251])]⟩
    rfl (by decide)).mpr ⟨by decide, by decide⟩

/-- A `float` of two bytes is accepted, and no arguments go round. -/
theorem not_roundTrips :
  ¬ ∀ (toFloat : Real → Binary32) (defaults : Defaults) (msgXml : MessageXml)
      (msg : UdpMessage) (counter : Nat), parseMessageDefinition defaults msgXml = some msg →
    (∀ (args : List Intfc.Value) (skipArg : Bool) (out : Output),
      buildUdpBuffer toFloat msg args skipArg = .ok out → 0 ≤ out.index.toInt →
      RoundTrips toFloat counter msg (usedArgs args skipArg) out) ∧
    ∃ args out, buildUdpBuffer toFloat msg args false = .ok out ∧ 0 ≤ out.index.toInt ∧
      RoundTrips toFloat counter msg args out
  := by
  intro h
  have hparse : parseMessageDefinition noDefaults (scalarMessage [("float", 2)])
      = some ⟨"m", "localhost", [⟨⟨.float, false⟩, 2, 1⟩], 2, 8031, 8032⟩ := rfl
  obtain ⟨haccepted, hlen⟩ := parseMessageDefinition_spec hparse
  have hexists := (h (fun _ => 0) _ _ _ 1 hparse).2
  have hencodable := ((exists_roundTrips_iff _ haccepted hlen 1).mp hexists).2 _
    (List.mem_singleton.mpr rfl)
  exact absurd (hencodable rfl) (by decide)

end Plexil.Udp

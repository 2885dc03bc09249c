import Plexil.Value.Serialize
import Mathlib.Tactic.IntervalCases

/-!
# Round trips of values

What is read from the bytes which a value has been written to.  The size of an array is
written as three bytes but each is read as a signed `char`, so that the size is misread when
one of the bytes is 128 or more.  An unknown value is written without its type.
-/

namespace Plexil

open Reader

/-! ### Sizes -/

theorem reads_size (n : Nat) :
  Reads deserializeSize (sizeBytes n) (n % 2 ^ 24)
  := by
  have hbytes : (Byte.ofBigEndian (BitVec.setWidth 64) (sizeBytes n)).toNat = n % 2 ^ 24 := by
    have hzero : (0 : BitVec 64).toNat = 0 := rfl
    rw [Byte.ofBigEndian, sizeBytes, Byte.foldl_bigEndian _ _ _ (by decide), BitVec.toNat_ofNat,
      hzero]
    omega
  rw [← hbytes]
  exact (reads_many_byte (Byte.bigEndian_length ..)).map _

/-- The size of an array which is read when `n` has been written. -/
def arraySize (n : Nat) : Nat := (Byte.ofBigEndian (BitVec.signExtend 64) (sizeBytes n)).toNat

theorem reads_arraySize (n : Nat) :
  Reads deserializeArraySize (sizeBytes n) (arraySize n)
  := (reads_many_byte (Byte.bigEndian_length ..)).map _

/-- No byte of the size is negative as a `char`. -/
def PlainSize (n : Nat) : Prop :=
  n / 65536 % 256 < 128 ∧ n / 256 % 256 < 128 ∧ n % 256 < 128

/-- A `char` as a number of type `size_t`. -/
theorem signExtend_toNat (b : Byte) :
  (b.signExtend 64).toNat = if b.toNat < 128 then b.toNat else b.toNat + 18446744073709551360
  := by
  have hb := b.isLt
  have hsmall : b.toNat % 2 ^ 64 = b.toNat := Nat.mod_eq_of_lt (by omega)
  rw [BitVec.toNat_signExtend, BitVec.msb_eq_decide, BitVec.toNat_setWidth, hsmall]
  by_cases hlow : b.toNat < 128
  · have hmsb : ¬ 2 ^ (8 - 1) ≤ b.toNat := by omega
    rw [if_pos hlow, decide_eq_false hmsb, if_neg Bool.false_ne_true, Nat.add_zero]
  · have hmsb : 2 ^ (8 - 1) ≤ b.toNat := by omega
    rw [if_neg hlow, decide_eq_true hmsb, if_pos rfl]

theorem sizeBytes_eq (n : Nat) :
  ∃ b₂ b₁ b₀ : Byte, sizeBytes n = [b₂, b₁, b₀] ∧ b₂.toNat = n / 65536 % 256 ∧
    b₁.toNat = n / 256 % 256 ∧ b₀.toNat = n % 256
  := by
  refine ⟨_, _, _, rfl, ?_⟩
  simp only [BitVec.toNat_setWidth, BitVec.toNat_ushiftRight, BitVec.toNat_ofNat,
    Nat.shiftRight_eq_div_pow]
  omega

/-- The size is read correctly exactly when no byte of it is negative. -/
theorem arraySize_eq_iff {n : Nat} (hn : n ≤ 0xFFFFFF) :
  arraySize n = n ↔ PlainSize n
  := by
  obtain ⟨b₂, b₁, b₀, hbytes, h₂, h₁, h₀⟩ := sizeBytes_eq n
  have hzero : (0 : BitVec 64).toNat = 0 := rfl
  rw [arraySize, hbytes, PlainSize, ← h₂, ← h₁, ← h₀]
  simp only [Byte.ofBigEndian, List.foldl_cons, List.foldl_nil, BitVec.toNat_add,
    BitVec.toNat_shiftLeft, signExtend_toNat, Nat.shiftLeft_eq, hzero]
  split <;> split <;> split <;> omega

/-! ### Vectors of Booleans -/

theorem packBits_zero (bits : List Bool) :
  packBits 0 bits = 0
  := by
  induction bits with
  | nil => rfl
  | cons bit bits ih =>
    have hshift : (0 : Byte) >>> 1 = 0 := rfl
    rw [packBits, hshift, ih]
    cases bit <;> rfl

theorem twoPow_shift {m : Nat} (hm : m + 1 < 8) :
  BitVec.twoPow 8 (m + 1) >>> 1 = BitVec.twoPow 8 m
  := by
  have hm' : m < 7 := by omega
  interval_cases m <;> rfl

/-- The bits of a packed byte, from the bit of the mask down. -/
theorem getLsbD_packBits (bits : List Bool) {m : Nat} (hm : m < 8) (i : Nat) :
  (packBits (BitVec.twoPow 8 m) bits).getLsbD i = (decide (i ≤ m) && bits.getD (m - i) false)
  := by
  induction bits generalizing m with
  | nil => simp [packBits]
  | cons bit bits ih =>
    have hbit : (if bit then BitVec.twoPow 8 m else 0).getLsbD i = (decide (i = m) && bit) := by
      obtain rfl | rfl := Bool.eq_false_or_eq_true bit
      · simp [BitVec.getLsbD_twoPow, hm, eq_comm]
      · simp
    rw [packBits, BitVec.getLsbD_or, hbit]
    obtain _ | k := m
    · have hshift : BitVec.twoPow 8 0 >>> 1 = 0 := rfl
      rw [hshift, packBits_zero]
      obtain rfl | hi := Nat.eq_zero_or_pos i
      · simp
      · simp [hi.ne']
    · rw [twoPow_shift hm, ih (by omega)]
      obtain hlt | rfl | hgt := lt_trichotomy i (k + 1)
      · have hindex : k + 1 - i = (k - i) + 1 := by omega
        simp [hindex, hlt.ne, hlt.le, Nat.lt_succ_iff.mp hlt]
      · simp
      · simp [hgt.ne', hgt.not_ge, (Nat.lt_of_succ_lt hgt).not_ge]

/-- The bits of a byte which agrees with the list are those of the list. -/
theorem unpackBits_eq {tmp : Byte} (bits : List Bool) {m : Nat} (hm : m < 8)
    (hlength : bits.length ≤ m + 1)
    (h : ∀ j, j < bits.length → tmp.getLsbD (m - j) = bits.getD j false) :
  unpackBits tmp (BitVec.twoPow 8 m) bits.length = bits
  := by
  induction bits generalizing m with
  | nil => rfl
  | cons bit bits ih =>
    have hhead : decide (tmp &&& BitVec.twoPow 8 m ≠ 0) = bit := by
      have hbit := h 0 (by simp)
      rw [BitVec.and_twoPow]
      rw [Nat.sub_zero, List.getD_cons_zero] at hbit
      rw [hbit]
      obtain rfl | rfl := Bool.eq_false_or_eq_true bit
      · interval_cases m <;> rfl
      · simp
    rw [List.length_cons, unpackBits, hhead]
    congr 1
    obtain _ | k := m
    · obtain rfl : bits = [] := by
        apply List.length_eq_zero_iff.mp
        rw [List.length_cons] at hlength
        omega
      rfl
    · rw [twoPow_shift hm]
      apply ih (by omega) (by simpa using hlength)
      intro j hj
      have hbit := h (j + 1) (by simpa using hj)
      rwa [Nat.add_sub_add_right, List.getD_cons_succ] at hbit

theorem unpackBits_packBits {bits : List Bool} (hlength : bits.length ≤ 8) :
  unpackBits (packBits 0x80 bits) 0x80 bits.length = bits
  := by
  apply unpackBits_eq bits (m := 7) (by decide) hlength
  intro j hj
  have hmask : (0x80 : Byte) = BitVec.twoPow 8 7 := rfl
  rw [hmask, getLsbD_packBits bits (by decide)]
  have hindex : 7 - (7 - j) = j := by omega
  simp [hindex]

theorem reads_boolVector (val : List Bool) :
  Reads (deserializeBoolVector val.length) (serializeBoolVector val) val
  := by
  fun_induction serializeBoolVector val with
  | case1 val hempty =>
    rw [deserializeBoolVector, if_pos hempty, List.length_eq_zero_iff.mp hempty]
    apply reads_pure
  | case2 val hne ih =>
    rw [deserializeBoolVector, if_neg hne]
    apply Reads.byte_bind
    rw [← List.append_nil (serializeBoolVector (val.drop 8))]
    apply Reads.bind
    · rw [List.length_drop] at ih
      apply ih
    · have hbits := @unpackBits_packBits (val.take 8) (by simp)
      rw [List.length_take, min_comm] at hbits
      rw [hbits]
      have h := reads_pure (val.take 8 ++ val.drop 8)
      rwa [List.take_append_drop] at h ⊢

theorem deserializeBoolVector_length {siz : Nat} {buf rest : List Byte} {val : List Bool}
    (h : deserializeBoolVector siz buf = some (val, rest)) :
  val.length = siz
  := by
  induction siz using Nat.strong_induction_on generalizing buf rest val with
  | _ siz ih =>
    rw [deserializeBoolVector] at h
    split at h
    · rename_i hsiz
      cases h
      rw [hsiz, List.length_nil]
    · obtain ⟨⟨tmp, rest₁⟩, -, h⟩ := Option.bind_eq_some_iff.mp h
      obtain ⟨⟨bits, rest₂⟩, hbits, heq⟩ := Option.bind_eq_some_iff.mp h
      cases heq
      have hlength : ∀ n (mask : Byte), (unpackBits tmp mask n).length = n := by
        intro n
        induction n with
        | zero => simp [unpackBits]
        | succ n ihn => simp [unpackBits, ihn]
      rw [List.length_append, ih (siz - 8) (by omega) hbits, hlength]
      omega

/-! ### Scalars -/

theorem reads_checkType (type : ValueType) :
  Reads (checkType type) [type.code] ()
  := by
  intro rest
  simp [checkType, bind_apply, byte]
  rfl

/-- Once the type code has been checked, the remaining bytes matter. -/
theorem reads_checkType_bind {β : Type} {type : ValueType} {r : Reader β} {bytes : List Byte}
    {y : β} (hr : Reads r bytes y) :
  Reads (checkType type >>= fun _ => r) (type.code :: bytes) y
  := (reads_checkType type).bind hr

theorem reads_boolean (o : Boolean) :
  Reads deserializeBoolean (serializeBoolean o) o
  := by
  apply reads_checkType_bind
  cases o <;> exact (reads_byte _).bind (reads_pure _)

theorem reads_commandHandle (o : CommandHandleValue) :
  Reads deserializeCommandHandle (serializeCommandHandle o) o
  := by
  apply reads_checkType_bind
  apply Reads.byte_bind
  rw [CommandHandleValue.ofCode_code]
  apply reads_pure

theorem reads_integerElement (val : Integer) :
  Reads deserializeIntegerElement (serializeIntegerElement val) val
  := by
  have h := (reads_many_byte (Byte.bigEndian_length 4 val)).map
    (Byte.ofBigEndian (BitVec.setWidth 32))
  rwa [Byte.ofBigEndian_bigEndian (by decide) val.isLt] at h

theorem reads_realElement (val : Real) :
  Reads deserializeRealElement (serializeRealElement val) val
  := by
  have h := (reads_many_byte (Byte.bigEndian_length 8 val)).map
    (Byte.ofBigEndian (BitVec.setWidth 64))
  rwa [Byte.ofBigEndian_bigEndian (by decide) val.isLt] at h

theorem reads_stringElement {val : StringValue} {bytes : List Byte}
    (h : serializeStringElement val = some bytes) :
  Reads deserializeStringElement bytes val
  := by
  unfold serializeStringElement at h
  split at h
  · contradiction
  · obtain rfl := Option.some.inj h
    apply (reads_size val.length).bind
    apply reads_many_byte
    omega

theorem reads_string {o : StringValue} {bytes : List Byte} (h : serializeString o = some bytes) :
  Reads deserializeString bytes o
  := by
  obtain ⟨bytes, hbytes, rfl⟩ := Option.map_eq_some_iff.mp h
  apply reads_checkType_bind
  apply reads_stringElement hbytes

/-! ### Objects one after another -/

/-- When each object is read or misread, all of them are read exactly when none is misread. -/
theorem reads_elements_iff {α : Type} {serializeElement : α → Option (List Byte)} {r : Reader α}
    (Ok : α → Prop)
    (hreads : ∀ x bytes, serializeElement x = some bytes → Ok x → Reads r bytes x)
    (hmisreads : ∀ x bytes, serializeElement x = some bytes → ¬ Ok x → Misreads r bytes x)
    {xs : List α} {bytes : List Byte} (h : serializeElements serializeElement xs = some bytes) :
  Reads (r.many xs.length) bytes xs ↔ ∀ x ∈ xs, Ok x
  := by
  induction xs generalizing bytes with
  | nil =>
    obtain rfl := Option.some.inj h
    exact iff_of_true (reads_pure []) (by simp)
  | cons x xs ih =>
    obtain ⟨bytes₁, h₁, h⟩ := Option.bind_eq_some_iff.mp h
    obtain ⟨bytes₂, h₂, h⟩ := Option.bind_eq_some_iff.mp h
    obtain rfl := Option.some.inj h
    rw [List.length_cons, List.forall_mem_cons]
    by_cases hx : Ok x
    · rw [Reader.many, Reads.bind_iff (hreads x bytes₁ h₁ hx),
        reads_map_iff (List.cons_injective (a := x)), ih h₂]
      simp [hx]
    · apply iff_of_false
      · intro hread
        obtain ⟨⟨x', rest⟩, hx', hrest⟩ := Option.bind_eq_some_iff.mp (hread [])
        obtain ⟨⟨xs', rest'⟩, -, heq⟩ := Option.bind_eq_some_iff.mp hrest
        rw [List.append_assoc] at hx'
        cases heq
        exact hmisreads x bytes₁ h₁ hx _ _ _ hx' rfl
      · simp [hx]

theorem reads_elements {α : Type} {serializeElement : α → Option (List Byte)} {r : Reader α}
    (hreads : ∀ x bytes, serializeElement x = some bytes → Reads r bytes x)
    {xs : List α} {bytes : List Byte} (h : serializeElements serializeElement xs = some bytes) :
  Reads (r.many xs.length) bytes xs
  := (reads_elements_iff (fun _ => True) (fun x bytes hx _ => hreads x bytes hx)
    (fun _ _ _ hx => absurd trivial hx) h).mpr fun _ _ => trivial

theorem serializeElements_isSome {α : Type} {serializeElement : α → Option (List Byte)}
    {xs : List α} (h : ∀ x ∈ xs, ∃ bytes, serializeElement x = some bytes) :
  ∃ bytes, serializeElements serializeElement xs = some bytes
  := by
  induction xs with
  | nil => exact ⟨[], rfl⟩
  | cons x xs ih =>
    obtain ⟨⟨bytes, hx⟩, hrest⟩ := List.forall_mem_cons.mp h
    obtain ⟨bytes', hxs⟩ := ih hrest
    use bytes ++ bytes'
    simp [serializeElements, hx, hxs]

/-! ### Arrays -/

namespace ArrayImpl

variable {α : Type} {type : ValueType} {serializeContents : List α → Option (List Byte)}
variable {deserializeContents : Nat → Reader (List α)} {ary : ArrayImpl α} {bytes : List Byte}

theorem serialize_eq_some (h : ary.serialize type serializeContents = some bytes) :
  ary.length ≤ 0xFFFFFF ∧ ∃ contents, serializeContents ary.getContentsVector = some contents ∧
    bytes = type.code ::
      (sizeBytes ary.length ++ (serializeBoolVector ary.getKnownVector ++ contents))
  := by
  unfold serialize at h
  split at h
  · contradiction
  · obtain ⟨contents, hcontents, heq⟩ := Option.map_eq_some_iff.mp h
    exact ⟨by omega, contents, hcontents, heq.symm⟩

theorem serialize_isSome (hlength : ary.length ≤ 0xFFFFFF)
    (h : ∃ contents, serializeContents ary.getContentsVector = some contents) :
  ∃ bytes, ary.serialize type serializeContents = some bytes
  := by
  obtain ⟨contents, hcontents⟩ := h
  rw [serialize, if_neg (by omega), hcontents]
  exact ⟨_, rfl⟩

theorem zipWith_vectors (ary : ArrayImpl α) :
  List.zipWith ArrayElement.mk ary.getKnownVector ary.getContentsVector = ary
  := by
  rw [getKnownVector, getContentsVector, List.zipWith_map, List.zipWith_self, List.map_id'']
  intro element
  rfl

/-- An array whose size is plain is read. -/
theorem reads (h : ary.serialize type serializeContents = some bytes)
    (hcontents : ∀ contents, serializeContents ary.getContentsVector = some contents →
      Reads (deserializeContents ary.length) contents ary.getContentsVector)
    (hplain : PlainSize ary.length) :
  Reads (deserialize type deserializeContents) bytes ary
  := by
  obtain ⟨hlength, contents, hser, rfl⟩ := serialize_eq_some h
  have hsize := (arraySize_eq_iff hlength).mpr hplain
  apply reads_checkType_bind
  apply (reads_arraySize ary.length).bind
  rw [hsize, if_neg (by omega)]
  have hknown := reads_boolVector ary.getKnownVector
  rw [getKnownVector, List.length_map, ← getKnownVector] at hknown
  apply hknown.bind
  rw [← List.append_nil contents]
  apply (hcontents contents hser).bind
  rw [zipWith_vectors]
  apply reads_pure

/-- An array whose size is not plain is misread. -/
theorem misreads (h : ary.serialize type serializeContents = some bytes)
    (hcontents : ∀ n buf xs rest, deserializeContents n buf = some (xs, rest) → xs.length = n)
    (hplain : ¬ PlainSize ary.length) :
  Misreads (deserialize type deserializeContents) bytes ary
  := by
  obtain ⟨hlength, contents, -, rfl⟩ := serialize_eq_some h
  have hsize : arraySize ary.length ≠ ary.length := mt (arraySize_eq_iff hlength).mp hplain
  apply Misreads.bind (reads_checkType type)
  apply Misreads.bind (reads_arraySize ary.length)
  intro rest ary' rest' hread heq
  split at hread
  · contradiction
  · obtain ⟨⟨known, rest₁⟩, hknown, hread⟩ := Option.bind_eq_some_iff.mp hread
    obtain ⟨⟨xs, rest₂⟩, hxs, hread⟩ := Option.bind_eq_some_iff.mp hread
    cases hread
    apply hsize
    have hlength := congrArg List.length heq
    rw [List.length_zipWith, deserializeBoolVector_length hknown, hcontents _ _ _ _ hxs,
      min_self] at hlength
    exact hlength

/-- The contents of an array are read when each element is. -/
theorem reads_elements {serializeElement : α → Option (List Byte)} {r : Reader α}
    (h : ary.serialize type (serializeElements serializeElement) = some bytes)
    (helement : ∀ x bytes, serializeElement x = some bytes → Reads r bytes x)
    (hplain : PlainSize ary.length) :
  Reads (deserialize type r.many) bytes ary
  := by
  apply reads h _ hplain
  intro contents hcontents
  have hread := Plexil.reads_elements helement hcontents
  rwa [getContentsVector, List.length_map, ← getContentsVector] at hread

theorem misreads_elements {serializeElement : α → Option (List Byte)} {r : Reader α}
    (h : ary.serialize type (serializeElements serializeElement) = some bytes)
    (hplain : ¬ PlainSize ary.length) :
  Misreads (deserialize type r.many) bytes ary
  := misreads h (fun _ _ _ _ => many_length) hplain

theorem reads_booleanArray {ary : ArrayImpl Boolean} (h : ary.serializeBooleanArray = some bytes)
    (hplain : PlainSize ary.length) :
  Reads deserializeBooleanArray bytes ary
  := by
  apply reads h _ hplain
  intro contents hcontents
  obtain rfl := Option.some.inj hcontents
  have hread := reads_boolVector ary.getContentsVector
  rwa [getContentsVector, List.length_map, ← getContentsVector] at hread

theorem misreads_booleanArray {ary : ArrayImpl Boolean}
    (h : ary.serializeBooleanArray = some bytes) (hplain : ¬ PlainSize ary.length) :
  Misreads deserializeBooleanArray bytes ary
  := misreads h (fun _ _ _ _ => deserializeBoolVector_length) hplain

end ArrayImpl

/-! ### Values -/

namespace Intfc.Value

/-- The values which can be written. -/
def Serializable : Value → Prop
  | string x => x.length ≤ 0xFFFFFF
  | booleanArray x => x.length ≤ 0xFFFFFF
  | integerArray x => x.length ≤ 0xFFFFFF
  | realArray x => x.length ≤ 0xFFFFFF
  | stringArray x =>
    x.length ≤ 0xFFFFFF ∧ ∀ element ∈ x, element.contents.length ≤ 0xFFFFFF
  | nodeState _ | outcome _ | failure _ => False
  | _ => True

/-- An unknown value is of no type, and the size of an array is plain. -/
def RoundTrips : Value → Prop
  | unknown type => type = .unknown
  | booleanArray x => PlainSize x.length
  | integerArray x => PlainSize x.length
  | realArray x => PlainSize x.length
  | stringArray x => PlainSize x.length
  | _ => True

theorem serialize_isSome {v : Value} (hv : v.Serializable) :
  ∃ bytes, v.serialize = some bytes
  := by
  cases v
  case string x =>
    exact ⟨_, by rw [serialize, serializeString, serializeStringElement, if_neg hv.not_gt]; rfl⟩
  case booleanArray x =>
    rw [serialize, ArrayImpl.serializeBooleanArray]
    exact ArrayImpl.serialize_isSome hv ⟨_, rfl⟩
  case integerArray x =>
    exact ArrayImpl.serialize_isSome hv (serializeElements_isSome fun _ _ => ⟨_, rfl⟩)
  case realArray x =>
    exact ArrayImpl.serialize_isSome hv (serializeElements_isSome fun _ _ => ⟨_, rfl⟩)
  case stringArray x =>
    apply ArrayImpl.serialize_isSome hv.1
    apply serializeElements_isSome
    intro s hs
    obtain ⟨element, helement, rfl⟩ := List.mem_map.mp hs
    rw [serializeStringElement, if_neg (hv.2 element helement).not_gt]
    exact ⟨_, rfl⟩
  case nodeState | outcome | failure => contradiction
  all_goals exact ⟨_, rfl⟩

/-- The type which is written: an unknown value is written without its type. -/
def writtenType (v : Value) : ValueType := if v.isKnown then v.valueType else .unknown

/-- The type code is at the front of the bytes. -/
theorem serialize_head {v : Value} {bytes : List Byte} (h : v.serialize = some bytes) :
  ∃ buf, bytes = v.writtenType.code :: buf
  := by
  cases v
  case string x =>
    obtain ⟨buf, -, rfl⟩ := Option.map_eq_some_iff.mp h
    exact ⟨buf, rfl⟩
  case booleanArray x =>
    rw [serialize, ArrayImpl.serializeBooleanArray] at h
    obtain ⟨-, contents, -, rfl⟩ := ArrayImpl.serialize_eq_some h
    exact ⟨_, rfl⟩
  case integerArray x =>
    obtain ⟨-, contents, -, rfl⟩ := ArrayImpl.serialize_eq_some h
    exact ⟨_, rfl⟩
  case realArray x =>
    obtain ⟨-, contents, -, rfl⟩ := ArrayImpl.serialize_eq_some h
    exact ⟨_, rfl⟩
  case stringArray x =>
    obtain ⟨-, contents, -, rfl⟩ := ArrayImpl.serialize_eq_some h
    exact ⟨_, rfl⟩
  case nodeState | outcome | failure => contradiction
  all_goals
    obtain rfl := Option.some.inj h
    exact ⟨_, rfl⟩

/-- The type code tells how the value is read. -/
theorem deserialize_eq {v : Value} {bytes : List Byte} (h : v.serialize = some bytes)
    (rest : List Byte) :
  deserialize (bytes ++ rest) = deserializeOf v.writtenType (bytes ++ rest)
  := by
  obtain ⟨buf, rfl⟩ := serialize_head h
  simp [deserialize, bind_apply, peek, ValueType.ofCode_code]
  rfl

theorem reads {v : Value} {bytes : List Byte} (h : v.serialize = some bytes)
    (hv : v.RoundTrips) :
  Reads deserialize bytes v
  := by
  unfold Reads
  simp only [deserialize_eq h]
  cases v
  case unknown type =>
    obtain rfl := Option.some.inj h
    obtain rfl := hv
    exact (reads_byte _).map _
  case boolean x =>
    obtain rfl := Option.some.inj h
    exact (reads_boolean x).map _
  case integer x =>
    obtain rfl := Option.some.inj h
    exact (reads_checkType_bind (reads_integerElement x)).map _
  case real x =>
    obtain rfl := Option.some.inj h
    exact (reads_checkType_bind (reads_realElement x)).map _
  case string x =>
    exact (reads_string h).map _
  case commandHandle x =>
    obtain rfl := Option.some.inj h
    exact (reads_commandHandle x).map _
  case booleanArray x =>
    exact (ArrayImpl.reads_booleanArray h hv).map _
  case integerArray x =>
    apply Reads.map
    apply ArrayImpl.reads_elements h _ hv
    intro n bytes hn
    obtain rfl := Option.some.inj hn
    apply reads_integerElement
  case realArray x =>
    apply Reads.map
    apply ArrayImpl.reads_elements h _ hv
    intro r bytes hr
    obtain rfl := Option.some.inj hr
    apply reads_realElement
  case stringArray x =>
    apply Reads.map
    apply ArrayImpl.reads_elements h _ hv
    intro s bytes hs
    apply reads_stringElement hs
  case nodeState | outcome | failure => contradiction

theorem misreads {v : Value} {bytes : List Byte} (h : v.serialize = some bytes)
    (hv : ¬ v.RoundTrips) :
  Misreads deserialize bytes v
  := by
  unfold Misreads
  simp only [deserialize_eq h]
  cases v
  case unknown type =>
    obtain rfl := Option.some.inj h
    intro rest v' rest' hread heq
    cases hread
    exact hv (unknown.inj heq).symm
  case booleanArray x =>
    exact (ArrayImpl.misreads_booleanArray h hv).map fun _ _ => booleanArray.inj
  case integerArray x =>
    exact (ArrayImpl.misreads_elements h hv).map fun _ _ => integerArray.inj
  case realArray x =>
    exact (ArrayImpl.misreads_elements h hv).map fun _ _ => realArray.inj
  case stringArray x =>
    exact (ArrayImpl.misreads_elements h hv).map fun _ _ => stringArray.inj
  all_goals exact absurd trivial hv

end Intfc.Value

end Plexil

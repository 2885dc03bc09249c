import Plexil.Interfaces.UdpRoundTrip

/-!
# Received datagrams

A listener has a buffer of the length of its message.  A datagram is received into the front of
the buffer, where it replaces the bytes of earlier datagrams, and the message is decoded from the
whole buffer.  What is decoded depends on the received bytes only if they reach to the end of
each slot; a string may also end before, and a byte other than zero makes a Boolean true.
-/

open Slots

namespace Plexil.Udp

open Intfc

/-! ### Listeners -/

/-- The state of a listener. -/
structure Listener (msg : UdpMessage) where
  buffer : List Byte
  length_eq : buffer.length = msg.len.toNat

namespace Listener

variable {msg : UdpMessage}

/-- The bytes of a datagram which `recvfrom` stores; the others are lost. -/
def stored (msg : UdpMessage) (datagram : List Byte) : List Byte := datagram.take msg.len.toNat

/-- `recvfrom`. -/
def recvfrom (listener : Listener msg) (datagram : List Byte) : Listener msg where
  buffer := stored msg datagram ++ listener.buffer.drop (stored msg datagram).length
  length_eq := by
    have hlen := listener.length_eq
    unfold stored
    rw [List.length_append, List.length_drop, List.length_take]
    omega

/-- Nothing is handled when no bytes have been received. -/
def handleFDReady (counter : Nat) (listener : Listener msg) (datagram : List Byte) :
    Listener msg × Option Handling :=
  let next := listener.recvfrom datagram
  let nbytes := (stored msg datagram).length
  (next, if nbytes = 0 then none else some (handleUdpMessage counter msg next.buffer nbytes))

/-- The listener after datagrams, each with the counter which is used for it. -/
def run (listener : Listener msg) (datagrams : List (Nat × List Byte)) : Listener msg :=
  datagrams.foldl (fun listener d => (listener.handleFDReady d.1 d.2).1) listener

end Listener

/-- The values which are queued for a datagram are the same after all histories; nothing is read
outside of the buffer, where the bytes are undefined. -/
def DependsOnDatagram (msg : UdpMessage) (datagram : List Byte) : Prop :=
  ∀ (first first' : Listener msg) (history history' : List (Nat × List Byte))
    (counter counter' : Nat),
    (((first.run history).handleFDReady counter datagram).2.map Handling.values
        = ((first'.run history').handleFDReady counter' datagram).2.map Handling.values) ∧
      ∀ handling ∈ ((first.run history).handleFDReady counter datagram).2,
        handling.stop ≠ some .outOfBounds

/-! ### Covered slots -/

/-- The received bytes of a slot determine its object. -/
def Kind.covered (kind : Kind) (width : Nat) (inside : Bool) (bytes : List Byte) : Bool :=
  bytes.length = width ||
    match kind with
    | .int | .float => false
    | .bool => inside && bytes.any fun b => b ≠ 0
    | .string => bytes.any fun b => b = 0

section

-- The received bytes, the size of the buffer and the width of the slots.
variable (received : List Byte) (size width : Nat)

def slotCovered (kind : Kind) (o : Nat) : Bool :=
  o < 2 ^ 31 && kind.covered width (o + width ≤ size) ((received.drop o).take width)

/-- The slots from a place on are covered. -/
def slotsCovered (kind : Kind) : Nat → Nat → Bool
  | _, 0 => true
  | o, n + 1 => slotCovered received size width kind o && slotsCovered kind (o + width) n

end

/-- Decoding stops at the parameter, whatever has been received. -/
def Parameter.stops (param : Parameter) : Bool :=
  (param.type.kind = .float && param.len ≠ 4) || (param.type.array && param.elements.msb) ||
    (param.type.kind = .string && param.len.msb)

/-- The received bytes determine the parameters from a place on, up to one at which decoding
stops. -/
def covers (received : List Byte) (size : Nat) : Nat → List Parameter → Bool
  | _, [] => true
  | o, param :: params =>
    param.stops ||
      (slotsCovered received size param.len.toNat param.type.kind o param.count &&
        covers received size (o + param.bytes) params)

/-! ### Determined readings -/

section

variable {S β : Type} {received : List Byte} {size : Nat}

/-- The reader finds `y` in all buffers which begin with the received bytes. -/
def Determined (received : List Byte) (size : Nat) (read : List Byte → Except S β) (y : β) :
    Prop :=
  ∀ rest : List Byte, (received ++ rest).length = size → read (received ++ rest) = .ok y

/-- The received bytes, followed by bytes of one value. -/
def filled (received : List Byte) (size : Nat) (fill : Byte) : List Byte :=
  received ++ List.replicate (size - received.length) fill

theorem filled_length (h : received.length ≤ size) (fill : Byte) :
  (filled received size fill).length = size
  := by
  rw [filled, List.length_append, List.length_replicate]
  omega

/-- How the objects of slots depend on the received bytes. -/
structure Coverage (received : List Byte) (size width : Nat) (kind : Kind)
    (decode : List Byte → Int → Except S β) : Prop where
  inside : ∀ {buf : List Byte} {i : Int} {x : β}, decode buf i = .ok x →
    width < 2 ^ 31 ∧ 0 ≤ i ∧ i < buf.length
  determined : ∀ {o : Nat}, slotCovered received size width kind o = true →
    ∃ x, Determined received size (fun buf => decode buf o) x
  of_filled : ∀ {o : Nat} {x : β}, o < 2 ^ 31 → decode (filled received size 0) o = .ok x →
    decode (filled received size 1) o = .ok x → slotCovered received size width kind o = true

theorem getElem?_filled {k : Nat} (h : k < size) (hk : received.length ≤ k) (fill : Byte) :
  (filled received size fill)[k]? = some fill
  := by
  rw [filled, List.getElem?_append_right hk, List.getElem?_replicate, if_pos (by omega)]

theorem load_eq_of_inside {buf : List Byte} {o width : Nat} (h : o + width ≤ buf.length) :
  load buf o width = some ((buf.drop o).take width)
  := by
  rw [load, if_pos ⟨Int.natCast_nonneg o, by simpa using h⟩, Int.toNat_natCast]

/-- The received bytes of a slot are in all buffers. -/
theorem mem_slot_append {o width : Nat} {b : Byte} (h : b ∈ (received.drop o).take width)
    (rest : List Byte) :
  b ∈ ((received ++ rest).drop o).take width
  := by
  have hprefix : (received.drop o).take width <+: ((received ++ rest).drop o).take width := by
    apply List.IsPrefix.take
    apply List.IsPrefix.drop
    apply List.prefix_append
  exact hprefix.mem h

/-- A slot which has not been received to its end ends with the byte behind the received ones. -/
theorem getLast?_of_load {o width : Nat} {bytes : List Byte} {fill : Byte}
    (hsize : received.length ≤ size) (hwidth : 0 < width)
    (hshort : ((received.drop o).take width).length ≠ width)
    (h : load (filled received size fill) o width = some bytes) :
  bytes.getLast? = some fill
  := by
  obtain ⟨hlength, hinside, hbytes⟩ := getElem?_of_load h
  rw [filled_length hsize] at hinside
  rw [List.length_take, List.length_drop] at hshort
  rw [List.getLast?_eq_getElem?, hlength, hbytes _ (by omega), getElem?_filled] <;> omega

/-- The received bytes of a slot in a buffer. -/
theorem append_eq_slot {o width : Nat} (hslot : (received.drop o).take width ≠ [])
    (rest : List Byte) :
  ∃ pre post, received ++ rest = pre ++ (received.drop o).take width ++ post ∧ pre.length = o
  := by
  refine ⟨received.take o, (received.drop o).drop width ++ rest, ?_, ?_⟩
  · rw [← List.append_assoc, List.append_assoc (received.take o), List.take_append_drop,
      List.take_append_drop]
  · rw [List.length_take]
    by_contra ho
    rw [List.drop_eq_nil_of_le (by omega), List.take_nil] at hslot
    contradiction

/-- A slot which has been received to its end. -/
theorem load_of_received {o width : Nat} (hwidth : 0 < width)
    (hfull : ((received.drop o).take width).length = width) (rest : List Byte) :
  load (received ++ rest) o width = some ((received.drop o).take width)
  := by
  have hslot : (received.drop o).take width ≠ [] := by
    intro hnil
    rw [hnil] at hfull
    exact hwidth.ne hfull
  obtain ⟨pre, post, hbuf, hpre⟩ := append_eq_slot hslot rest
  have hload := load_append pre ((received.drop o).take width) post
  rwa [← hbuf, hfull, hpre] at hload

/-- A byte of a slot has been received or is one behind the received ones. -/
theorem mem_of_load {o width : Nat} {bytes : List Byte} {fill b : Byte}
    (hsize : received.length ≤ size) (h : load (filled received size fill) o width = some bytes)
    (hb : b ∈ bytes) :
  b ∈ (received.drop o).take width ∨ b = fill
  := by
  obtain ⟨hlength, hinside, hbytes⟩ := getElem?_of_load h
  rw [filled_length hsize] at hinside
  obtain ⟨k, hk⟩ := List.mem_iff_getElem?.mp hb
  have hlt : k < width := by
    rw [← hlength]
    exact (List.getElem?_eq_some_iff.mp hk).1
  rw [hbytes k hlt] at hk
  by_cases hreceived : o + k < received.length
  · left
    rw [filled, List.getElem?_append_left hreceived] at hk
    apply List.mem_iff_getElem?.mpr
    exact ⟨k, by rw [List.getElem?_take_of_lt hlt, List.getElem?_drop, hk]⟩
  · right
    rw [getElem?_filled (by omega) (by omega)] at hk
    exact (Option.some.inj hk).symm

theorem slotCovered_iff {width : Nat} {kind : Kind} {o : Nat} :
  slotCovered received size width kind o = true ↔ o < 2 ^ 31 ∧
    (((received.drop o).take width).length = width ∨
      (kind = .bool ∧ o + width ≤ size ∧ ∃ b ∈ (received.drop o).take width, b ≠ 0) ∨
      (kind = .string ∧ 0 ∈ (received.drop o).take width))
  := by
  rw [slotCovered, Bool.and_eq_true, decide_eq_true_eq]
  apply and_congr_right
  intro _
  generalize (received.drop o).take width = bytes
  cases kind <;> simp [Kind.covered]

theorem slotCovered_of_full {width : Nat} {kind : Kind} {o : Nat} (ho : o < 2 ^ 31)
    (hfull : ((received.drop o).take width).length = width) :
  slotCovered received size width kind o = true
  := by
  exact slotCovered_iff.mpr ⟨ho, .inl hfull⟩

/-- A number of a slot which has not been received to its end ends with the byte behind the
received ones. -/
theorem toNat_mod_of_load {w o width : Nat} {bytes : List Byte} {fill : Byte}
    (hsize : received.length ≤ size) (hwidth : 0 < width) (hw : 8 * width ≤ w)
    (hshort : ((received.drop o).take width).length ≠ width)
    (h : load (filled received size fill) o width = some bytes) :
  (Byte.ofBigEndian (BitVec.setWidth w) bytes).toNat % 256 = fill.toNat
  := by
  apply Byte.toNat_ofBigEndian_mod
  · rwa [(getElem?_of_load h).1]
  · exact getLast?_of_load hsize hwidth hshort h

/-! ### Coverage of the kinds -/

/-- Numbers which are read from all bytes of their slot, and whose last byte can be told. -/
theorem coverage_of_numbers {w width : Nat} {kind : Kind} {decode : List Byte → Int → Except Stop β}
    (hsize : received.length ≤ size) (hwidth : 0 < width) (hw : 8 * width ≤ w)
    (hkind : kind = .int ∨ kind = .float) {number : BitVec w → β}
    (hnumber : ∀ {m n : BitVec w}, number m = number n → m.toNat % 256 = n.toNat % 256)
    (hinside : ∀ {buf : List Byte} {i : Int} {x : β}, decode buf i = .ok x →
      width < 2 ^ 31 ∧ 0 ≤ i ∧ i < buf.length)
    (hdecode : ∀ buf i, decode buf i = (orOutOfBounds (load buf i width)).map
      fun bytes => number (Byte.ofBigEndian (BitVec.setWidth w) bytes)) :
  Coverage received size width kind decode
  where
  inside := hinside
  determined := by
    intro o hcovered
    have hfull : ((received.drop o).take width).length = width := by
      rcases hkind with rfl | rfl <;> simpa using (slotCovered_iff.mp hcovered).2
    refine ⟨number (Byte.ofBigEndian (BitVec.setWidth w) ((received.drop o).take width)), ?_⟩
    intro rest _
    dsimp only
    rw [hdecode, load_of_received hwidth hfull]
    rfl
  of_filled := by
    intro o x ho hzero hone
    apply slotCovered_of_full ho
    by_contra hshort
    rw [hdecode] at hzero hone
    obtain ⟨bytes, hbytes, rfl⟩ := Except.map_eq_ok.mp hzero
    obtain ⟨bytes', hbytes', hequal⟩ := Except.map_eq_ok.mp hone
    have hlast := toNat_mod_of_load hsize hwidth hw hshort (orOutOfBounds_ok.mp hbytes)
    have hlast' := toNat_mod_of_load hsize hwidth hw hshort (orOutOfBounds_ok.mp hbytes')
    have hmod := hnumber hequal
    rw [hlast, hlast'] at hmod
    contradiction

theorem orOutOfBounds_map {α γ : Type} (x : Option α) (f : α → γ) :
  orOutOfBounds (x.map f) = (orOutOfBounds x).map f
  := by
  cases x <;> rfl

theorem coverage_integer {len : BitVec 32} (hsize : received.length ≤ size)
    (hlen : len = 2 ∨ len = 4) :
  Coverage received size len.toNat .int (decodeInteger len)
  := by
  rcases hlen with rfl | rfl
  · refine @coverage_of_numbers _ _ _ 16 2 _ _ hsize (by decide) (by decide) (.inl rfl)
      (BitVec.signExtend 32) ?_ (integerCodec 2).decode_inside ?_
    · intro m n h
      have htoInt := congrArg BitVec.toInt h
      rw [BitVec.toInt_signExtend_of_le (by decide),
        BitVec.toInt_signExtend_of_le (by decide)] at htoInt
      rw [BitVec.eq_of_toInt_eq htoInt]
    · intro buf i
      change (decodeShortInt buf i).map _ = _
      rw [decodeShortInt, orOutOfBounds_map, Except.map_map]
  · refine @coverage_of_numbers _ _ _ 32 4 _ _ hsize (by decide) (by decide) (.inl rfl)
      id ?_ (integerCodec 4).decode_inside ?_
    · intro m n h
      rw [show m = n from h]
    · intro buf i
      change decodeInt32 buf i = _
      rw [decodeInt32, orOutOfBounds_map]
      rfl

theorem coverage_real (hsize : received.length ≤ size) :
  Coverage received size 4 .float (decodeReal 4)
  := by
  refine @coverage_of_numbers _ _ _ 32 4 _ _ hsize (by decide) (by decide) (.inr rfl)
    Binary32.toBinary64 ?_ (realCodec (fun _ => 0) 4).decode_inside ?_
  · intro m n h
    have := Binary32.toNat_mod_of_toBinary64_eq h
    omega
  · intro buf i
    change (decodeFloat buf i).map _ = _
    rw [decodeFloat, decodeInt32, orOutOfBounds_map, Except.map_map]

/-- A Boolean tells whether there is a byte other than zero. -/
theorem decodeBool_eq {len : BitVec 32} (hlen : len = 1 ∨ len = 2 ∨ len = 4) (buf : List Byte)
    (i : Int) :
  decodeBool len buf i = (orOutOfBounds (load buf i len.toNat)).map
    fun bytes => bytes.any fun b => b ≠ 0
  := by
  have hnumber : ∀ {w n : Nat}, 8 * n ≤ w →
      ((orOutOfBounds (load buf i n)).map fun bytes =>
        decide (Byte.ofBigEndian (BitVec.setWidth w) bytes ≠ 0))
          = (orOutOfBounds (load buf i n)).map fun bytes => bytes.any fun b => b ≠ 0 := by
    intro w n hw
    cases hload : load buf i n with
    | none => rfl
    | some bytes =>
      have hlength := (length_of_load hload).symm ▸ hw
      apply congrArg Except.ok
      rw [Bool.eq_iff_iff, decide_eq_true_eq, ne_eq, Byte.ofBigEndian_eq_zero hlength]
      simp
  rcases hlen with rfl | rfl | rfl
  · change (orOutOfBounds (load buf i 1)).map _ = (orOutOfBounds (load buf i 1)).map _
    cases hload : load buf i 1 with
    | none => rfl
    | some bytes =>
      obtain ⟨b, rfl⟩ := List.length_eq_one_iff.mp (length_of_load hload)
      apply congrArg Except.ok
      simp
  · change (decodeShortInt buf i).map _ = _
    rw [decodeShortInt, orOutOfBounds_map, Except.map_map]
    exact hnumber (by decide)
  · change (decodeInt32 buf i).map _ = _
    rw [decodeInt32, orOutOfBounds_map, Except.map_map]
    exact hnumber (by decide)

theorem coverage_bool {len : BitVec 32} (hsize : received.length ≤ size)
    (hlen : len = 1 ∨ len = 2 ∨ len = 4) :
  Coverage received size len.toNat .bool (decodeBool len)
  where
  inside := (boolCodec len).decode_inside
  determined := by
    intro o hcovered
    have hwidth : 0 < len.toNat := by
      rcases hlen with rfl | rfl | rfl <;> decide
    obtain ⟨-, hfull | ⟨-, hinside, b, hb, hne⟩ | ⟨hkind, -⟩⟩ := slotCovered_iff.mp hcovered
    · refine ⟨((received.drop o).take len.toNat).any fun b => b ≠ 0, ?_⟩
      intro rest _
      dsimp only
      rw [decodeBool_eq hlen, load_of_received hwidth hfull]
      rfl
    · refine ⟨true, ?_⟩
      intro rest hrest
      dsimp only
      rw [decodeBool_eq hlen, load_eq_of_inside (by rwa [hrest])]
      apply congrArg Except.ok
      rw [List.any_eq_true]
      refine ⟨b, ?_, by simpa using hne⟩
      exact mem_slot_append hb rest
    · contradiction
  of_filled := by
    intro o x ho hzero hone
    rw [decodeBool_eq hlen] at hzero hone
    obtain ⟨bytes, hbytes, rfl⟩ := Except.map_eq_ok.mp hzero
    obtain ⟨bytes', hbytes', hequal⟩ := Except.map_eq_ok.mp hone
    rw [orOutOfBounds_ok] at hbytes hbytes'
    have hwidth : 0 < len.toNat := by
      rcases hlen with rfl | rfl | rfl <;> decide
    have hinside := (getElem?_of_load hbytes).2.1
    rw [filled_length hsize] at hinside
    by_contra hnot
    rw [slotCovered_iff] at hnot
    push Not at hnot
    obtain ⟨hshort, hzeros, -⟩ := hnot ho
    have hlast := getLast?_of_load hsize hwidth hshort hbytes'
    have htrue : (bytes'.any fun b => b ≠ 0) = true := by
      rw [List.any_eq_true]
      exact ⟨1, List.mem_of_getLast? hlast, by decide⟩
    rw [htrue] at hequal
    obtain ⟨b, hb, hne⟩ := List.any_eq_true.mp hequal.symm
    rw [decide_eq_true_eq] at hne
    rcases mem_of_load hsize hbytes hb with hreceived | hfill
    · exact hne (hzeros rfl hinside b hreceived)
    · exact hne hfill

/-- A string ends at the end of its slot or before the first zero. -/
theorem coverage_string {len : BitVec 32} (hsize : received.length ≤ size)
    (hlen : 0 < len.toNat) (hmsb : len.msb = false) :
  Coverage received size len.toNat .string (decodeString len)
  where
  inside := (stringCodec len hlen).decode_inside
  determined := by
    intro o hcovered
    have hends : ((received.drop o).take len.toNat).length = len.toNat ∨
        ((received.drop o).take len.toNat).length ≤ len.toNat ∧
          0 ∈ (received.drop o).take len.toNat := by
      rcases (slotCovered_iff.mp hcovered).2 with hfull | ⟨hkind, -⟩ | ⟨-, hzero⟩
      · exact .inl hfull
      · contradiction
      · exact .inr ⟨List.length_take_le _ _, hzero⟩
    have hslot : (received.drop o).take len.toNat ≠ [] := by
      intro hnil
      rw [hnil] at hends
      rcases hends with hends | ⟨-, hzero⟩
      · exact hlen.ne hends
      · contradiction
    refine ⟨((received.drop o).take len.toNat).takeWhile fun b => b ≠ 0, ?_⟩
    intro rest _
    obtain ⟨pre, post, hbuf, hpre⟩ := append_eq_slot hslot rest
    have hload := loadText_of_ends hends pre post
    rw [← hbuf, hpre] at hload
    dsimp only
    unfold decodeString
    rw [hmsb, if_neg Bool.false_ne_true, hload]
    rfl
  of_filled := by
    intro o str ho hzero hone
    unfold decodeString at hzero hone
    rw [hmsb, if_neg Bool.false_ne_true, orOutOfBounds_ok] at hzero hone
    obtain ⟨hnonzero, hbytes, -⟩ := loadText_spec hzero
    obtain ⟨-, -, hends⟩ := loadText_spec hone
    by_contra hnot
    rw [slotCovered_iff] at hnot
    push Not at hnot
    obtain ⟨hshort, -, hzeros⟩ := hnot ho
    rw [List.length_take, List.length_drop] at hshort
    have hbound : ∀ {fill b : Byte} {k : Nat}, (filled received size fill)[k]? = some b →
        k < size := by
      intro fill b k hk
      rw [← filled_length hsize fill]
      exact (List.getElem?_eq_some_iff.mp hk).1
    rcases hends with hfull | ⟨hshort, hend⟩
    · -- The last byte of the text would be the zero behind the received bytes.
      have hlast : str.length - 1 < str.length := by omega
      have hbyte := hbytes _ hlast
      rw [List.getElem?_eq_getElem hlast] at hbyte
      rw [getElem?_filled (hbound hbyte.symm) (by omega)] at hbyte
      exact hnonzero _ (List.getElem_mem hlast) (Option.some.inj hbyte)
    · -- The zero behind the text would be the one behind the received bytes.
      by_cases hreceived : o + str.length < received.length
      · rw [filled, List.getElem?_append_left hreceived] at hend
        apply hzeros rfl
        apply List.mem_iff_getElem?.mpr
        exact ⟨str.length, by rw [List.getElem?_take_of_lt hshort, List.getElem?_drop, hend]⟩
      · rw [getElem?_filled (hbound hend) (by omega)] at hend
        contradiction

/-! ### Slots and parameters -/

theorem decode_offset {offset : BitVec 32} {o : Nat} (hoffset : offset.toNat = o)
    (ho : o < 2 ^ 31) :
  offset.toInt = o
  := by
  rw [toInt_of_lt (by omega), hoffset]

section

variable {α : Type} {decode : List Byte → Int → Except Stop α} {kind : Kind} {len : BitVec 32}

theorem readSlots_determined (hcoverage : Coverage received size len.toNat kind decode)
    {n o : Nat} {offset : BitVec 32} (hoffset : offset.toNat = o) (hsize : received.length ≤ size)
    (hcovered : slotsCovered received size len.toNat kind o n = true) :
  ∃ xs last, Determined received size (fun buf => readSlots len (decode buf) n offset) (xs, last) ∧
    last.toNat = o + n * len.toNat
  := by
  induction n generalizing o offset with
  | zero => exact ⟨[], offset, fun _ _ => rfl, by simpa using hoffset⟩
  | succ n ih =>
    rw [slotsCovered, Bool.and_eq_true] at hcovered
    obtain ⟨x, hx⟩ := hcoverage.determined hcovered.1
    have ho := (slotCovered_iff.mp hcovered.1).1
    have hlen : len.toNat < 2 ^ 31 := by
      have hfill := filled_length hsize 0
      exact (hcoverage.inside (hx _ hfill)).1
    have hnext : (offset + len).toNat = o + len.toNat := by
      rw [BitVec.toNat_add]
      omega
    obtain ⟨xs, last, hxs, hlast⟩ := ih hnext hcovered.2
    refine ⟨x :: xs, last, ?_, ?_⟩
    · intro rest hrest
      have hfirst := hx rest hrest
      have hothers := hxs rest hrest
      dsimp only at hfirst hothers ⊢
      rw [readSlots, decode_offset hoffset ho, hfirst]
      change (readSlots len _ n (offset + len) >>= _) = _
      rw [hothers]
      rfl
    · rw [hlast, Nat.add_mul, Nat.one_mul]
      omega

theorem slotsCovered_of_filled (hcoverage : Coverage received size len.toNat kind decode)
    {n o : Nat} {offset last last' : BitVec 32} {xs : List α} (hoffset : offset.toNat = o)
    (hzero : readSlots len (decode (filled received size 0)) n offset = .ok (xs, last))
    (hone : readSlots len (decode (filled received size 1)) n offset = .ok (xs, last')) :
  slotsCovered received size len.toNat kind o n = true ∧ last.toNat = o + n * len.toNat ∧
    last' = last
  := by
  induction n generalizing o offset last last' xs with
  | zero =>
    obtain ⟨-, rfl⟩ := Prod.mk.inj (Except.ok.inj hzero)
    obtain ⟨-, rfl⟩ := Prod.mk.inj (Except.ok.inj hone)
    exact ⟨rfl, by simpa using hoffset, rfl⟩
  | succ n ih =>
    rw [readSlots] at hzero hone
    obtain ⟨x, hx, hzero⟩ := Except.bind_eq_ok.mp hzero
    obtain ⟨⟨ys, l⟩, hys, hzero⟩ := Except.bind_eq_ok.mp hzero
    obtain ⟨x', hx', hone⟩ := Except.bind_eq_ok.mp hone
    obtain ⟨⟨ys', l'⟩, hys', hone⟩ := Except.bind_eq_ok.mp hone
    obtain ⟨rfl, rfl⟩ := Prod.mk.inj (Except.ok.inj hzero)
    obtain ⟨hequal, rfl⟩ := Prod.mk.inj (Except.ok.inj hone)
    obtain ⟨rfl, rfl⟩ := List.cons.inj hequal
    obtain ⟨hlen, hplace, -⟩ := hcoverage.inside hx
    have ho : o < 2 ^ 31 := hoffset ▸ lt_of_toInt_nonneg hplace
    have hnext : (offset + len).toNat = o + len.toNat := by
      rw [BitVec.toNat_add]
      omega
    rw [decode_offset hoffset ho] at hx hx'
    obtain ⟨hcovered, hlast, hsame⟩ := ih hnext hys hys'
    rw [slotsCovered, Bool.and_eq_true]
    refine ⟨⟨hcoverage.of_filled ho hx hx', hcovered⟩, ?_, hsame⟩
    rw [hlast, Nat.add_mul, Nat.one_mul]
    omega

end

end

/-- How a parameter is decoded from the objects of its slots. -/
structure Decoder {α : Type} (param : Parameter) (decode : List Byte → Int → Except Stop α)
    (value : List α → Intfc.Value) : Prop where
  eq : ∀ (buf : List Byte) (offset : BitVec 32), decodeParameter buf param offset
    = (readSlots param.len (decode buf) param.count offset).map fun p => (value p.1, p.2)
  injective : ∀ {xs ys : List α}, xs.length = param.count → ys.length = param.count →
    value xs = value ys → xs = ys
  coverage : ∀ {received : List Byte} {size : Nat}, received.length ≤ size →
    Coverage received size param.len.toNat param.type.kind decode
  error : ∀ {buf : List Byte} {i : Int} {stop : Stop}, decode buf i = .error stop →
    stop = .outOfBounds

section

variable {α : Type} {param : Parameter} {decode : List Byte → Int → Except Stop α}

/-- The value of the only slot. -/
def single (value : α → Intfc.Value) : List α → Intfc.Value
  | [x] => value x
  | _ => .unknown .unknown

theorem decoder_scalar {value : α → Intfc.Value} (hvalue : Function.Injective value)
    (harray : param.type.array = false)
    (heq : ∀ buf offset, decodeParameter buf param offset
      = decodeScalar param (decode buf) value offset)
    (hcoverage : ∀ {received : List Byte} {size : Nat}, received.length ≤ size →
      Coverage received size param.len.toNat param.type.kind decode)
    (herror : ∀ {buf : List Byte} {i : Int} {stop : Stop}, decode buf i = .error stop →
      stop = .outOfBounds) :
  Decoder param decode (single value)
  where
  eq := by
    intro buf offset
    have hcount : param.count = 1 := by
      rw [Parameter.count, harray, if_neg Bool.false_ne_true]
    rw [heq, decodeScalar, hcount, readSlots]
    cases decode buf offset.toInt <;> rfl
  injective := by
    intro xs ys hxs hys h
    rw [Parameter.count, harray, if_neg Bool.false_ne_true] at hxs hys
    obtain ⟨x, rfl⟩ := List.length_eq_one_iff.mp hxs
    obtain ⟨y, rfl⟩ := List.length_eq_one_iff.mp hys
    rw [hvalue h]
  coverage := hcoverage
  error := herror

theorem decoder_array {value : ArrayImpl α → Intfc.Value} (hvalue : Function.Injective value)
    (harray : param.type.array = true) (hmsb : param.elements.msb = false)
    (heq : ∀ buf offset, decodeParameter buf param offset
      = decodeArray param (decode buf) value offset)
    (hcoverage : ∀ {received : List Byte} {size : Nat}, received.length ≤ size →
      Coverage received size param.len.toNat param.type.kind decode)
    (herror : ∀ {buf : List Byte} {i : Int} {stop : Stop}, decode buf i = .error stop →
      stop = .outOfBounds) :
  Decoder param decode (fun xs => value (xs.map fun x => ⟨true, x⟩))
  where
  eq := by
    intro buf offset
    rw [heq, decodeArray, hmsb, if_neg Bool.false_ne_true, Parameter.count, harray, if_pos rfl]
    cases readSlots param.len (decode buf) param.elements.toNat offset <;> rfl
  injective := by
    intro xs ys _ _ h
    apply List.map_injective_iff.mpr _ (hvalue h)
    intro x y hxy
    exact congrArg ArrayElement.contents hxy
  coverage := hcoverage
  error := herror

end

theorem orOutOfBounds_error {α : Type} {x : Option α} {stop : Stop}
    (h : orOutOfBounds x = .error stop) :
  stop = .outOfBounds
  := by
  cases x with
  | none =>
    cases h
    rfl
  | some y => contradiction

theorem decodeInteger_error {len : BitVec 32} (hlen : len = 2 ∨ len = 4) {buf : List Byte}
    {i : Int} {stop : Stop} (h : decodeInteger len buf i = .error stop) :
  stop = .outOfBounds
  := by
  rcases hlen with rfl | rfl
  · exact orOutOfBounds_error (Except.map_eq_error.mp h)
  · exact orOutOfBounds_error h

theorem decodeBool_error {len : BitVec 32} (hlen : len = 1 ∨ len = 2 ∨ len = 4)
    {buf : List Byte} {i : Int} {stop : Stop} (h : decodeBool len buf i = .error stop) :
  stop = .outOfBounds
  := by
  rw [decodeBool_eq hlen] at h
  exact orOutOfBounds_error (Except.map_eq_error.mp h)

theorem decodeString_error {len : BitVec 32} (hmsb : len.msb = false) {buf : List Byte} {i : Int}
    {stop : Stop} (h : decodeString len buf i = .error stop) :
  stop = .outOfBounds
  := by
  unfold decodeString at h
  rw [hmsb, if_neg Bool.false_ne_true] at h
  exact orOutOfBounds_error h

/-- What holds of a parameter at which decoding does not stop. -/
theorem stops_eq_false {param : Parameter} (h : param.stops = false) :
  (param.type.kind = .float → param.len = 4) ∧
    (param.type.array = true → param.elements.msb = false) ∧
    (param.type.kind = .string → param.len.msb = false)
  := by
  unfold Parameter.stops at h
  simp only [Bool.or_eq_false_iff, Bool.and_eq_false_iff, decide_eq_false_iff_not, not_not] at h
  obtain ⟨⟨hfloat, harray⟩, hstring⟩ := h
  refine ⟨?_, ?_, ?_⟩
  · exact fun hkind => hfloat.resolve_left (not_not.mpr hkind)
  · intro htrue
    rw [htrue] at harray
    simpa using harray
  · exact fun hkind => hstring.resolve_left (not_not.mpr hkind)

/-- A parameter at which decoding does not stop. -/
theorem exists_decoder {param : Parameter} (haccepted : param.Accepted)
    (hstops : param.stops = false) :
  ∃ (α : Type) (decode : List Byte → Int → Except Stop α) (value : List α → Intfc.Value),
    Decoder param decode value
  := by
  obtain ⟨hfloat, hmsb, hstring⟩ := stops_eq_false hstops
  obtain ⟨⟨kind, array⟩, len, elements⟩ := param
  obtain ⟨hlen, hvalid, -⟩ := haccepted
  cases kind with
  | int =>
    have hwidth : len = 2 ∨ len = 4 := by
      simpa [Kind.acceptsBytes] using hvalid
    refine ⟨_, decodeInteger len, ?_⟩
    cases array with
    | false =>
      exact ⟨_, decoder_scalar (fun _ _ h => Intfc.Value.integer.inj h) rfl (fun _ _ => rfl)
        (fun hsize => coverage_integer hsize hwidth) (decodeInteger_error hwidth)⟩
    | true =>
      refine ⟨_, decoder_array (fun _ _ h => Intfc.Value.integerArray.inj h) rfl (hmsb rfl) ?_
        (fun hsize => coverage_integer hsize hwidth) (decodeInteger_error hwidth)⟩
      intro buf offset
      exact if_neg (by tauto)
  | float =>
    obtain rfl : len = 4 := hfloat rfl
    refine ⟨_, decodeReal 4, ?_⟩
    have herror : ∀ {buf : List Byte} {i : Int} {stop : Stop},
        decodeReal 4 buf i = .error stop → stop = .outOfBounds :=
      fun h => orOutOfBounds_error (Except.map_eq_error.mp h)
    cases array with
    | false =>
      exact ⟨_, decoder_scalar (fun _ _ h => Intfc.Value.real.inj h) rfl (fun _ _ => rfl)
        (fun hsize => coverage_real hsize) herror⟩
    | true =>
      exact ⟨_, decoder_array (fun _ _ h => Intfc.Value.realArray.inj h) rfl (hmsb rfl)
        (fun _ _ => rfl) (fun hsize => coverage_real hsize) herror⟩
  | bool =>
    have hwidth : len = 1 ∨ len = 2 ∨ len = 4 := by
      simpa [Kind.acceptsBytes, or_assoc] using hvalid
    refine ⟨_, decodeBool len, ?_⟩
    cases array with
    | false =>
      exact ⟨_, decoder_scalar (fun _ _ h => Intfc.Value.boolean.inj h) rfl (fun _ _ => rfl)
        (fun hsize => coverage_bool hsize hwidth) (decodeBool_error hwidth)⟩
    | true =>
      exact ⟨_, decoder_array (fun _ _ h => Intfc.Value.booleanArray.inj h) rfl (hmsb rfl)
        (fun _ _ => rfl) (fun hsize => coverage_bool hsize hwidth) (decodeBool_error hwidth)⟩
  | string =>
    have hshort := hstring rfl
    refine ⟨_, decodeString len, ?_⟩
    cases array with
    | false =>
      exact ⟨_, decoder_scalar (fun _ _ h => Intfc.Value.string.inj h) rfl (fun _ _ => rfl)
        (fun hsize => coverage_string hsize hlen hshort) (decodeString_error hshort)⟩
    | true =>
      exact ⟨_, decoder_array (fun _ _ h => Intfc.Value.stringArray.inj h) rfl (hmsb rfl)
        (fun _ _ => rfl) (fun hsize => coverage_string hsize hlen hshort)
        (decodeString_error hshort)⟩

theorem decodeScalar_error {α : Type} {param : Parameter} {decode : Int → Except Stop α}
    {stop : Stop} (h : ∀ i, decode i = .error stop) (value : α → Intfc.Value) (offset : BitVec 32) :
  decodeScalar param decode value offset = .error stop
  := by
  rw [decodeScalar, h]
  rfl

theorem decodeArray_error {α : Type} {param : Parameter} {decode : Int → Except Stop α}
    (helements : param.elements ≠ 0)
    (h : param.elements.msb = true ∨ ∀ i, decode i = .error .lengthError)
    (value : ArrayImpl α → Intfc.Value) (offset : BitVec 32) :
  decodeArray param decode value offset = .error .lengthError
  := by
  rw [decodeArray]
  split
  · rfl
  · rename_i hmsb
    have hdecode := h.resolve_left hmsb
    obtain ⟨n, hn⟩ : ∃ n, param.elements.toNat = n + 1 := by
      apply Nat.exists_eq_add_one_of_ne_zero
      intro hzero
      exact helements (BitVec.eq_of_toNat_eq hzero)
    rw [hn, readSlots, hdecode]
    rfl

/-- A parameter at which decoding stops, whatever the buffer is. -/
theorem decodeParameter_of_stops {param : Parameter} (haccepted : param.Accepted)
    (hstops : param.stops = true) :
  ∃ stop, stop ≠ Stop.outOfBounds ∧
    ∀ buf offset, decodeParameter buf param offset = .error stop
  := by
  obtain ⟨⟨kind, array⟩, len, elements⟩ := param
  obtain ⟨-, hvalid, helements⟩ := haccepted
  cases kind with
  | int =>
    obtain ⟨rfl, hmsb⟩ : array = true ∧ elements.msb = true := by
      simpa [Parameter.stops] using hstops
    refine ⟨.lengthError, by decide, ?_⟩
    intro buf offset
    have hwidth : ¬ (len ≠ 2 ∧ len ≠ 4) := by
      rw [← not_or, not_not]
      simpa [Kind.acceptsBytes] using hvalid
    exact (if_neg hwidth).trans (if_pos hmsb)
  | float =>
    by_cases hlen : len = 4
    · obtain ⟨rfl, hmsb⟩ : array = true ∧ elements.msb = true := by
        simpa [Parameter.stops, hlen] using hstops
      refine ⟨.lengthError, by decide, ?_⟩
      intro buf offset
      exact (if_neg (not_not.mpr hlen)).trans (if_pos hmsb)
    · refine ⟨.invalidLength, by decide, ?_⟩
      intro buf offset
      cases array with
      | false => exact decodeScalar_error (fun i => if_pos hlen) _ _
      | true => exact if_pos hlen
  | bool =>
    obtain ⟨rfl, hmsb⟩ : array = true ∧ elements.msb = true := by
      simpa [Parameter.stops] using hstops
    exact ⟨.lengthError, by decide, fun buf offset => if_pos hmsb⟩
  | string =>
    refine ⟨.lengthError, by decide, ?_⟩
    intro buf offset
    have hstring : (array = true ∧ elements.msb = true) ∨ len.msb = true := by
      simpa [Parameter.stops] using hstops
    cases array with
    | false =>
      have hmsb := hstring.resolve_left (fun h => Bool.false_ne_true h.1)
      exact decodeScalar_error (fun i => if_pos hmsb) _ _
    | true =>
      apply decodeArray_error helements
      rcases hstring with ⟨-, hmsb⟩ | hmsb
      · exact .inl hmsb
      · exact .inr fun i => if_pos hmsb

/-! ### Messages -/

section

variable {received : List Byte} {size : Nat}

/-- Parameters which are covered are decoded to the same values in all buffers. -/
theorem decodeParameters_determined {params : List Parameter}
    (haccepted : ∀ param ∈ params, param.Accepted) (hsize : received.length ≤ size) {o : Nat}
    {offset : BitVec 32} (hoffset : offset.toNat = o)
    (hcovers : covers received size o params = true) :
  ∃ values stop, stop ≠ some Stop.outOfBounds ∧
    ∀ rest : List Byte, (received ++ rest).length = size →
      decodeParameters (received ++ rest) offset params = (values, stop)
  := by
  induction params generalizing o offset with
  | nil => exact ⟨[], none, by decide, fun _ _ => rfl⟩
  | cons param params ih =>
    obtain ⟨hparam, hparams⟩ := List.forall_mem_cons.mp haccepted
    rw [covers] at hcovers
    cases hstops : param.stops with
    | true =>
      obtain ⟨stop, hstop, hdecode⟩ := decodeParameter_of_stops hparam hstops
      refine ⟨[], some stop, by simpa using hstop, ?_⟩
      intro rest _
      rw [decodeParameters, hdecode]
    | false =>
      rw [hstops, Bool.false_or, Bool.and_eq_true] at hcovers
      obtain ⟨α, decode, value, hdecoder⟩ := exists_decoder hparam hstops
      obtain ⟨xs, last, hxs, hlast⟩ :=
        readSlots_determined (hdecoder.coverage hsize) hoffset hsize hcovers.1
      obtain ⟨values, stop, hstop, hothers⟩ := ih hparams hlast hcovers.2
      refine ⟨value xs :: values, stop, hstop, ?_⟩
      intro rest hrest
      have hfirst := hxs rest hrest
      dsimp only at hfirst
      rw [decodeParameters, hdecoder.eq, hfirst]
      change (_ :: (decodeParameters _ last params).1, (decodeParameters _ last params).2) = _
      rw [hothers rest hrest]

/-- A parameter is decoded, unless something outside of the buffer is read. -/
theorem decodeParameters_cons {α : Type} {param : Parameter} {params : List Parameter}
    {decode : List Byte → Int → Except Stop α} {value : List α → Intfc.Value}
    (hdecoder : Decoder param decode value) {buf : List Byte} {offset : BitVec 32}
    (h : (decodeParameters buf offset (param :: params)).2 ≠ some .outOfBounds) :
  ∃ xs last, readSlots param.len (decode buf) param.count offset = .ok (xs, last) ∧
    decodeParameters buf offset (param :: params)
      = (value xs :: (decodeParameters buf last params).1, (decodeParameters buf last params).2)
  := by
  rw [decodeParameters, hdecoder.eq] at h ⊢
  cases hread : readSlots param.len (decode buf) param.count offset with
  | error stop =>
    obtain ⟨i, hi⟩ := readSlots_error hread
    rw [hread, hdecoder.error hi] at h
    exact absurd rfl h
  | ok p => exact ⟨p.1, p.2, rfl, rfl⟩

/-- Parameters which are decoded to the same values in two buffers are covered. -/
theorem covers_of_filled {params : List Parameter}
    (haccepted : ∀ param ∈ params, param.Accepted) (hsize : received.length ≤ size) {o : Nat}
    {offset : BitVec 32} (hoffset : offset.toNat = o)
    (hvalues : (decodeParameters (filled received size 0) offset params).1
      = (decodeParameters (filled received size 1) offset params).1)
    (hzero : (decodeParameters (filled received size 0) offset params).2 ≠ some .outOfBounds)
    (hone : (decodeParameters (filled received size 1) offset params).2 ≠ some .outOfBounds) :
  covers received size o params = true
  := by
  induction params generalizing o offset with
  | nil => rfl
  | cons param params ih =>
    obtain ⟨hparam, hparams⟩ := List.forall_mem_cons.mp haccepted
    rw [covers]
    cases hstops : param.stops with
    | true => rfl
    | false =>
      obtain ⟨α, decode, value, hdecoder⟩ := exists_decoder hparam hstops
      obtain ⟨xs, last, hxs, hfirst⟩ := decodeParameters_cons hdecoder hzero
      obtain ⟨ys, last', hys, hfirst'⟩ := decodeParameters_cons hdecoder hone
      rw [hfirst] at hvalues hzero
      rw [hfirst'] at hvalues hone
      obtain ⟨hvalue, hothers⟩ := List.cons.inj hvalues
      obtain rfl := hdecoder.injective (length_of_readSlots hxs) (length_of_readSlots hys) hvalue
      obtain ⟨hcovered, hlast, rfl⟩ :=
        slotsCovered_of_filled (hdecoder.coverage hsize) hoffset hxs hys
      rw [Bool.false_or, Bool.and_eq_true]
      exact ⟨hcovered, ih hparams hlast hothers hzero hone⟩

end

/-! ### Datagrams -/

namespace Listener

variable {msg : UdpMessage}

theorem stored_length_le (msg : UdpMessage) (datagram : List Byte) :
  (stored msg datagram).length ≤ msg.len.toNat
  := List.length_take_le _ _

/-- An earlier datagram of the length of the message leaves its last bytes in the buffer. -/
theorem buffer_after_earlier (first : Listener msg) {datagram rest : List Byte}
    (hrest : (stored msg datagram ++ rest).length = msg.len.toNat) :
  ((first.run [(0, stored msg datagram ++ rest)]).recvfrom datagram).buffer
    = stored msg datagram ++ rest
  := by
  have hstored : stored msg (stored msg datagram ++ rest) = stored msg datagram ++ rest :=
    List.take_of_length_le hrest.le
  have hbuffer : (first.run [(0, stored msg datagram ++ rest)]).buffer
      = stored msg datagram ++ rest := by
    change stored msg _ ++ first.buffer.drop (stored msg _).length = _
    rw [hstored, hrest, List.drop_eq_nil_of_le first.length_eq.le, List.append_nil]
  change stored msg datagram ++ (Listener.buffer _).drop (stored msg datagram).length = _
  rw [hbuffer, List.drop_left]

/-- What is behind the received bytes. -/
theorem recvfrom_buffer (listener : Listener msg) (datagram : List Byte) :
  ∃ rest, (listener.recvfrom datagram).buffer = stored msg datagram ++ rest ∧
    (stored msg datagram ++ rest).length = msg.len.toNat
  := ⟨_, rfl, (listener.recvfrom datagram).length_eq⟩

theorem handleFDReady_of_nil {datagram : List Byte} (h : stored msg datagram = [])
    (counter : Nat) (listener : Listener msg) :
  (listener.handleFDReady counter datagram).2 = none
  := by
  rw [handleFDReady, h]
  rfl

theorem handleFDReady_of_ne_nil {datagram : List Byte} (h : stored msg datagram ≠ [])
    (counter : Nat) (listener : Listener msg) :
  (listener.handleFDReady counter datagram).2
    = some (handleUdpMessage counter msg (listener.recvfrom datagram).buffer
        (stored msg datagram).length)
  := if_neg (mt List.length_eq_zero_iff.mp h)

end Listener

/-- The values which are queued for a datagram depend on the datagram exactly when the bytes which
are stored determine all parameters. -/
theorem dependsOnDatagram_iff {defaults : Defaults} {msgXml : MessageXml} {msg : UdpMessage}
    (hparse : parseMessageDefinition defaults msgXml = some msg) (datagram : List Byte) :
  DependsOnDatagram msg datagram
    ↔ Listener.stored msg datagram = [] ∨
      covers (Listener.stored msg datagram) msg.len.toNat 0 msg.parameters = true
  := by
  obtain ⟨haccepted, -⟩ := parseMessageDefinition_spec hparse
  have hsize := Listener.stored_length_le msg datagram
  by_cases hnil : Listener.stored msg datagram = []
  · constructor
    · exact fun _ => .inl hnil
    · intro _ first first' history history' counter counter'
      rw [Listener.handleFDReady_of_nil hnil, Listener.handleFDReady_of_nil hnil]
      refine ⟨rfl, ?_⟩
      intro handling h
      contradiction
  · constructor
    · intro h
      right
      let first : Listener msg := ⟨zeros msg.len.toNat, zeros_length _⟩
      let earlier (fill : Byte) : List (Nat × List Byte) :=
        [(0, filled (Listener.stored msg datagram) msg.len.toNat fill)]
      have hbuffer : ∀ fill, ((first.run (earlier fill)).recvfrom datagram).buffer
          = filled (Listener.stored msg datagram) msg.len.toNat fill :=
        fun fill => first.buffer_after_earlier (filled_length hsize fill)
      have hzero := h first first (earlier 0) (earlier 1) 0 0
      have hone := (h first first (earlier 1) (earlier 0) 0 0).2
      rw [Listener.handleFDReady_of_ne_nil hnil, Listener.handleFDReady_of_ne_nil hnil, hbuffer,
        hbuffer] at hzero
      rw [Listener.handleFDReady_of_ne_nil hnil, hbuffer] at hone
      have hvalues := Option.some.inj hzero.1
      rw [values_handleUdpMessage, values_handleUdpMessage] at hvalues
      exact covers_of_filled haccepted hsize rfl hvalues (hzero.2 _ rfl) (hone _ rfl)
    · rintro (h | hcovers)
      · exact absurd h hnil
      · obtain ⟨values, stop, hstop, hdecode⟩ :=
          @decodeParameters_determined _ _ _ haccepted hsize 0 0 rfl hcovers
        intro first first' history history' counter counter'
        obtain ⟨rest, hbuffer, hrest⟩ := (first.run history).recvfrom_buffer datagram
        obtain ⟨rest', hbuffer', hrest'⟩ := (first'.run history').recvfrom_buffer datagram
        rw [Listener.handleFDReady_of_ne_nil hnil, Listener.handleFDReady_of_ne_nil hnil, hbuffer,
          hbuffer']
        constructor
        · rw [Option.map_some, Option.map_some, values_handleUdpMessage, values_handleUdpMessage,
            hdecode rest hrest, hdecode rest' hrest']
        · intro handling hhandling
          obtain rfl := Option.some.inj hhandling
          change (decodeParameters _ 0 msg.parameters).2 ≠ _
          rw [hdecode rest hrest]
          exact hstop

/-- A text which ends in the received bytes, whatever was in the buffer. -/
theorem dependsOnDatagram_iff_text :
  DependsOnDatagram ⟨"m", "localhost", [⟨⟨.string, false⟩, 4, 1⟩], 4, 8031, 8032⟩ [65, 0]
  := by
  have hparse : parseMessageDefinition noDefaults (scalarMessage [("string", 4)])
      = some ⟨"m", "localhost", [⟨⟨.string, false⟩, 4, 1⟩], 4, 8031, 8032⟩ := rfl
  exact (dependsOnDatagram_iff hparse [65, 0]).mpr (by decide)

/-- An Integer of four bytes is made of the byte of a datagram and three bytes of an earlier
one. -/
theorem not_dependsOnDatagram :
  ¬ ∀ (defaults : Defaults) (msgXml : MessageXml) (msg : UdpMessage),
    parseMessageDefinition defaults msgXml = some msg →
      ∀ datagram, DependsOnDatagram msg datagram
  := by
  intro h
  have hparse : parseMessageDefinition noDefaults (scalarMessage [("int", 4)])
      = some ⟨"m", "localhost", [⟨⟨.int, false⟩, 4, 1⟩], 4, 8031, 8032⟩ := rfl
  let first : Listener ⟨"m", "localhost", [⟨⟨.int, false⟩, 4, 1⟩], 4, 8031, 8032⟩ :=
    ⟨zeros 4, rfl⟩
  have hvalues := (h _ _ _ hparse [7] first first [(1, [0, 0, 0, 1])] [(1, [0, 0, 0, 2])] 2 2).1
  exact absurd hvalues (by decide)

end Plexil.Udp

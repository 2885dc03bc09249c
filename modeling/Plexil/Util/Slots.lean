import Plexil.Util.Buffer
import Plexil.Util.Exceptions
import Mathlib.Tactic.Linarith

/-!
# Slots of a buffer

Objects are written one after another into a buffer, each into a slot of a fixed width.  What is
written may be shorter than the slot; the other bytes of the slot stay as they are.  The place in
the buffer is a number of 32 bits which grows by the width and wraps, and which is a signed
number when it is used.

A `SlotCodec` has the functions which write and read the object of one slot.  In a buffer of
zeros what has been written is read back, as long as the places do not reach `2 ^ 31`.
-/

namespace Slots

def zeros (n : Nat) : List Byte := List.replicate n 0

@[simp] theorem zeros_length (n : Nat) : (zeros n).length = n := List.length_replicate

theorem zeros_add (m n : Nat) : zeros (m + n) = zeros m ++ zeros n := List.replicate_add m n 0

/-! ### Access to a buffer -/

/-- Writes bytes to a place; a byte outside of the buffer is not stored. -/
def store (buf : List Byte) (i : Int) : List Byte → List Byte
  | [] => buf
  | b :: bytes => store (if 0 ≤ i then buf.set i.toNat b else buf) (i + 1) bytes

/-- Reads `n` bytes; there is no result when one of them is outside of the buffer. -/
def load (buf : List Byte) (i : Int) (n : Nat) : Option (List Byte) :=
  if 0 ≤ i ∧ i.toNat + n ≤ buf.length then some ((buf.drop i.toNat).take n) else none

/-- Reads bytes up to a zero, but no more than `n`. -/
def loadText (buf : List Byte) : Int → Nat → Option (List Byte)
  | _, 0 => some []
  | i, n + 1 =>
    match load buf i 1 with
    | some [c] => if c = 0 then some [] else (loadText buf (i + 1) n).map (c :: ·)
    | _ => none

theorem store_append (bytes : List Byte) {pre old : List Byte} (post : List Byte)
    (hold : old.length = bytes.length) :
  store (pre ++ old ++ post) pre.length bytes = pre ++ bytes ++ post
  := by
  induction bytes generalizing pre old with
  | nil =>
    obtain rfl := List.eq_nil_of_length_eq_zero hold
    rfl
  | cons b bytes ih =>
    obtain ⟨c, old, rfl⟩ := List.exists_cons_of_length_eq_add_one hold
    have hset : (pre ++ c :: old ++ post).set pre.length b = (pre ++ [b]) ++ old ++ post := by
      simp
    have hplace : (pre.length : Int) + 1 = (pre ++ [b]).length := by
      simp
    rw [store, if_pos (Int.natCast_nonneg _), Int.toNat_natCast, hset, hplace,
      ih (by simpa using hold)]
    simp

theorem load_append (pre bytes post : List Byte) :
  load (pre ++ bytes ++ post) pre.length bytes.length = some bytes
  := by
  have hbound : 0 ≤ (pre.length : Int) ∧
      (pre.length : Int).toNat + bytes.length ≤ (pre ++ bytes ++ post).length := by
    simp
  rw [load, if_pos hbound]
  simp

theorem load_inside {buf : List Byte} {i : Int} {n : Nat} {bytes : List Byte} (hn : 0 < n)
    (h : load buf i n = some bytes) :
  0 ≤ i ∧ i < buf.length
  := by
  unfold load at h
  split at h
  · omega
  · contradiction

theorem loadText_inside {buf : List Byte} {i : Int} {n : Nat} {bytes : List Byte} (hn : 0 < n)
    (h : loadText buf i n = some bytes) :
  0 ≤ i ∧ i < buf.length
  := by
  obtain ⟨n, rfl⟩ := Nat.exists_eq_add_of_lt hn
  rw [Nat.zero_add, loadText] at h
  split at h
  · rename_i hload
    exact load_inside (by decide) hload
  · contradiction

theorem load_cons (b : Byte) (pre bytes : List Byte) :
  load (pre ++ b :: bytes) pre.length 1 = some [b]
  := by
  simpa using load_append pre [b] bytes

/-- Text which ends before the first zero, or at the end of the slot. -/
theorem loadText_of_ends {bytes : List Byte} {n : Nat}
    (h : bytes.length = n ∨ bytes.length ≤ n ∧ 0 ∈ bytes) (pre post : List Byte) :
  loadText (pre ++ bytes ++ post) pre.length n = some (bytes.takeWhile fun b => b ≠ 0)
  := by
  induction bytes generalizing pre n with
  | nil =>
    rcases h with rfl | ⟨-, hzero⟩
    · rfl
    · contradiction
  | cons b bytes ih =>
    obtain ⟨n, rfl⟩ : ∃ m, n = m + 1 := by
      rw [List.length_cons] at h
      exact ⟨n - 1, by omega⟩
    have hload := load_cons b pre (bytes ++ post)
    rw [List.append_assoc, List.cons_append, loadText, hload]
    by_cases hb : b = 0
    · simp [hb]
    · have hbuf : pre ++ b :: (bytes ++ post) = (pre ++ [b]) ++ bytes ++ post := by
        simp
      have hplace : (pre.length : Int) + 1 = (pre ++ [b]).length := by
        simp
      have hends : bytes.length = n ∨ bytes.length ≤ n ∧ 0 ∈ bytes := by
        rw [List.length_cons] at h
        rcases h with h | ⟨h, hzero⟩
        · exact .inl (by omega)
        · rcases List.mem_cons.mp hzero with hzero | hzero
          · exact absurd hzero.symm hb
          · exact .inr ⟨by omega, hzero⟩
      rw [hbuf, hplace]
      dsimp only
      rw [if_neg hb, ih hends, List.takeWhile_cons_of_pos (by simpa using hb)]
      rfl

/-- The text of a slot, which ends before the first zero. -/
theorem loadText_append (bytes pre post : List Byte) :
  loadText (pre ++ bytes ++ post) pre.length bytes.length
    = some (bytes.takeWhile fun b => b ≠ 0)
  := loadText_of_ends (.inl rfl) pre post

/-- The bytes which are read are those of the buffer. -/
theorem getElem?_of_load {buf : List Byte} {o n : Nat} {bytes : List Byte}
    (h : load buf o n = some bytes) :
  bytes.length = n ∧ o + n ≤ buf.length ∧ ∀ k < n, bytes[k]? = buf[o + k]?
  := by
  unfold load at h
  split at h
  · rename_i hbound
    rw [Int.toNat_natCast] at hbound h
    cases h
    refine ⟨?_, hbound.2, ?_⟩
    · rw [List.length_take, List.length_drop]
      omega
    · intro k hk
      rw [List.getElem?_take_of_lt hk, List.getElem?_drop]
  · contradiction

/-- A text has the bytes of the buffer up to a zero or to the end of the slot. -/
theorem loadText_spec {buf : List Byte} {o n : Nat} {str : List Byte}
    (h : loadText buf o n = some str) :
  (∀ b ∈ str, b ≠ 0) ∧ (∀ k < str.length, str[k]? = buf[o + k]?) ∧
    (str.length = n ∨ str.length < n ∧ buf[o + str.length]? = some 0)
  := by
  induction n generalizing o str with
  | zero =>
    cases h
    simp
  | succ n ih =>
    rw [loadText] at h
    split at h
    · rename_i c hload
      have hc := (getElem?_of_load hload).2.2 0 Nat.zero_lt_one
      rw [List.getElem?_cons_zero, Nat.add_zero] at hc
      split at h
      · rename_i hzero
        cases h
        simp [← hc, hzero]
      · rename_i hnonzero
        obtain ⟨rest, hrest, rfl⟩ := Option.map_eq_some_iff.mp h
        obtain ⟨hall, hbytes, hends⟩ := @ih (o + 1) rest (by exact_mod_cast hrest)
        refine ⟨List.forall_mem_cons.mpr ⟨hnonzero, hall⟩, ?_, ?_⟩
        · intro k hk
          cases k with
          | zero => exact hc
          | succ k =>
            rw [List.getElem?_cons_succ, hbytes k (by simpa using hk), Nat.add_right_comm,
              Nat.add_assoc]
        · rw [List.length_cons]
          rcases hends with hends | ⟨hshort, hends⟩
          · exact .inl (by omega)
          · refine .inr ⟨by omega, ?_⟩
            rw [← hends, Nat.add_right_comm, Nat.add_assoc]
    · contradiction

theorem length_of_load {buf : List Byte} {i : Int} {n : Nat} {bytes : List Byte}
    (h : load buf i n = some bytes) :
  bytes.length = n
  := by
  unfold load at h
  split at h
  · cases h
    rw [List.length_take, List.length_drop]
    omega
  · contradiction

/-! ### Writing -/

/-- The place behind what has been written, and what has been written where. -/
structure Output where
  index : BitVec 32
  writes : List (BitVec 32 × List Byte)
  deriving DecidableEq

def storeAll (buf : List Byte) (writes : List (BitVec 32 × List Byte)) : List Byte :=
  writes.foldl (fun buf w => store buf w.1.toInt w.2) buf

section

variable {α E : Type}

/-- Writes objects one after another, from the place `start` on. -/
def writeSlots (len : BitVec 32) (encode : α → Except E (List Byte)) :
    BitVec 32 → List α → Except E Output
  | start, [] => .ok ⟨start, []⟩
  | start, x :: xs => do
    let bytes ← encode x
    let rest ← writeSlots len encode (start + len) xs
    return ⟨rest.index, (start, bytes) :: rest.writes⟩

/-- Reads objects one after another. -/
def readSlots (len : BitVec 32) (decode : Int → Except E α) :
    Nat → BitVec 32 → Except E (List α × BitVec 32)
  | 0, offset => .ok ([], offset)
  | n + 1, offset => do
    let x ← decode offset.toInt
    let (xs, offset) ← readSlots len decode n (offset + len)
    return (x :: xs, offset)

end

theorem length_of_readSlots {α E : Type} {len : BitVec 32} {decode : Int → Except E α} {n : Nat}
    {offset last : BitVec 32} {xs : List α} (h : readSlots len decode n offset = .ok (xs, last)) :
  xs.length = n
  := by
  induction n generalizing offset xs with
  | zero =>
    obtain ⟨rfl, -⟩ := Prod.mk.inj (Except.ok.inj h)
    rfl
  | succ n ih =>
    rw [readSlots] at h
    obtain ⟨x, -, h⟩ := Except.bind_eq_ok.mp h
    obtain ⟨⟨ys, l⟩, hys, h⟩ := Except.bind_eq_ok.mp h
    obtain ⟨rfl, rfl⟩ := Prod.mk.inj (Except.ok.inj h)
    rw [List.length_cons, ih hys]

/-- Reading fails as it does in some slot. -/
theorem readSlots_error {α E : Type} {len : BitVec 32} {decode : Int → Except E α} {n : Nat}
    {offset : BitVec 32} {e : E} (h : readSlots len decode n offset = .error e) :
  ∃ i, decode i = .error e
  := by
  induction n generalizing offset with
  | zero => contradiction
  | succ n ih =>
    rw [readSlots] at h
    cases hx : decode offset.toInt with
    | error e' =>
      rw [hx] at h
      cases h
      exact ⟨_, hx⟩
    | ok x =>
      rw [hx] at h
      change (readSlots len decode n (offset + len) >>= _) = _ at h
      cases hrest : readSlots len decode n (offset + len) with
      | error e' =>
        rw [hrest] at h
        cases h
        exact ih hrest
      | ok p =>
        rw [hrest] at h
        contradiction

/-- The place behind the slots, which may have wrapped. -/
theorem writeSlots_index {α E : Type} {len : BitVec 32} {encode : α → Except E (List Byte)}
    {start : BitVec 32} {xs : List α} {out : Output}
    (h : writeSlots len encode start xs = .ok out) :
  out.index = start + BitVec.ofNat 32 (xs.length * len.toNat)
  := by
  induction xs generalizing start out with
  | nil =>
    cases h
    simp
  | cons x xs ih =>
    rw [writeSlots] at h
    obtain ⟨bytes, -, h⟩ := Except.bind_eq_ok.mp h
    obtain ⟨rest, hrest, h⟩ := Except.bind_eq_ok.mp h
    cases h
    rw [List.length_cons, Nat.add_mul, Nat.one_mul, Nat.add_comm, BitVec.ofNat_add,
      BitVec.ofNat_toNat, BitVec.setWidth_eq, ← BitVec.add_assoc,
      ← ih hrest]

/-- Objects which can all be written one by one can be written together. -/
theorem writeSlots_ok {α E : Type} {len : BitVec 32} {encode : α → Except E (List Byte)}
    {xs : List α} (h : ∀ x ∈ xs, ∃ bytes, encode x = .ok bytes) (start : BitVec 32) :
  ∃ out, writeSlots len encode start xs = .ok out
  := by
  induction xs generalizing start with
  | nil => exact ⟨_, rfl⟩
  | cons x xs ih =>
    obtain ⟨bytes, hbytes⟩ := h x List.mem_cons_self
    obtain ⟨out, hout⟩ := ih (fun y hy => h y (List.mem_cons_of_mem x hy)) (start + len)
    rw [writeSlots, hbytes]
    change ∃ out, (writeSlots len encode (start + len) xs >>= _) = _
    rw [hout]
    exact ⟨_, rfl⟩

/-- In a buffer of zeros, `n` bytes from the place `start` on have become `image`; nothing has
been written elsewhere. -/
structure Wrote (start : BitVec 32) (n : Nat) (out : Output) (image : List Byte) : Prop where
  length : image.length = n
  index : out.index.toNat = start.toNat + n
  inside : ∀ w ∈ out.writes, start.toNat ≤ w.1.toNat ∧ w.1.toNat + w.2.length ≤ start.toNat + n
  stored : ∀ pre post : List Byte, pre.length = start.toNat →
    storeAll (pre ++ zeros n ++ post) out.writes = pre ++ image ++ post

/-- Where the bytes are `image`, the reader finds `y`. -/
def Finds {β E : Type} (read : List Byte → BitVec 32 → Except E (β × BitVec 32)) (start : BitVec 32)
    (image : List Byte) (y : β) : Prop :=
  ∀ pre post : List Byte, pre.length = start.toNat →
    read (pre ++ image ++ post) start = .ok (y, start + BitVec.ofNat 32 image.length)

theorem wrote_nil (start : BitVec 32) : Wrote start 0 ⟨start, []⟩ []
  where
  length := rfl
  index := rfl
  inside := by
    intro w hw
    contradiction
  stored := by
    intro pre post _
    rfl

theorem Wrote.append {start : BitVec 32} {m n : Nat} {out out' : Output}
    {image image' : List Byte} (h : Wrote start m out image)
    (h' : Wrote out.index n out' image') :
  Wrote start (m + n) ⟨out'.index, out.writes ++ out'.writes⟩ (image ++ image')
  where
  length := by
    rw [List.length_append, h.length, h'.length]
  index := by
    rw [h'.index, h.index, Nat.add_assoc]
  inside := by
    intro w hw
    have hindex := h.index
    rcases List.mem_append.mp hw with hw | hw
    · have := h.inside w hw
      omega
    · have := h'.inside w hw
      omega
  stored := by
    intro pre post hpre
    have hfirst := h.stored pre (zeros n ++ post) hpre
    have hsecond := h'.stored (pre ++ image) post
      (by rw [List.length_append, h.length, hpre, h.index])
    rw [storeAll, List.foldl_append]
    rw [storeAll] at hfirst hsecond
    rw [zeros_add, ← List.append_assoc, List.append_assoc (pre ++ zeros m), hfirst,
      ← List.append_assoc, hsecond, List.append_assoc pre]

/-! ### Codecs -/

/-- How the object of one slot is written and read.  An object may be read back as another one,
`received`. -/
structure SlotCodec (α E S : Type) where
  len : BitVec 32
  encode : α → Except E (List Byte)
  decode : List Byte → Int → Except S α
  received : α → α
  encode_length : ∀ {x : α} {bytes : List Byte}, encode x = .ok bytes →
    bytes.length ≤ len.toNat
  decode_encode : ∀ {x : α} {bytes : List Byte}, encode x = .ok bytes →
    len.toNat < 2 ^ 31 → ∀ pre post : List Byte,
      decode (pre ++ (bytes ++ zeros (len.toNat - bytes.length)) ++ post) pre.length
        = .ok (received x)
  decode_inside : ∀ {buf : List Byte} {i : Int} {x : α}, decode buf i = .ok x →
    len.toNat < 2 ^ 31 ∧ 0 ≤ i ∧ i < buf.length

/-- A place below `2 ^ 31` is used as it is. -/
theorem toInt_of_lt {x : BitVec 32} (h : x.toNat < 2 ^ 31) : x.toInt = x.toNat
  := by
  rw [BitVec.toInt_eq_toNat_of_lt]
  omega

theorem lt_of_toInt_nonneg {x : BitVec 32} (h : 0 ≤ x.toInt) : x.toNat < 2 ^ 31
  := by
  rw [BitVec.toInt_eq_toNat_cond] at h
  split at h <;> omega

namespace SlotCodec

/-- The codec of objects which fill their slots. -/
def ofFull {α E S : Type} (len : BitVec 32) (encode : α → Except E (List Byte))
    (decode : List Byte → Int → Except S α) (received : α → α)
    (encode_length : ∀ {x : α} {bytes : List Byte}, encode x = .ok bytes →
      bytes.length = len.toNat)
    (decode_encode : ∀ {x : α} {bytes : List Byte}, encode x = .ok bytes →
      ∀ pre post : List Byte, decode (pre ++ bytes ++ post) pre.length = .ok (received x))
    (decode_inside : ∀ {buf : List Byte} {i : Int} {x : α}, decode buf i = .ok x →
      len.toNat < 2 ^ 31 ∧ 0 ≤ i ∧ i < buf.length) :
    SlotCodec α E S where
  len := len
  encode := encode
  decode := decode
  received := received
  encode_length h := (encode_length h).le
  decode_encode := by
    intro x bytes h _ pre post
    rw [encode_length h, Nat.sub_self]
    change decode (pre ++ (bytes ++ []) ++ post) _ = _
    rw [List.append_nil]
    exact decode_encode h pre post
  decode_inside := decode_inside

variable {α E S : Type} (codec : SlotCodec α E S)

/-- One slot. -/
theorem wrote_slot {start : BitVec 32} {x : α} {bytes : List Byte}
    (h : codec.encode x = .ok bytes) (hfits : start.toNat + codec.len.toNat < 2 ^ 31) :
  Wrote start codec.len.toNat ⟨start + codec.len, [(start, bytes)]⟩
    (bytes ++ zeros (codec.len.toNat - bytes.length))
  where
  length := by
    have := codec.encode_length h
    rw [List.length_append, zeros_length]
    omega
  index := by
    rw [BitVec.toNat_add]
    omega
  inside := by
    intro w hw
    obtain rfl := List.mem_singleton.mp hw
    have := codec.encode_length h
    dsimp only
    omega
  stored := by
    intro pre post hpre
    have hlen := codec.encode_length h
    have hsplit : codec.len.toNat = bytes.length + (codec.len.toNat - bytes.length) := by
      omega
    have hstore := @store_append bytes pre (zeros bytes.length)
      (zeros (codec.len.toNat - bytes.length) ++ post) (zeros_length _)
    have hplace : start.toInt = pre.length := by
      rw [hpre, toInt_of_lt (by omega)]
    change store _ start.toInt bytes = _
    rw [hplace]
    nth_rewrite 1 [hsplit]
    rw [zeros_add]
    simp only [List.append_assoc] at hstore ⊢
    exact hstore

/-- What has been written into slots, in one go. -/
theorem writeSlots_spec {start : BitVec 32} {xs : List α} {out : Output}
    (h : writeSlots codec.len codec.encode start xs = .ok out)
    (hfits : start.toNat + xs.length * codec.len.toNat < 2 ^ 31) :
  ∃ image, Wrote start (xs.length * codec.len.toNat) out image ∧
    Finds (fun buf => readSlots codec.len (codec.decode buf) xs.length) start image
      (xs.map codec.received)
  := by
  induction xs generalizing start out with
  | nil =>
    cases h
    refine ⟨[], ?_, ?_⟩
    · rw [List.length_nil, Nat.zero_mul]
      apply wrote_nil
    · intro pre post _
      simp [readSlots]
  | cons x xs ih =>
    rw [List.length_cons, Nat.add_mul, Nat.one_mul] at hfits
    rw [writeSlots] at h
    obtain ⟨bytes, hbytes, h⟩ := Except.bind_eq_ok.mp h
    obtain ⟨rest, hrest, h⟩ := Except.bind_eq_ok.mp h
    cases h
    have hslot : Wrote start codec.len.toNat ⟨start + codec.len, [(start, bytes)]⟩ _ :=
      codec.wrote_slot hbytes (by omega)
    have hindex : (start + codec.len).toNat = start.toNat + codec.len.toNat := hslot.index
    obtain ⟨image, hwrote, hfinds⟩ := ih hrest (by omega)
    refine ⟨(bytes ++ zeros (codec.len.toNat - bytes.length)) ++ image, ?_, ?_⟩
    · rw [List.length_cons, Nat.add_mul, Nat.one_mul, Nat.add_comm]
      exact hslot.append hwrote
    · intro pre post hpre
      have hfirst := codec.decode_encode hbytes (by omega) pre (image ++ post)
      have hothers := hfinds (pre ++ (bytes ++ zeros (codec.len.toNat - bytes.length))) post
        (by rw [List.length_append, hslot.length, hpre, hindex])
      have hplace : start.toInt = pre.length := by
        rw [hpre, toInt_of_lt (by omega)]
      simp only [List.append_assoc] at hfirst hothers ⊢
      rw [List.length_cons, readSlots, hplace, hfirst]
      change (readSlots _ _ _ _ >>= _) = _
      rw [hothers]
      have hlast : start + codec.len + BitVec.ofNat 32 image.length
          = start + BitVec.ofNat 32
              (bytes ++ (zeros (codec.len.toNat - bytes.length) ++ image)).length := by
        rw [← List.append_assoc, List.length_append, hslot.length, BitVec.ofNat_add,
          BitVec.ofNat_toNat, BitVec.setWidth_eq, BitVec.add_assoc]
      rw [← hlast]
      rfl

/-- All slots which are read begin below `2 ^ 31`, so that the place behind them has not
wrapped. -/
theorem readSlots_index {buf : List Byte} {n : Nat} {offset offset' : BitVec 32} {xs : List α}
    (h : readSlots codec.len (codec.decode buf) n offset = .ok (xs, offset')) :
  offset.toNat + n * codec.len.toNat < 2 ^ 32 ∧
    offset'.toNat = offset.toNat + n * codec.len.toNat
  := by
  induction n generalizing offset xs with
  | zero =>
    obtain ⟨rfl, rfl⟩ := Prod.mk.inj (Except.ok.inj h)
    have := offset.isLt
    omega
  | succ n ih =>
    rw [readSlots] at h
    obtain ⟨x, hx, h⟩ := Except.bind_eq_ok.mp h
    obtain ⟨⟨xs', last⟩, hrest, h⟩ := Except.bind_eq_ok.mp h
    cases h
    obtain ⟨hlen, hplace, -⟩ := codec.decode_inside hx
    have hbelow := lt_of_toInt_nonneg hplace
    have hindex : (offset + codec.len).toNat = offset.toNat + codec.len.toNat := by
      rw [BitVec.toNat_add]
      omega
    have hothers := ih hrest
    rw [hindex] at hothers
    rw [Nat.add_mul, Nat.one_mul]
    omega

end SlotCodec

end Slots

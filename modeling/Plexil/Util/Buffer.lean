import Mathlib.Data.BitVec
import Mathlib.Data.List.Induction
import Mathlib.Data.Nat.ModEq
import Mathlib.Tactic.Ring

/-!
# Byte buffers

A reader takes an object from the front of a buffer.  `Reads r bytes x` says that `r` reads
the object `x` from `bytes`, whatever follows in the buffer; the rules for it follow the
structure of readers.  `bigEndian` and `ofBigEndian` convert between numbers and bytes.
-/

abbrev Byte := BitVec 8

/-- A reader of objects of the type `α`.  It has no result when the buffer does not start
with such an object. -/
abbrev Reader := StateT (List Byte) Option

namespace Reader

variable {α β : Type}

/-- Reads a byte. -/
def byte : Reader Byte := fun
  | [] => none
  | b :: rest => some (b, rest)

/-- Reads the next byte without taking it from the buffer. -/
def peek : Reader Byte := fun
  | [] => none
  | b :: rest => some (b, b :: rest)

/-- Reads objects one after another. -/
def many (r : Reader α) : Nat → Reader (List α)
  | 0 => pure []
  | n + 1 => do
    let x ← r
    let xs ← many r n
    pure (x :: xs)

/-- The reader reads `x` from `bytes`, and what follows is left in the buffer. -/
def Reads (r : Reader α) (bytes : List Byte) (x : α) : Prop :=
  ∀ rest, r (bytes ++ rest) = some (x, rest)

/-! ### Rules -/

theorem bind_apply (r : Reader α) (f : α → Reader β) (buf : List Byte) :
  (r >>= f) buf = (r buf).bind fun p => f p.1 p.2
  := rfl

theorem map_apply (r : Reader α) (g : α → β) (buf : List Byte) :
  (g <$> r) buf = (r buf).bind fun p => some (g p.1, p.2)
  := rfl

theorem reads_pure (x : α) :
  Reads (pure x) [] x
  := by
  intro rest
  rfl

theorem reads_byte (b : Byte) :
  Reads byte [b] b
  := by
  intro rest
  rfl

theorem Reads.bind {r : Reader α} {f : α → Reader β} {bytes bytes' : List Byte} {x : α} {y : β}
    (hr : Reads r bytes x) (hf : Reads (f x) bytes' y) :
  Reads (r >>= f) (bytes ++ bytes') y
  := by
  intro rest
  rw [List.append_assoc, bind_apply, hr]
  apply hf

/-- A byte is read and the remaining bytes are read by what follows. -/
theorem Reads.byte_bind {f : Byte → Reader β} {b : Byte} {bytes : List Byte} {y : β}
    (hf : Reads (f b) bytes y) :
  Reads (byte >>= f) (b :: bytes) y
  := (reads_byte b).bind hf

theorem Reads.map {r : Reader α} {bytes : List Byte} {x : α} (hr : Reads r bytes x) (g : α → β) :
  Reads (g <$> r) bytes (g x)
  := by
  intro rest
  rw [map_apply, hr]
  rfl

theorem Reads.many {r : Reader α} {write : α → List Byte} {xs : List α}
    (hr : ∀ x ∈ xs, Reads r (write x) x) :
  Reads (many r xs.length) (xs.flatMap write) xs
  := by
  induction xs with
  | nil => apply reads_pure
  | cons x xs ih =>
    rw [List.flatMap_cons]
    apply (hr x List.mem_cons_self).bind
    rw [← List.append_nil (xs.flatMap write)]
    apply Reads.bind
    · apply ih
      intro y hy
      exact hr y (List.mem_cons_of_mem x hy)
    · apply reads_pure

/-- Once a part has been read, the remaining bytes matter. -/
theorem Reads.bind_iff {r : Reader α} {f : α → Reader β} {bytes bytes' : List Byte} {x : α}
    {y : β} (hr : Reads r bytes x) :
  Reads (r >>= f) (bytes ++ bytes') y ↔ Reads (f x) bytes' y
  := by
  constructor
  · intro h rest
    have hrest := h rest
    rwa [List.append_assoc, bind_apply, hr] at hrest
  · apply hr.bind

theorem reads_map_iff {r : Reader α} {bytes : List Byte} {x : α} {g : α → β}
    (hg : Function.Injective g) :
  Reads (r >>= fun x => pure (g x)) bytes (g x) ↔ Reads r bytes x
  := by
  constructor
  · intro h rest
    obtain ⟨⟨x', rest'⟩, hr, heq⟩ := Option.bind_eq_some_iff.mp (h rest)
    obtain ⟨hx, rfl⟩ := Prod.mk.inj (Option.some.inj heq)
    rw [hr, hg hx]
  · intro hr
    exact hr.map g

/-! ### Misreading -/

/-- The reader reads from `bytes` an object other than `x`, if any, whatever follows in the
buffer. -/
def Misreads (r : Reader α) (bytes : List Byte) (x : α) : Prop :=
  ∀ rest x' rest', r (bytes ++ rest) = some (x', rest') → x' ≠ x

theorem Misreads.not_reads {r : Reader α} {bytes : List Byte} {x : α} (h : Misreads r bytes x) :
  ¬ Reads r bytes x
  := by
  intro hr
  exact h [] x [] (hr []) rfl

theorem Misreads.bind {r : Reader α} {f : α → Reader β} {bytes bytes' : List Byte} {x : α} {y : β}
    (hr : Reads r bytes x) (hf : Misreads (f x) bytes' y) :
  Misreads (r >>= f) (bytes ++ bytes') y
  := by
  intro rest y' rest' h
  rw [List.append_assoc, bind_apply, hr] at h
  exact hf rest y' rest' h

theorem Misreads.map {r : Reader α} {bytes : List Byte} {x : α} {g : α → β}
    (hg : Function.Injective g) (h : Misreads r bytes x) :
  Misreads (g <$> r) bytes (g x)
  := by
  intro rest y rest' hy
  obtain ⟨⟨x', rest''⟩, hr, heq⟩ := Option.bind_eq_some_iff.mp hy
  obtain ⟨rfl, rfl⟩ := Prod.mk.inj (Option.some.inj heq)
  exact hg.ne (h rest x' _ hr)

theorem many_length {r : Reader α} {n : Nat} {buf rest : List Byte} {xs : List α}
    (h : many r n buf = some (xs, rest)) :
  xs.length = n
  := by
  induction n generalizing buf rest xs with
  | zero =>
    cases h
    rfl
  | succ n ih =>
    obtain ⟨⟨x, rest₁⟩, -, h⟩ := Option.bind_eq_some_iff.mp h
    obtain ⟨⟨xs', rest₂⟩, hxs, heq⟩ := Option.bind_eq_some_iff.mp h
    cases heq
    rw [List.length_cons, ih hxs]

theorem reads_many_byte {bytes : List Byte} {n : Nat} (h : bytes.length = n) :
  Reads (many byte n) bytes bytes
  := by
  have hread := @Reads.many _ byte (fun b => [b]) bytes fun b _ => reads_byte b
  rwa [List.flatMap_singleton', h] at hread

end Reader

/-! ### Numbers -/

namespace Byte

variable {w : Nat}

/-- The lowest `n` bytes of a number, the most significant byte first. -/
def bigEndian : (n : Nat) → BitVec w → List Byte
  | 0, _ => []
  | n + 1, x => (x >>> (8 * n)).setWidth 8 :: bigEndian n x

/-- The number which the bytes give, the most significant byte first, when a byte is made a
number by `extend`. -/
def ofBigEndian (extend : Byte → BitVec w) (bytes : List Byte) : BitVec w :=
  bytes.foldl (fun x b => (x <<< 8) + extend b) 0

@[simp]
theorem bigEndian_length (n : Nat) (x : BitVec w) :
  (bigEndian n x).length = n
  := by
  induction n with
  | zero => rfl
  | succ n ih => rw [bigEndian, List.length_cons, ih]

theorem foldl_bigEndian (n : Nat) (x acc : BitVec w) (hw : 8 ≤ w) :
  ((bigEndian n x).foldl (fun (x : BitVec w) b => (x <<< 8) + b.setWidth w) acc).toNat
    = (acc.toNat * 2 ^ (8 * n) + x.toNat % 2 ^ (8 * n)) % 2 ^ w
  := by
  induction n generalizing acc with
  | zero =>
    simp [bigEndian, Nat.mod_one, Nat.mod_eq_of_lt acc.isLt]
  | succ n ih =>
    rw [bigEndian, List.foldl_cons, ih]
    have hsplit : x.toNat % 2 ^ (8 * (n + 1))
        = x.toNat / 2 ^ (8 * n) % 2 ^ 8 * 2 ^ (8 * n) + x.toNat % 2 ^ (8 * n) := by
      rw [Nat.mul_succ, pow_add, Nat.mod_mul, add_comm, mul_comm]
    have hbyte : x.toNat / 2 ^ (8 * n) % 2 ^ 8 < 2 ^ w :=
      lt_of_lt_of_le (Nat.mod_lt _ (by decide)) (Nat.pow_le_pow_right (by decide) hw)
    have hstep : ((acc <<< 8) + ((x >>> (8 * n)).setWidth 8).setWidth w).toNat
        = (acc.toNat * 2 ^ 8 + x.toNat / 2 ^ (8 * n) % 2 ^ 8) % 2 ^ w := by
      simp only [BitVec.toNat_add, BitVec.toNat_shiftLeft, BitVec.toNat_setWidth,
        BitVec.toNat_ushiftRight, Nat.shiftLeft_eq, Nat.shiftRight_eq_div_pow,
        Nat.mod_eq_of_lt hbyte, Nat.mod_add_mod]
    have hmod := ((Nat.mod_modEq (acc.toNat * 2 ^ 8 + x.toNat / 2 ^ (8 * n) % 2 ^ 8)
      (2 ^ w)).mul_right (2 ^ (8 * n))).add_right (x.toNat % 2 ^ (8 * n))
    rw [hstep, hsplit]
    apply hmod.trans
    rw [Nat.mul_succ, pow_add]
    ring_nf
    rfl

/-- A number of at most `n` bytes is what its bytes give. -/
theorem ofBigEndian_bigEndian {n : Nat} {x : BitVec w} (hw : 8 ≤ w) (hx : x.toNat < 2 ^ (8 * n)) :
  ofBigEndian (BitVec.setWidth w) (bigEndian n x) = x
  := by
  apply BitVec.eq_of_toNat_eq
  rw [ofBigEndian, foldl_bigEndian n x 0 hw, Nat.mod_eq_of_lt hx]
  simp [Nat.mod_eq_of_lt x.isLt]

theorem ofBigEndian_concat (extend : Byte → BitVec w) (bytes : List Byte) (b : Byte) :
  ofBigEndian extend (bytes ++ [b]) = (ofBigEndian extend bytes <<< 8) + extend b
  := by
  rw [ofBigEndian, List.foldl_append]
  rfl

/-- Bytes which fit are the digits of their number. -/
theorem toNat_ofBigEndian_concat {bytes : List Byte} {b : Byte}
    (h : 8 * (bytes ++ [b]).length ≤ w) :
  (ofBigEndian (BitVec.setWidth w) bytes).toNat < 2 ^ (8 * bytes.length) ∧
    (ofBigEndian (BitVec.setWidth w) (bytes ++ [b])).toNat
      = (ofBigEndian (BitVec.setWidth w) bytes).toNat * 256 + b.toNat
  := by
  rw [List.length_append, List.length_singleton] at h
  have hbound : (ofBigEndian (BitVec.setWidth w) bytes).toNat < 2 ^ (8 * bytes.length) := by
    induction bytes using List.reverseRecOn with
    | nil => simp [ofBigEndian]
    | append_singleton bytes c ih =>
      rw [List.length_append, List.length_singleton] at h ⊢
      have hprefix := ih (by omega)
      have hc := c.isLt
      rw [ofBigEndian_concat, BitVec.toNat_add, BitVec.toNat_shiftLeft, Nat.shiftLeft_eq,
        BitVec.toNat_setWidth]
      have hle := Nat.mod_le ((ofBigEndian (BitVec.setWidth w) bytes).toNat * 2 ^ 8) (2 ^ w)
      have hle' := Nat.mod_le c.toNat (2 ^ w)
      have hsum := Nat.mod_le ((ofBigEndian (BitVec.setWidth w) bytes).toNat * 2 ^ 8 % 2 ^ w
        + c.toNat % 2 ^ w) (2 ^ w)
      rw [Nat.mul_add, pow_add]
      omega
  refine ⟨hbound, ?_⟩
  have hw : 2 ^ (8 * bytes.length) * 256 ≤ 2 ^ w := by
    rw [show 256 = 2 ^ 8 from rfl, ← pow_add]
    exact Nat.pow_le_pow_right (by decide) (by omega)
  have hb := b.isLt
  rw [ofBigEndian_concat, BitVec.toNat_add, BitVec.toNat_shiftLeft, Nat.shiftLeft_eq,
    BitVec.toNat_setWidth, ← Nat.add_mod, Nat.mod_eq_of_lt]
  omega

/-- The last byte of a number. -/
theorem toNat_ofBigEndian_mod {bytes : List Byte} {b : Byte} (h : 8 * bytes.length ≤ w)
    (hlast : bytes.getLast? = some b) :
  (ofBigEndian (BitVec.setWidth w) bytes).toNat % 256 = b.toNat
  := by
  obtain ⟨front, rfl⟩ := List.getLast?_eq_some_iff.mp hlast
  have hb := b.isLt
  rw [(toNat_ofBigEndian_concat h).2]
  omega

theorem ofBigEndian_eq_zero {bytes : List Byte} (h : 8 * bytes.length ≤ w) :
  ofBigEndian (BitVec.setWidth w) bytes = 0 ↔ ∀ b ∈ bytes, b = 0
  := by
  induction bytes using List.reverseRecOn with
  | nil => simp [ofBigEndian]
  | append_singleton bytes b ih =>
    have hstep := (toNat_ofBigEndian_concat h).2
    rw [List.length_append, List.length_singleton] at h
    have ih' := ih (by omega)
    rw [List.forall_mem_append, ← ih', List.forall_mem_singleton]
    constructor
    · intro hzero
      rw [hzero] at hstep
      change 0 = _ at hstep
      constructor
      · apply BitVec.eq_of_toNat_eq
        change _ = 0
        omega
      · apply BitVec.eq_of_toNat_eq
        change _ = 0
        omega
    · rintro ⟨hbytes, hb⟩
      apply BitVec.eq_of_toNat_eq
      rw [hstep, hbytes, hb]
      simp

end Byte

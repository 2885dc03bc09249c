import Plexil.Value.RoundTrip
import Plexil.Intfc.State

/-!
# Serial sizes

The sizes which are computed for the buffers of `serialize`.  They agree with what
`serialize` writes, except that `serialize` fails for strings and arrays of a length which
does not fit in 3 bytes, and for a state with a parameter that has no serial form, while
their sizes are computed all the same.
-/

namespace Plexil

/-- The number of bytes of a vector of Booleans. -/
def bitVectorSize (nbits : Nat) : Nat := nbits / 8 + if nbits % 8 = 0 then 0 else 1

def serialSizeString (o : StringValue) : Nat := o.length + 4

namespace ArrayImpl

/-- `serialSize` of an array of numbers, the element of which takes `elementSerialSize`
bytes. -/
def serialSizeNumeric {α : Type} (elementSerialSize : Nat) (ary : ArrayImpl α) : Nat :=
  4 + bitVectorSize ary.length + ary.length * elementSerialSize

def serialSizeBooleanArray (ary : ArrayImpl Boolean) : Nat := 4 + 2 * bitVectorSize ary.length

def serialSizeIntegerArray (ary : ArrayImpl Integer) : Nat := ary.serialSizeNumeric 4

def serialSizeRealArray (ary : ArrayImpl Real) : Nat := ary.serialSizeNumeric 8

def serialSizeStringArray (ary : ArrayImpl StringValue) : Nat :=
  4 + bitVectorSize ary.length + (ary.getContentsVector.map fun x => 3 + x.length).sum

end ArrayImpl

/-- The size of a value; 0 where it has no serial form. -/
def Intfc.Value.serialSize : Intfc.Value → Nat
  | unknown _ => 1
  | boolean _ => 2
  | integer _ => 5
  | real _ => 9
  | string x => serialSizeString x
  | commandHandle _ => 2
  | booleanArray x => x.serialSizeBooleanArray
  | integerArray x => x.serialSizeIntegerArray
  | realArray x => x.serialSizeRealArray
  | stringArray x => x.serialSizeStringArray
  | nodeState _ | outcome _ | failure _ => 0

def Intfc.State.serialSize (s : Intfc.State) : Nat :=
  4 + serialSizeString s.name + (s.parameters.map Intfc.Value.serialSize).sum

/-! ### Bytes written -/

/-- Writing succeeds exactly when `P` holds, and then writes `n` bytes. -/
structure Writes (write : Option (List Byte)) (P : Prop) (n : Nat) : Prop where
  isSome_iff : write.isSome ↔ P
  length : ∀ bytes, write = some bytes → bytes.length = n

theorem writes_some (bytes : List Byte) :
  Writes (some bytes) True bytes.length
  := by
  constructor
  · simp
  · rintro _ ⟨⟩
    rfl

theorem writes_none {P : Prop} (h : ¬ P) (n : Nat) :
  Writes none P n
  := by
  constructor
  · simpa using h
  · rintro _ ⟨⟩

theorem Writes.of_iff {write : Option (List Byte)} {P P' : Prop} {n n' : Nat}
    (h : Writes write P n) (hP : P ↔ P') (hn : n = n') :
  Writes write P' n'
  := by
  rw [← propext hP, ← hn]
  exact h

theorem Writes.map {write : Option (List Byte)} {P : Prop} {n m : Nat}
    {f : List Byte → List Byte} (h : Writes write P n)
    (hf : ∀ bytes, (f bytes).length = m + bytes.length) :
  Writes (write.map f) P (m + n)
  := by
  constructor
  · rw [Option.isSome_map, h.isSome_iff]
  · intro bytes hbytes
    obtain ⟨written, hwritten, rfl⟩ := Option.map_eq_some_iff.mp hbytes
    rw [hf, h.length written hwritten]

/-- Nothing is written where a limit is exceeded. -/
theorem Writes.limited {write : Option (List Byte)} {P L : Prop} [Decidable L] {n : Nat}
    (h : Writes write P n) :
  Writes (if L then none else write) (¬ L ∧ P) n
  := by
  by_cases hL : L
  · rw [if_pos hL]
    apply writes_none
    exact fun hboth => hboth.1 hL
  · rw [if_neg hL]
    constructor
    · rw [h.isSome_iff, and_iff_right hL]
    · exact h.length

/-- Two objects are written one after the other. -/
theorem Writes.append {write write' : Option (List Byte)} {P P' : Prop} {n n' : Nat}
    (h : Writes write P n) (h' : Writes write' P' n') :
  Writes (write.bind fun bytes => write'.map fun bytes' => bytes ++ bytes') (P ∧ P') (n + n')
  := by
  constructor
  · rw [← h.isSome_iff, ← h'.isSome_iff]
    cases write <;> cases write' <;> simp
  · intro bytes hbytes
    obtain ⟨first, hfirst, hbytes⟩ := Option.bind_eq_some_iff.mp hbytes
    obtain ⟨second, hsecond, rfl⟩ := Option.map_eq_some_iff.mp hbytes
    rw [List.length_append, h.length first hfirst, h'.length second hsecond]

theorem writes_elements {α : Type} {write : α → Option (List Byte)} {P : α → Prop}
    {size : α → Nat} (h : ∀ x, Writes (write x) (P x) (size x)) (xs : List α) :
  Writes (serializeElements write xs) (∀ x ∈ xs, P x) (xs.map size).sum
  := by
  induction xs with
  | nil =>
    rw [serializeElements]
    simpa using writes_some []
  | cons x xs ih =>
    rw [List.forall_mem_cons, List.map_cons, List.sum_cons]
    have hcons : serializeElements write (x :: xs) = (write x).bind fun bytes =>
        (serializeElements write xs).map fun bytes' => bytes ++ bytes' := by
      rw [serializeElements]
      cases write x <;> cases serializeElements write xs <;> rfl
    rw [hcons]
    apply (h x).append ih

/-- Elements of one size. -/
theorem writes_elements_const {α : Type} {write : α → List Byte} {n : Nat}
    (h : ∀ x, (write x).length = n) (xs : List α) :
  Writes (serializeElements (fun x => some (write x)) xs) True (xs.length * n)
  := by
  have helement : ∀ x, Writes (some (write x)) True n := by
    intro x
    rw [← h x]
    apply writes_some
  simpa using writes_elements helement xs

/-! ### Scalars and arrays -/

theorem length_sizeBytes (siz : Nat) :
  (sizeBytes siz).length = 3
  := Byte.bigEndian_length ..

theorem length_serializeBoolVector (val : List Bool) :
  (serializeBoolVector val).length = bitVectorSize val.length
  := by
  induction hn : val.length using Nat.strong_induction_on generalizing val with
  | _ n ih =>
    rw [serializeBoolVector]
    split
    · rename_i hempty
      rw [← hn, hempty]
      rfl
    · rw [List.length_cons, ih (val.drop 8).length (by rw [List.length_drop]; omega) _ rfl]
      rw [List.length_drop, hn]
      unfold bitVectorSize
      split <;> split <;> omega

theorem writes_stringElement (val : StringValue) :
  Writes (serializeStringElement val) (val.length ≤ 0xFFFFFF) (3 + val.length)
  := by
  apply (writes_some (sizeBytes val.length ++ val)).limited.of_iff
  · rw [and_true, not_lt]
  · rw [List.length_append, length_sizeBytes]

theorem writes_string (o : StringValue) :
  Writes (serializeString o) (o.length ≤ 0xFFFFFF) (serialSizeString o)
  := by
  have hcode : ∀ bytes : List Byte,
      (ValueType.string.code :: bytes).length = 1 + bytes.length := by
    intro bytes
    rw [List.length_cons, add_comm]
  apply ((writes_stringElement o).map hcode).of_iff Iff.rfl
  rw [serialSizeString]
  omega

namespace ArrayImpl

variable {α : Type}

theorem writes_array (type : ValueType) {serializeContents : List α → Option (List Byte)}
    {ary : ArrayImpl α} {P : Prop} {n : Nat}
    (h : Writes (serializeContents ary.getContentsVector) P n) :
  Writes (ary.serialize type serializeContents) (ary.length ≤ 0xFFFFFF ∧ P)
    (4 + bitVectorSize ary.length + n)
  := by
  have hbytes : ∀ bytes : List Byte,
      (type.code :: (sizeBytes ary.length
        ++ (serializeBoolVector ary.getKnownVector ++ bytes))).length
        = (4 + bitVectorSize ary.length) + bytes.length := by
    intro bytes
    rw [List.length_cons, List.length_append, List.length_append, length_sizeBytes,
      length_serializeBoolVector, getKnownVector, List.length_map]
    omega
  apply (h.map hbytes).limited.of_iff
  · rw [not_lt]
  · rfl

theorem writes_booleanArray (ary : ArrayImpl Boolean) :
  Writes ary.serializeBooleanArray (ary.length ≤ 0xFFFFFF) ary.serialSizeBooleanArray
  := by
  have hcontents : Writes
      ((fun contents => some (serializeBoolVector contents)) ary.getContentsVector) True _ :=
    writes_some (serializeBoolVector ary.getContentsVector)
  apply (writes_array .booleanArray hcontents).of_iff
  · rw [and_true]
  · rw [length_serializeBoolVector, getContentsVector, List.length_map, serialSizeBooleanArray]
    omega

theorem writes_numericArray (type : ValueType) {write : α → List Byte} {n : Nat}
    (h : ∀ x, (write x).length = n) (ary : ArrayImpl α) :
  Writes (ary.serialize type (serializeElements fun x => some (write x)))
    (ary.length ≤ 0xFFFFFF) (ary.serialSizeNumeric n)
  := by
  apply (writes_array type (writes_elements_const h _)).of_iff
  · rw [and_true]
  · rw [getContentsVector, List.length_map]
    rfl

theorem writes_stringArray (ary : ArrayImpl StringValue) :
  Writes ary.serializeStringArray
    (ary.length ≤ 0xFFFFFF ∧ ∀ x ∈ ary.getContentsVector, x.length ≤ 0xFFFFFF)
    ary.serialSizeStringArray
  := writes_array .stringArray (writes_elements writes_stringElement _)

end ArrayImpl

/-! ### Values -/

namespace Intfc.Value

/-- The value is of a type which has a serial form. -/
def HasSerialForm : Value → Prop
  | nodeState _ | outcome _ | failure _ => False
  | _ => True

/-- The lengths of the strings and arrays of the value fit in 3 bytes. -/
def WithinLimits : Value → Prop
  | string x => x.length ≤ 0xFFFFFF
  | booleanArray x => x.length ≤ 0xFFFFFF
  | integerArray x => x.length ≤ 0xFFFFFF
  | realArray x => x.length ≤ 0xFFFFFF
  | stringArray x => x.length ≤ 0xFFFFFF ∧ ∀ s ∈ x.getContentsVector, s.length ≤ 0xFFFFFF
  | _ => True

theorem writes_serialize (v : Value) :
  Writes v.serialize (v.HasSerialForm ∧ v.WithinLimits) v.serialSize
  := by
  cases v with
  | unknown => exact (writes_some _).of_iff (by simp [HasSerialForm, WithinLimits]) rfl
  | boolean => exact (writes_some _).of_iff (by simp [HasSerialForm, WithinLimits]) rfl
  | integer => exact (writes_some _).of_iff (by simp [HasSerialForm, WithinLimits]) rfl
  | real => exact (writes_some _).of_iff (by simp [HasSerialForm, WithinLimits]) rfl
  | commandHandle => exact (writes_some _).of_iff (by simp [HasSerialForm, WithinLimits]) rfl
  | string x => exact (writes_string x).of_iff (by simp [HasSerialForm, WithinLimits]) rfl
  | booleanArray x =>
    exact x.writes_booleanArray.of_iff (by simp [HasSerialForm, WithinLimits]) rfl
  | integerArray x =>
    exact (x.writes_numericArray .integerArray (Byte.bigEndian_length 4)).of_iff
      (by simp [HasSerialForm, WithinLimits]) rfl
  | realArray x =>
    exact (x.writes_numericArray .realArray (Byte.bigEndian_length 8)).of_iff
      (by simp [HasSerialForm, WithinLimits]) rfl
  | stringArray x =>
    exact x.writes_stringArray.of_iff (by simp [HasSerialForm, WithinLimits]) rfl
  | nodeState => exact writes_none (by simp [HasSerialForm]) _
  | outcome => exact writes_none (by simp [HasSerialForm]) _
  | failure => exact writes_none (by simp [HasSerialForm]) _

/-- The size is 0 exactly for a value without a serial form. -/
theorem serialSize_ne_zero_iff (v : Value) :
  v.serialSize ≠ 0 ↔ v.HasSerialForm
  := by
  cases v <;>
    simp [serialSize, HasSerialForm, serialSizeString, ArrayImpl.serialSizeBooleanArray,
      ArrayImpl.serialSizeIntegerArray, ArrayImpl.serialSizeRealArray,
      ArrayImpl.serialSizeStringArray, ArrayImpl.serialSizeNumeric]

end Intfc.Value

/-! ### States -/

theorem Intfc.State.writes_serialize (s : Intfc.State) :
  Writes s.serialize
    (s.name.length ≤ 0xFFFFFF ∧ ∀ p ∈ s.parameters, p.HasSerialForm ∧ p.WithinLimits)
    s.serialSize
  := by
  have hsize : Writes (some (sizeBytes s.parameters.length)) True 3 := by
    rw [← length_sizeBytes s.parameters.length]
    apply writes_some
  have hparameters := hsize.append
    (writes_elements Intfc.Value.writes_serialize s.parameters)
  have hcode : ∀ bytes : List Byte,
      (ValueType.state.code :: bytes).length = 1 + bytes.length := by
    intro bytes
    rw [List.length_cons, add_comm]
  have hstate : s.serialize = ((serializeString s.name).bind fun name =>
      ((some (sizeBytes s.parameters.length)).bind fun bytes =>
        (serializeElements Intfc.Value.serialize s.parameters).map fun bytes' =>
          bytes ++ bytes').map fun bytes' => name ++ bytes').map
        fun bytes => ValueType.state.code :: bytes := by
    rw [Intfc.State.serialize]
    cases serializeString s.name <;>
      cases serializeElements Intfc.Value.serialize s.parameters <;> rfl
  rw [hstate]
  apply (((writes_string s.name).append hparameters).map hcode).of_iff
  · rw [true_and]
  · rw [Intfc.State.serialSize]
    omega

/-! ### Agreement -/

/-- Writing succeeds exactly when the size is not 0, and then writes as many bytes. -/
def SizeAgrees (write : Option (List Byte)) (serialSize : Nat) : Prop :=
  (write.isSome ↔ serialSize ≠ 0) ∧ ∀ bytes, write = some bytes → bytes.length = serialSize

theorem Writes.sizeAgrees_iff {write : Option (List Byte)} {P : Prop} {n : Nat}
    (h : Writes write P n) :
  SizeAgrees write n ↔ (P ↔ n ≠ 0)
  := by
  rw [SizeAgrees, h.isSome_iff]
  exact and_iff_left h.length

/-- The size of a value agrees with what is written exactly when its strings and arrays are
within the limits; the size of a state does when moreover each parameter has a serial
form. -/
theorem serialSize_agrees_iff (v : Intfc.Value) (s : Intfc.State) :
  (SizeAgrees v.serialize v.serialSize ↔ v.WithinLimits) ∧
  (SizeAgrees s.serialize s.serialSize
    ↔ s.name.length ≤ 0xFFFFFF ∧ ∀ p ∈ s.parameters, p.HasSerialForm ∧ p.WithinLimits)
  := by
  constructor
  · rw [v.writes_serialize.sizeAgrees_iff, v.serialSize_ne_zero_iff]
    cases v <;> simp [Intfc.Value.HasSerialForm, Intfc.Value.WithinLimits]
  · have hsize : s.serialSize ≠ 0 := by
      rw [Intfc.State.serialSize]
      omega
    rw [s.writes_serialize.sizeAgrees_iff]
    exact iff_true_right hsize

/-- The size of a string of `2 ^ 24` bytes is computed, and the string is not written. -/
theorem not_serialSize_agrees :
  ¬ ∀ v : Intfc.Value, SizeAgrees v.serialize v.serialSize
  := by
  intro h
  have hsize := (Intfc.Value.serialSize_ne_zero_iff (.string (List.replicate (2 ^ 24) 0))).mpr trivial
  have hlong := (h (.string (List.replicate (2 ^ 24) 0))).1.mpr hsize
  rw [(Intfc.Value.writes_serialize _).isSome_iff] at hlong
  have hlength : (List.replicate (2 ^ 24) (0 : Byte)).length ≤ 0xFFFFFF := hlong.2
  rw [List.length_replicate] at hlength
  omega

end Plexil

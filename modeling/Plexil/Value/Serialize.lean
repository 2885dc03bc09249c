import Plexil.Value.Value

/-!
# Serialization

Writing values to a buffer and reading them back.  `serialize` gives the bytes
which are appended to the buffer, and nothing where the source returns a null pointer; a
`deserialize` is a reader of the buffer.  All that the object held before is overwritten, so
that what it held is no argument of a reader.  A `char` is signed.
-/

namespace Plexil

/-! ### Numbers of elements -/

/-- The 3 bytes of a size. -/
def sizeBytes (siz : Nat) : List Byte := Byte.bigEndian 3 (BitVec.ofNat 64 siz)

/-- Reads a size, each byte as an `unsigned char`. -/
def deserializeSize : Reader Nat :=
  (fun bytes => (Byte.ofBigEndian (BitVec.setWidth 64) bytes).toNat) <$> Reader.byte.many 3

/-- Reads the size of an array, each byte as a `char`. -/
def deserializeArraySize : Reader Nat :=
  (fun bytes => (Byte.ofBigEndian (BitVec.signExtend 64) bytes).toNat) <$> Reader.byte.many 3

/-- Checks the type code. -/
def checkType (type : ValueType) : Reader Unit := do
  let b ← Reader.byte
  if b = type.code then pure () else failure

/-! ### Scalars -/

def serializeBoolean (o : Boolean) : List Byte := [ValueType.boolean.code, if o then 1 else 0]

def deserializeBoolean : Reader Boolean := do
  checkType .boolean
  let b ← Reader.byte
  pure (b ≠ 0)

def serializeCommandHandle (o : CommandHandleValue) : List Byte :=
  [ValueType.commandHandle.code, o.code]

/-- There is no result for a byte which is no command handle. -/
def deserializeCommandHandle : Reader CommandHandleValue := do
  checkType .commandHandle
  let b ← Reader.byte
  (CommandHandleValue.ofCode b : Option CommandHandleValue)

/-- `serializeElement<Integer>`. -/
def serializeIntegerElement (val : Integer) : List Byte := Byte.bigEndian 4 val

/-- `deserializeElement<Integer>`. -/
def deserializeIntegerElement : Reader Integer :=
  Byte.ofBigEndian (BitVec.setWidth 32) <$> Reader.byte.many 4

def serializeInteger (o : Integer) : List Byte :=
  ValueType.integer.code :: serializeIntegerElement o

def deserializeInteger : Reader Integer := do
  checkType .integer
  deserializeIntegerElement

/-- `serializeElement<Real>`. -/
def serializeRealElement (val : Real) : List Byte := Byte.bigEndian 8 val

/-- `deserializeElement<Real>`. -/
def deserializeRealElement : Reader Real :=
  Byte.ofBigEndian (BitVec.setWidth 64) <$> Reader.byte.many 8

def serializeReal (o : Real) : List Byte := ValueType.real.code :: serializeRealElement o

def deserializeReal : Reader Real := do
  checkType .real
  deserializeRealElement

/-- `serializeElement<String>`. -/
def serializeStringElement (val : StringValue) : Option (List Byte) :=
  if val.length > 0xFFFFFF then none else some (sizeBytes val.length ++ val)

/-- `deserializeElement<String>`. -/
def deserializeStringElement : Reader StringValue := do
  let siz ← deserializeSize
  Reader.byte.many siz

def serializeString (o : StringValue) : Option (List Byte) :=
  (serializeStringElement o).map fun bytes => ValueType.string.code :: bytes

def deserializeString : Reader StringValue := do
  checkType .string
  deserializeStringElement

/-! ### Vectors of Booleans -/

/-- The byte of at most 8 bits, the first of which is that of the mask. -/
def packBits (mask : Byte) : List Bool → Byte
  | [] => 0
  | bit :: bits => (if bit then mask else 0) ||| packBits (mask >>> 1) bits

/-- The first `n` bits of a byte, from that of the mask on. -/
def unpackBits (tmp mask : Byte) : Nat → List Bool
  | 0 => []
  | n + 1 => (tmp &&& mask ≠ 0) :: unpackBits tmp (mask >>> 1) n

def serializeBoolVector (val : List Bool) : List Byte :=
  if val.length = 0 then []
  else packBits 0x80 (val.take 8) :: serializeBoolVector (val.drop 8)
  termination_by val.length
  decreasing_by
    rw [List.length_drop]
    omega

/-- Reads a vector of the size `siz`. -/
def deserializeBoolVector (siz : Nat) : Reader (List Bool) :=
  if siz = 0 then pure []
  else do
    let tmp ← Reader.byte
    let bits ← deserializeBoolVector (siz - 8)
    pure (unpackBits tmp 0x80 (min siz 8) ++ bits)
  termination_by siz

/-! ### Arrays -/

/-- Writes objects one after another. -/
def serializeElements {α : Type} (serializeElement : α → Option (List Byte)) :
    List α → Option (List Byte)
  | [] => some []
  | x :: xs => do
    let bytes ← serializeElement x
    let bytes' ← serializeElements serializeElement xs
    some (bytes ++ bytes')

namespace ArrayImpl

variable {α : Type}

/-- Writes an array of the type `type`, where `serializeContents` writes its contents. -/
def serialize (type : ValueType) (serializeContents : List α → Option (List Byte))
    (ary : ArrayImpl α) : Option (List Byte) :=
  if ary.length > 0xFFFFFF then none
  else (serializeContents ary.getContentsVector).map fun bytes =>
    type.code :: (sizeBytes ary.length ++ (serializeBoolVector ary.getKnownVector ++ bytes))

/-- Reads an array of the type `type`, where `deserializeContents` reads contents of a given
size.  A size of `2 ^ 63` or more is more than a vector may have. -/
def deserialize (type : ValueType) (deserializeContents : Nat → Reader (List α)) :
    Reader (ArrayImpl α) := do
  checkType type
  let siz ← deserializeArraySize
  if siz ≥ 2 ^ 63 then failure
  else
    let known ← deserializeBoolVector siz
    let contents ← deserializeContents siz
    pure (List.zipWith ArrayElement.mk known contents)

def serializeBooleanArray (ary : ArrayImpl Boolean) : Option (List Byte) :=
  ary.serialize .booleanArray fun contents => some (serializeBoolVector contents)

def deserializeBooleanArray : Reader (ArrayImpl Boolean) :=
  deserialize .booleanArray deserializeBoolVector

def serializeIntegerArray (ary : ArrayImpl Integer) : Option (List Byte) :=
  ary.serialize .integerArray (serializeElements fun x => some (serializeIntegerElement x))

def deserializeIntegerArray : Reader (ArrayImpl Integer) :=
  deserialize .integerArray deserializeIntegerElement.many

def serializeRealArray (ary : ArrayImpl Real) : Option (List Byte) :=
  ary.serialize .realArray (serializeElements fun x => some (serializeRealElement x))

def deserializeRealArray : Reader (ArrayImpl Real) :=
  deserialize .realArray deserializeRealElement.many

def serializeStringArray (ary : ArrayImpl StringValue) : Option (List Byte) :=
  ary.serialize .stringArray (serializeElements serializeStringElement)

def deserializeStringArray : Reader (ArrayImpl StringValue) :=
  deserialize .stringArray deserializeStringElement.many

end ArrayImpl

/-! ### Values -/

namespace Intfc.Value

def serialize : Value → Option (List Byte)
  | unknown _ => some [ValueType.unknown.code]
  | boolean x => some (serializeBoolean x)
  | integer x => some (serializeInteger x)
  | real x => some (serializeReal x)
  | string x => serializeString x
  | commandHandle x => some (serializeCommandHandle x)
  | booleanArray x => x.serializeBooleanArray
  | integerArray x => x.serializeIntegerArray
  | realArray x => x.serializeRealArray
  | stringArray x => x.serializeStringArray
  | nodeState _ | outcome _ | failure _ => none

/-- The reader of the values of a type; the first byte, which is the type, is not yet taken. -/
def deserializeOf : ValueType → Reader Value
  | .unknown => (fun _ => unknown .unknown) <$> Reader.byte
  | .boolean => boolean <$> deserializeBoolean
  | .integer => integer <$> deserializeInteger
  | .real => real <$> deserializeReal
  | .string => string <$> deserializeString
  | .commandHandle => commandHandle <$> deserializeCommandHandle
  | .booleanArray => booleanArray <$> ArrayImpl.deserializeBooleanArray
  | .integerArray => integerArray <$> ArrayImpl.deserializeIntegerArray
  | .realArray => realArray <$> ArrayImpl.deserializeRealArray
  | .stringArray => stringArray <$> ArrayImpl.deserializeStringArray
  | _ => Alternative.failure

def deserialize : Reader Value := do
  let b ← Reader.peek
  let type ← (ValueType.ofCode b : Option ValueType)
  deserializeOf type

end Intfc.Value

end Plexil

import BeaconSsz.Bits
import BeaconSsz.Value
import BeaconSsz.Wire.Reader

/-!
# Reading bytes

Bytes come from anywhere and are read through a shape. A byte string that is not exactly what
writing some value produces is refused as a whole, with the place where it departs from that.
-/

namespace BeaconSsz

/-- Requires a number of bytes. -/
def checkByteLength (bytes : Bytes) (expected : Nat) : Decoding Unit :=
  if bytes.length = expected then .ok ()
  else Decoding.fail (.invalidByteLength bytes.length expected)

/-- The boolean written in one byte. -/
def decodeBoolean (bytes : Bytes) : Decoding Bool := do
  checkByteLength bytes 1
  match bytes with
  | 0 :: _ => return false
  | 1 :: _ => return true
  | byte :: _ => Decoding.fail (.invalidBool byte)
  | [] => Stop.orTrap (.error (.indexOutOfBounds 0 0))

/-- The value of an integer of a width in bytes. -/
def uintOfNat (width : UInt64) (n : Nat) : Value :=
  if width ≤ 8 then .uint (UInt64.ofNat n) else .big (BitVec.ofNat 256 n)

/-- The value of an integer written in `width` bytes, of which there are at most 32. -/
def decodeUint (bytes : Bytes) (width : UInt64) : Decoding Value := do
  checkByteLength bytes width.toNat
  if 32 < bytes.length then Stop.orTrap (.error .integerTooWide)
  else return uintOfNat width (Bytes.toNatLittleEndian bytes)

/-- The bits of a bit string of exactly `length` bits; the unused bits of the last byte must be
zero. -/
def decodeBitvector (bytes : Bytes) (length : Nat) : Decoding (List Bool) := do
  let size ← Stop.orTrap (bytesForBits length)
  checkByteLength bytes size
  let used := length % 8
  if used = 0 then
    Stop.orTrap (Bits.unpack bytes length)
  else
    match bytes.getLast? with
    | some last =>
      if last.toNat >>> used = 0 then Stop.orTrap (Bits.unpack bytes length)
      else Decoding.fail (.nonZeroPadding length)
    | none => Stop.orTrap (.error (.indexOutOfBounds 0 0))

/-- The bits of a bit string of at most `limit` bits. The highest set bit of the last byte is the
delimiter, and everything below it is data. -/
def decodeBitlist (bytes : Bytes) (limit : Nat) : Decoding (List Bool) :=
  match bytes.getLast? with
  | none => Decoding.fail .missingBitlistDelimiter
  | some last =>
    if last = 0 then Decoding.fail .missingBitlistDelimiter
    else do
      let whole ← Stop.orTrap (Word.mul (bytes.length - 1) 8)
      let length ← Stop.orTrap (Word.add whole last.toNat.log2)
      if limit < length then Decoding.fail (.tooManyElements length limit)
      else Stop.orTrap (Bits.unpack bytes length)

/-- Cuts a sequence into at most `limit` elements of `length` bytes. -/
def cutElements (bytes : Bytes) (length limit : Nat) : Decoding (List Bytes) := do
  if length = 0 then Stop.orTrap (.error .zeroDivisor)
  else if bytes.length % length ≠ 0 then Decoding.fail (.partialElement bytes.length length)
  else
    let count := bytes.length / length
    if limit < count then Decoding.fail (.tooManyElements count limit)
    else return Bytes.pieces length bytes

/-- Registers fields in order; an error arises within the field's name. -/
def Field.registerAll : List Field → Reader → Decoding Reader
  | [], reader => .ok reader
  | ⟨name, shape⟩ :: fields, reader => do
    let reader ← Decoding.within (.field name) (reader.register shape)
    registerAll fields reader

mutual

/-- Reads the value that bytes encode under a shape. -/
def Shape.decode : Shape → Bytes → Decoding Value
  | .boolean, bytes => do
    let value ← decodeBoolean bytes
    return .boolean value
  | .uint width, bytes => decodeUint bytes width
  | .byteVector length, bytes => do
    checkByteLength bytes length.toNat
    return .bytes bytes
  | .byteList limit, bytes =>
    if limit.toNat < bytes.length then
      Decoding.fail (.tooManyElements bytes.length limit.toNat)
    else .ok (.bytes bytes)
  | .bitvector length, bytes => do
    let content ← decodeBitvector bytes length.toNat
    return .bits content
  | .bitlist limit, bytes => do
    let content ← decodeBitlist bytes limit.toNat
    return .bits content
  | .vector element length, bytes =>
    if element.isFixed then do
      let each ← Stop.orTrap element.slotLength
      checkByteLength bytes (Word.saturatingMul each length.toNat)
      let items ← cutElements bytes each length.toNat
      let elements ← Decoding.mapElements element.decode items
      return .sequence elements
    else do
      let items ← splitItems bytes length.toNat
      if items.length = length.toNat then
        let elements ← Decoding.mapElements element.decode items
        return .sequence elements
      else Decoding.fail (.elementCountMismatch items.length length.toNat)
  | .list element limit, bytes => do
    let items ←
      if element.isFixed then do
        let each ← Stop.orTrap element.slotLength
        cutElements bytes each limit.toNat
      else splitItems bytes limit.toNat
    let elements ← Decoding.mapElements element.decode items
    return .sequence elements
  | .container schema, bytes => schema.decodeFields bytes

/-- Reads the value that bytes encode under a schema; an error does not name the schema. -/
def Schema.decodeFields : Schema → Bytes → Decoding Value
  | ⟨_, fields, fixedPart, isFixed, _⟩, bytes => do
    if isFixed then checkByteLength bytes fixedPart
    let reader ← Reader.start bytes fixedPart
    let reader ← Field.registerAll fields reader
    let values ← Field.decodeAll fields reader
    return .container values

/-- Takes the bytes of fields in order and reads them; an error arises within the field's name. -/
def Field.decodeAll : List Field → Reader → Decoding (List Value)
  | [], _ => .ok []
  | ⟨name, shape⟩ :: fields, reader => do
    let (value, reader) ← Decoding.within (.field name) do
      let (bytes, reader) ← reader.next shape
      let value ← shape.decode bytes
      return (value, reader)
    let values ← Field.decodeAll fields reader
    return value :: values

end

/-- A container is read field by field. -/
theorem Shape.decode_container (schema : Schema) (bytes : Bytes) :
    (container schema).decode bytes = schema.decodeFields bytes := by
  rw [decode]

/-- Reads the value that bytes encode under a schema. -/
def Schema.deserialize (schema : Schema) (bytes : Bytes) : Decoding Value :=
  Decoding.within (.field schema.name) (schema.decodeFields bytes)

end BeaconSsz

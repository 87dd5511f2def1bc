import BeaconSsz.Bits
import BeaconSsz.Value
import BeaconSsz.Wire.Offset

/-!
# Writing values

A value is written through its shape: integers with the least significant byte first, bits
packed, elements of fixed size one after the other, and everything of variable size behind
offsets. Whether a value fits its shape can be checked without writing it.
-/

namespace BeaconSsz

/-- Requires a number of elements. -/
def checkExactLength (count expected : Nat) : Encoding Unit :=
  if count = expected then .ok () else Encoding.fail (.lengthMismatch count expected)

/-- Requires at most a number of elements. -/
def checkLimit (count limit : Nat) : Encoding Unit :=
  if count ≤ limit then .ok () else Encoding.fail (.tooManyElements count limit)

/-- Requires a number of at most so many bytes. No integer of a value has more than 32. -/
def checkUint (value width : Nat) : Encoding Unit :=
  if 32 ≤ width ∨ value < Nat.pow 256 width then .ok ()
  else Encoding.fail (.uintOutOfRange value width)

/-- Refuses a value of another kind than its shape. -/
def mismatch {α : Type} (shape : Shape) (value : Value) : Encoding α :=
  Encoding.fail (.typeMismatch shape.text value.kind)

/-- The fields of a container, of which there must be as many as in the schema. -/
def containerFields (name : String) (expected : Nat) : Value → Encoding (List Value)
  | .container fields =>
    if fields.length = expected then .ok fields
    else Encoding.fail (.fieldCountMismatch name fields.length expected)
  | value => Encoding.fail (.typeMismatch name value.kind)

mutual

/-- Requires that a value fits its shape. -/
def Shape.validate : Shape → Value → Encoding Unit
  | .boolean, .boolean _ => .ok ()
  | .uint width, .uint value =>
    if width ≤ 8 then checkUint value.toNat width.toNat else mismatch (.uint width) (.uint value)
  | .uint width, .big value =>
    if 8 < width then checkUint value.toNat width.toNat else mismatch (.uint width) (.big value)
  | .byteVector length, .bytes content => checkExactLength content.length length.toNat
  | .byteList limit, .bytes content => checkLimit content.length limit.toNat
  | .bitvector length, .bits content => checkExactLength content.length length.toNat
  | .bitlist limit, .bits content => checkLimit content.length limit.toNat
  | .vector element length, .sequence elements => do
    checkExactLength elements.length length.toNat
    Encoding.forElements element.validate elements
  | .list element limit, .sequence elements => do
    checkLimit elements.length limit.toNat
    Encoding.forElements element.validate elements
  | .container schema, value => schema.validateFields value
  | shape, value => mismatch shape value

/-- Requires that a value fits a schema; an error does not name the schema. -/
def Schema.validateFields : Schema → Value → Encoding Unit
  | ⟨name, fields, _, _, _⟩, value => do
    let values ← containerFields name fields.length value
    Field.validateAll fields values

/-- Requires that values fit fields, in order. -/
def Field.validateAll : List Field → List Value → Encoding Unit
  | ⟨name, shape⟩ :: fields, value :: values => do
    Encoding.within (.field name) (shape.validate value)
    Field.validateAll fields values
  | _, _ => .ok ()

end

/-- Requires that a value fits a schema. -/
def Schema.validate (schema : Schema) (value : Value) : Encoding Unit :=
  Encoding.within (.field schema.name) (schema.validateFields value)

/-- Joins the encodings of elements of one shape. -/
def joinElements (isFixed : Bool) (encoded : List Bytes) : Encoding Bytes :=
  if isFixed then .ok encoded.flatten
  else joinItems (encoded.map fun _ => none) encoded

/-- The part that an encoding takes in the fixed part of its container. -/
def fixedPartOf (encoding : Bool × Bytes) : Option Bytes :=
  if encoding.1 then some encoding.2 else none

/-- The bytes of an encoding that lie behind the fixed part of its container. -/
def bodyOf? (encoding : Bool × Bytes) : Option Bytes :=
  if encoding.1 then none else some encoding.2

mutual

/-- Writes a value through its shape. -/
def Shape.encode : Shape → Value → Encoding Bytes
  | .boolean, .boolean value => .ok [if value then 1 else 0]
  | .uint width, .uint value =>
    if width ≤ 8 then do
      checkUint value.toNat width.toNat
      return Bytes.littleEndian width.toNat value.toNat
    else mismatch (.uint width) (.uint value)
  | .uint width, .big value =>
    if 8 < width then do
      checkUint value.toNat width.toNat
      return Bytes.littleEndian width.toNat value.toNat
    else mismatch (.uint width) (.big value)
  | .byteVector length, .bytes content => do
    checkExactLength content.length length.toNat
    return content
  | .byteList limit, .bytes content => do
    checkLimit content.length limit.toNat
    return content
  | .bitvector length, .bits content => do
    checkExactLength content.length length.toNat
    return Bits.pack content
  | .bitlist limit, .bits content => do
    checkLimit content.length limit.toNat
    return Bits.packDelimited content
  | .vector element length, .sequence elements => do
    checkExactLength elements.length length.toNat
    let encoded ← Encoding.mapElements element.encode elements
    joinElements element.isFixed encoded
  | .list element limit, .sequence elements => do
    checkLimit elements.length limit.toNat
    let encoded ← Encoding.mapElements element.encode elements
    joinElements element.isFixed encoded
  | .container schema, value => schema.encodeFields value
  | shape, value => mismatch shape value

/-- Writes a value through a schema; an error does not name the schema. -/
def Schema.encodeFields : Schema → Value → Encoding Bytes
  | ⟨name, fields, _, _, _⟩, value => do
    let values ← containerFields name fields.length value
    let encoded ← Field.encodeAll fields values
    joinItems (encoded.map fixedPartOf) (encoded.filterMap bodyOf?)

/-- Writes values through fields, in order, and tells of each one whether it is of fixed size. -/
def Field.encodeAll : List Field → List Value → Encoding (List (Bool × Bytes))
  | ⟨name, shape⟩ :: fields, value :: values => do
    let encoded ← Encoding.within (.field name) (shape.encode value)
    let rest ← Field.encodeAll fields values
    return (shape.isFixed, encoded) :: rest
  | _, _ => .ok []

end

/-- A container is written field by field. -/
theorem Shape.encode_container (schema : Schema) (value : Value) :
    (container schema).encode value = schema.encodeFields value := by
  rw [encode]

/-- Writes a value through a schema. -/
def Schema.serialize (schema : Schema) (value : Value) : Encoding Bytes :=
  Encoding.within (.field schema.name) (schema.encodeFields value)

end BeaconSsz

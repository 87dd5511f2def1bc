import BeaconSsz.Trap

/-!
# Shapes and schemas

A shape says which values a place may hold and how they are laid out. A schema is the shape of a
container: named fields in order. Lengths and widths are words.

A shape of fixed size always takes the same number of bytes. A shape of variable size is
represented in the fixed part of its parent by an offset of four bytes.
-/

namespace BeaconSsz

mutual

/-- Which values a place may hold. -/
inductive Shape where
  | boolean
  /-- An unsigned integer of a width in bytes. -/
  | uint (width : UInt64)
  /-- Exactly so many bytes. -/
  | byteVector (length : UInt64)
  /-- At most so many bytes. -/
  | byteList (limit : UInt64)
  /-- Exactly so many bits. -/
  | bitvector (length : UInt64)
  /-- At most so many bits. -/
  | bitlist (limit : UInt64)
  /-- Exactly so many elements of one shape. -/
  | vector (element : Shape) (length : UInt64)
  /-- At most so many elements of one shape. -/
  | list (element : Shape) (limit : UInt64)
  /-- The fields of a schema. -/
  | container (schema : Schema)

/-- A container with its fields in order, the number of bytes in its fixed part, and whether that
is all of it. The edition tells apart schemas of one name that were drawn up at different times: a
name is drawn up once at most at a fork, so two schemas of one name and edition are one schema. -/
structure Schema where
  name : String
  fields : List Field
  fixedPart : Nat
  isFixed : Bool
  edition : Nat

/-- A named part of a container. -/
structure Field where
  name : String
  shape : Shape

end

/-- The bytes of an offset. -/
def offsetLength : Nat := 4

/-- How many bytes hold a number of bits. -/
def bytesForBits (bits : Nat) : Except Trap Nat := do
  let padded ← Word.add bits 7
  return padded / 8

namespace Shape

/-- Whether every value of the shape takes the same number of bytes. -/
def isFixed : Shape → Bool
  | boolean | uint _ | byteVector _ | bitvector _ => true
  | byteList _ | bitlist _ | list _ _ => false
  | vector element _ => element.isFixed
  | container schema => schema.isFixed

/-- Basic values share chunks when they are the elements of a sequence. -/
def isBasic : Shape → Bool
  | boolean | uint _ => true
  | _ => false

/-- The bytes that the shape takes in the fixed part of its parent. -/
def slotLength : Shape → Except Trap Nat
  | boolean => .ok 1
  | uint width => .ok width.toNat
  | byteVector length => .ok length.toNat
  | bitvector length => bytesForBits length.toNat
  | vector element length =>
    if element.isFixed then do
      let each ← element.slotLength
      return Word.saturatingMul each length.toNat
    else .ok offsetLength
  | container schema => .ok (if schema.isFixed then schema.fixedPart else offsetLength)
  | byteList _ | bitlist _ | list _ _ => .ok offsetLength

/-- The text of a shape. -/
def text : Shape → String
  | boolean => "boolean"
  | uint width => "uint" ++ toString (width.toNat * 8)
  | byteVector length => s!"ByteVector[{length}]"
  | byteList limit => s!"ByteList[{limit}]"
  | bitvector length => s!"Bitvector[{length}]"
  | bitlist limit => s!"Bitlist[{limit}]"
  | vector element length => "Vector[" ++ element.text ++ s!", {length}]"
  | list element limit => "List[" ++ element.text ++ s!", {limit}]"
  | container schema => schema.name

/-- Whether the width in bits of every integer named in the text of the shape is a word. -/
def hasWordWidths : Shape → Bool
  | uint width => width.toNat * 8 < wordLimit
  | vector element _ | list element _ => element.hasWordWidths
  | _ => true

/-- The text of a shape, for which the width of an integer is taken in bits. -/
def render (shape : Shape) : Except Trap String :=
  if shape.hasWordWidths then .ok shape.text else .error .multiplyOverflow

end Shape

namespace Schema

/-- The field of a name. -/
def field? (schema : Schema) (name : String) : Option Field :=
  schema.fields.find? (·.name == name)

/-- The position of the field of a name. -/
def fieldIndex? (schema : Schema) (name : String) : Option Nat :=
  schema.fields.findIdx? (·.name == name)

end Schema

/-- Whether two schemas are one schema, and not only alike. The name and the edition decide it
within a registry, by `nodup_names_of_buildRecords`. -/
def Schema.isSame (schema other : Schema) : Bool :=
  schema.name == other.name && schema.edition == other.edition

end BeaconSsz

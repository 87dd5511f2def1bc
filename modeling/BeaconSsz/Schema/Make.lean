import BeaconSsz.Schema.Error
import BeaconSsz.Schema.Shape

/-!
# Drawing up schemas

A schema is drawn up from a name and fields. It has at least one field, no two fields of one
name, only integers of the usual widths and vectors of at least one element, and everything that
is later computed from its bounds is a word: the size of every fixed part, and the number of
bytes or bits that a list may hold, rounded up to whole chunks.
-/

namespace BeaconSsz

/-- The widths of integers, in bytes. -/
def uintWidths : List UInt64 := [1, 2, 4, 8, 16, 32]

/-- The bytes of a chunk. -/
def bytesPerChunk : Nat := 32

/-- The bits of a chunk. -/
def bitsPerChunk : Nat := 256

namespace Shape

/-- The bytes that the shape takes in the fixed part of its parent, unless they are too many. -/
def exactSlotLength? : Shape → Except Trap (Option Nat)
  | vector element length => do
    let each ← element.exactSlotLength?
    return each.bind fun each =>
      if element.isFixed then Word.mul? each length.toNat else some offsetLength
  | list element _ => do
    let each ← element.exactSlotLength?
    return each.map fun _ => offsetLength
  | shape => do
    let length ← shape.slotLength
    return some length

/-- The length of the longest content, with room to round up to whole chunks, unless it is too
long. -/
def roundableLimit? : Shape → Except Trap (Option Nat)
  | byteList limit => .ok (Word.add? limit.toNat (bytesPerChunk - 1))
  | bitlist limit => .ok (Word.add? limit.toNat (bitsPerChunk - 1))
  | list element limit =>
    if element.isBasic then do
      let each ← element.slotLength
      return (Word.mul? limit.toNat each).bind (Word.add? · (bytesPerChunk - 1))
    else .ok (some 0)
  | _ => .ok (some 0)

/-- Refuses a shape with a length of zero, whose text must be shown. -/
def refuseZero (container field : String) (shape : Shape) : Except (Stop SchemaError) Unit := do
  let text ← Stop.orTrap shape.render
  Stop.refuse (.zeroLength container field text)

/-- Refuses a shape if its sizes are not words. -/
def checkSizes (container field : String) (shape : Shape) : Except (Stop SchemaError) Unit := do
  let slot ← Stop.orTrap shape.exactSlotLength?
  let fits ← if slot.isNone then pure false else do
    let limit ← Stop.orTrap shape.roundableLimit?
    pure limit.isSome
  if fits then
    pure ()
  else do
    let text ← Stop.orTrap shape.render
    Stop.refuse (.boundNotRepresentable container field text)

/-- Refuses a shape that cannot stand in a field. Schemas inside it have been checked before. -/
def check (container field : String) : Shape → Except (Stop SchemaError) Unit
  | uint width =>
    if width ∈ uintWidths then checkSizes container field (uint width)
    else Stop.refuse (.invalidUintWidth container field width)
  | byteVector length =>
    if length = 0 then refuseZero container field (byteVector length)
    else checkSizes container field (byteVector length)
  | bitvector length =>
    if length = 0 then refuseZero container field (bitvector length)
    else checkSizes container field (bitvector length)
  | vector element length =>
    if length = 0 then refuseZero container field (vector element length)
    else do
      element.check container field
      checkSizes container field (vector element length)
  | list element limit => do
    element.check container field
    checkSizes container field (list element limit)
  | shape => checkSizes container field shape

end Shape

namespace Schema

/-- Refuses a repeated name or a faulty shape, whichever comes first in the order of the fields. -/
def checkFields (container : String) :
    List String → List Field → Except (Stop SchemaError) Unit
  | _, [] => .ok ()
  | seen, field :: rest =>
    if field.name ∈ seen then Stop.refuse (.duplicateField container field.name)
    else do
      field.shape.check container field.name
      checkFields container (field.name :: seen) rest

/-- The sum of the slots of the fields behind the bytes already counted, unless it is too large. -/
def sumSlots? : Nat → List Field → Except Trap (Option Nat)
  | sum, [] => .ok (some sum)
  | sum, field :: rest => do
    let length ← field.shape.slotLength
    match Word.add? sum length with
    | some sum => sumSlots? sum rest
    | none => return none

/-- The last field, which is blamed when the fields together are too large. -/
def lastName (fields : List Field) : String :=
  (fields.getLast?.map Field.name).getD ""

/-- Draws up the schema of a container. -/
def make (edition : Nat) (name : String) (fields : List Field) :
    Except (Stop SchemaError) Schema := do
  if fields.isEmpty then
    Stop.refuse (.emptyContainer name)
  else
    checkFields name [] fields
    match ← Stop.orTrap (sumSlots? 0 fields) with
    | some fixedPart =>
      return {
        name, fields, fixedPart, edition
        isFixed := fields.all (·.shape.isFixed) }
    | none => Stop.refuse (.boundNotRepresentable name (lastName fields) name)

end Schema

end BeaconSsz

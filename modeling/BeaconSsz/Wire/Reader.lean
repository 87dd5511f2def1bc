import BeaconSsz.Wire.Offset

/-!
# Reading the fixed part of a container

The parts of a container are read in two passes. First every part is registered in order, which
reads and checks the offsets of the parts of variable size. Then the bytes of every part are
taken in the same order: those of a part of fixed size from the fixed part, and those of a part
of variable size from its offset up to the next one.
-/

namespace BeaconSsz

/-- The state of reading a container. -/
structure Reader where
  store : Array UInt8
  fixedPart : Nat
  /-- Where the next part to be registered lies in the fixed part. -/
  registered : Nat
  /-- Where the next part to be taken lies in the fixed part. -/
  taken : Nat
  /-- The offsets of the registered parts of variable size. -/
  offsets : Array Nat
  /-- How many parts of variable size have been taken. -/
  takenOffsets : Nat

namespace Reader

/-- Starts to read a container, whose fixed part must be there. -/
def start (bytes : Bytes) (fixedPart : Nat) : Decoding Reader :=
  let store := bytes.toArray
  if store.size < fixedPart then Decoding.fail (.invalidByteLength store.size fixedPart)
  else .ok ⟨store, fixedPart, 0, 0, #[], 0⟩

/-- Reads the next offset, which must point behind the fixed part if it is the first one. -/
def registerOffset (reader : Reader) : Decoding Reader := do
  let offset ← readOffset reader.store reader.registered
  match reader.offsets.back? with
  | none =>
    if offset = reader.fixedPart then return { reader with offsets := reader.offsets.push offset }
    else Decoding.fail (.firstOffsetMismatch offset reader.fixedPart)
  | some previous =>
    let offset ← checkOffset offset previous reader.store.size
    return { reader with offsets := reader.offsets.push offset }

/-- Registers the next part. -/
def register (reader : Reader) (shape : Shape) : Decoding Reader := do
  let reader ← if shape.isFixed then pure reader else reader.registerOffset
  let length ← Stop.orTrap shape.slotLength
  let registered ← Stop.orTrap (Word.add reader.registered length)
  return { reader with registered }

/-- Where the next part lies, from its first byte up to the one behind its last. -/
def span (reader : Reader) (shape : Shape) : Decoding (Nat × Nat) :=
  if shape.isFixed then do
    let length ← Stop.orTrap shape.slotLength
    let stop ← Stop.orTrap (Word.add reader.taken length)
    return (reader.taken, stop)
  else
    match reader.offsets[reader.takenOffsets]? with
    | some offset =>
      .ok (offset, (reader.offsets[reader.takenOffsets + 1]?).getD reader.store.size)
    | none => Decoding.fail (.invalidByteLength reader.store.size reader.fixedPart)

/-- Takes the bytes of the next part. -/
def next (reader : Reader) (shape : Shape) : Decoding (Bytes × Reader) := do
  let (start, stop) ← reader.span shape
  match slice? reader.store start stop with
  | some bytes =>
    let length ← Stop.orTrap shape.slotLength
    let taken ← Stop.orTrap (Word.add reader.taken length)
    let takenOffsets := if shape.isFixed then reader.takenOffsets else reader.takenOffsets + 1
    return (bytes, { reader with taken, takenOffsets })
  | none => Decoding.fail (.invalidByteLength reader.store.size stop)

end Reader

end BeaconSsz

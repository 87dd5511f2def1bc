import BeaconSsz.Schema.Shape
import BeaconSsz.Wire.Error

/-!
# Offsets

Items of variable size are written behind everything of fixed size. In the place of each such
item stands its offset: four bytes that say how many bytes lie in front of it. The items follow
in order, so that each one ends where the next one starts and the last one ends with the bytes.
-/

namespace BeaconSsz

/-- Offsets are below this number. -/
def offsetLimit : Nat := 0x100000000

/-- The four bytes of an offset. -/
def encodeOffset (offset : Nat) : Encoding Bytes :=
  if offset < offsetLimit then .ok (Bytes.littleEndian offsetLength offset)
  else Encoding.fail (.offsetOverflow offset)

/-- The bytes that a part takes in front of the items of variable size. -/
def slotSize : Option Bytes → Nat
  | some part => part.length
  | none => offsetLength

/-- The bytes that parts take in front of the items of variable size. -/
def headSize : List (Option Bytes) → Nat
  | [] => 0
  | part :: rest => slotSize part + headSize rest

/-- Writes the parts in order behind those already written, with the offset of the next body in
the place of each part that is not given. -/
def writeHead (offset : Nat) (bodies : List Bytes) (written : List Bytes) :
    List (Option Bytes) → Encoding (List Bytes)
  | [] => .ok written.reverse
  | some part :: rest => writeHead offset bodies (part :: written) rest
  | none :: rest => do
    let slot ← encodeOffset offset
    writeHead (offset + (bodies.headD []).length) bodies.tail (slot :: written) rest

/-- Joins items into one byte string: the parts in order, with an offset in the place of each
part that is not given, and then the bodies in order. -/
def joinItems (parts : List (Option Bytes)) (bodies : List Bytes) : Encoding Bytes := do
  let head ← writeHead (headSize parts) bodies [] parts
  return head.flatten ++ bodies.flatten

/-- The offset written in four bytes. -/
def decodeOffset (bytes : Bytes) : Decoding Nat :=
  if bytes.length = offsetLength then .ok (Bytes.toNatLittleEndian bytes)
  else Decoding.fail (.invalidByteLength bytes.length offsetLength)

/-- The bytes from one position up to another, if there are any such positions. -/
def slice? (store : Array UInt8) (start stop : Nat) : Option Bytes :=
  if start ≤ stop ∧ stop ≤ store.size then some (store.extract start stop).toList else none

/-- The bytes from one position up to another, which must be positions in that order. -/
def slice (store : Array UInt8) (start stop : Nat) : Except Trap Bytes :=
  if stop < start then .error (.sliceReversed start stop)
  else if store.size < stop then .error (.sliceOutOfRange stop store.size)
  else .ok (store.extract start stop).toList

/-- The offset at a position. -/
def readOffset (store : Array UInt8) (position : Nat) : Decoding Nat := do
  let stop ← Stop.orTrap (Word.add position offsetLength)
  match slice? store position stop with
  | some bytes => decodeOffset bytes
  | none => Decoding.fail (.invalidByteLength store.size stop)

/-- Refuses an offset that lies in front of the one before it or behind the end of the bytes. -/
def checkOffset (offset previous length : Nat) : Decoding Nat :=
  if offset < previous then Decoding.fail (.offsetsDecreasing previous offset)
  else if length < offset then Decoding.fail (.offsetOutOfBounds offset length)
  else .ok offset

/-- Cuts the last `count` items, the first of which starts at `previous` and is followed in the
table by the offset at `position`, behind the items already cut. -/
def splitFrom (store : Array UInt8) :
    (count position previous : Nat) → (items : List Bytes) → Decoding (List Bytes)
  | 0, _, _, items => .ok items.reverse
  | count + 1, position, previous, items => do
    let next ←
      if count = 0 then pure store.size
      else Decoding.within (.index position) do
        let start ← Stop.orTrap (Word.mul position offsetLength)
        let offset ← readOffset store start
        checkOffset offset previous store.size
    let item ← Stop.orTrap (slice store previous next)
    splitFrom store count (position + 1) next (item :: items)

/-- Splits a sequence of at most `limit` items of variable size, which starts with the table of
their offsets. No bytes are no items. -/
def splitItems (bytes : Bytes) (limit : Nat) : Decoding (List Bytes) := do
  if bytes.isEmpty then
    return []
  else
    let store := bytes.toArray
    let first ← readOffset store 0
    if first = 0 ∨ first % offsetLength ≠ 0 then Decoding.fail (.invalidOffsetTable first)
    else if store.size < first then Decoding.fail (.offsetOutOfBounds first store.size)
    else
      let count := first / offsetLength
      if limit < count then Decoding.fail (.tooManyElements count limit)
      else splitFrom store count 1 first []

end BeaconSsz

import BeaconSsz.Hash.Tree
import BeaconSsz.Schema.Make
import BeaconSsz.Wire.Encode

/-!
# Roots of values

The root of a value is the root of a tree: basic values and strings are packed into chunks, the
elements of other sequences and the fields of containers are one leaf each, and whatever may vary
in length is hashed with its length at last. The limit of a tree comes from the shape alone.

`Shape.root` expects a value that fits its shape and traps on any other. `Schema.hashTreeRoot`
checks the value first.
-/

namespace BeaconSsz

/-- The bytes of a basic value, which must fit its shape. -/
def basicBytes (shape : Shape) (value : Value) : Except Trap Bytes :=
  match shape.encode value with
  | .ok bytes => .ok bytes
  | .error error => .error (.notHashable shape.text (EncodeError.message error))

/-- The root of bytes in a tree for `length` units at `perChunk` units a chunk. -/
def packedRoot (H : TreeHash) (bytes : Bytes) (length perChunk : Nat) : Except Trap Chunk := do
  let limit ← chunkCount length perChunk
  merkleize H (Chunk.pack bytes) limit

/-- The root of the elements of a sequence of basic values, in a tree for `capacity` of them. -/
def basicSequenceRoot (H : TreeHash) (element : Shape) (elements : List Value) (capacity : Nat) :
    Except Trap Chunk := do
  let encoded ← elements.mapM (basicBytes element)
  let each ← element.slotLength
  let length ← Word.mul capacity each
  packedRoot H encoded.flatten length bytesPerChunk

mutual

/-- The root of a value, which must fit its shape. -/
def Shape.root (H : TreeHash) : Shape → Value → Except Trap Chunk
  | .boolean, value => do
    let bytes ← basicBytes .boolean value
    merkleize H (Chunk.pack bytes) 1
  | .uint width, value => do
    let bytes ← basicBytes (.uint width) value
    merkleize H (Chunk.pack bytes) 1
  | .byteVector length, .bytes content => packedRoot H content length.toNat bytesPerChunk
  | .byteList limit, .bytes content => do
    let root ← packedRoot H content limit.toNat bytesPerChunk
    return mixInLength H root content.length
  | .bitvector length, .bits content =>
    packedRoot H (Bits.pack content) length.toNat bitsPerChunk
  | .bitlist limit, .bits content => do
    let root ← packedRoot H (Bits.pack content) limit.toNat bitsPerChunk
    return mixInLength H root content.length
  | .vector element length, .sequence elements =>
    if element.isBasic then basicSequenceRoot H element elements length.toNat
    else do
      let roots ← elements.mapM (element.root H)
      merkleize H roots length.toNat
  | .list element limit, .sequence elements => do
    let root ←
      if element.isBasic then basicSequenceRoot H element elements limit.toNat
      else do
        let roots ← elements.mapM (element.root H)
        merkleize H roots limit.toNat
    return mixInLength H root elements.length
  | .container schema, value => schema.root H value
  | shape, value => .error (.valueMismatch shape.text value.kind)

/-- The root of a container, which must fit its schema. -/
def Schema.root (H : TreeHash) : Schema → Value → Except Trap Chunk
  | ⟨name, fields, _, _, _⟩, value =>
    match value with
    | .container values =>
      if values.length = fields.length then do
        let roots ← Field.rootAll H fields values
        merkleize H roots roots.length
      else .error (.valueMismatch name value.kind)
    | value => .error (.valueMismatch name value.kind)

/-- The roots of values that must fit fields, in order. -/
def Field.rootAll (H : TreeHash) : List Field → List Value → Except Trap (List Chunk)
  | ⟨_, shape⟩ :: fields, value :: values => do
    let root ← shape.root H value
    let rest ← Field.rootAll H fields values
    return root :: rest
  | _, _ => .ok []

end

/-- The root of a container is that of its fields. -/
theorem Shape.root_container (H : TreeHash) (schema : Schema) (value : Value) :
    (container schema).root H value = schema.root H value := by
  rw [root]

/-- The root of a value, if it fits the schema. -/
def Schema.hashTreeRoot (H : TreeHash) (schema : Schema) (value : Value) :
    Except (Stop EncodeError) Chunk := do
  Stop.orRefuse (schema.validate value)
  Stop.orTrap (schema.root H value)

end BeaconSsz

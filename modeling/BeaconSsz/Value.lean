import BeaconSsz.Bytes
import BeaconSsz.Path
import BeaconSsz.Schema.Shape

/-!
# Values

Values carry no types of their own and are read through a shape. Integers of up to eight bytes
and wider ones are of different kinds, and so are sequences and containers.
-/

namespace BeaconSsz

/-- A value, to be read through a shape. -/
inductive Value where
  | boolean (value : Bool)
  /-- An integer of a shape of up to eight bytes. -/
  | uint (value : UInt64)
  /-- An integer of a shape of more than eight bytes. -/
  | big (value : BitVec 256)
  | bytes (content : Bytes)
  | bits (content : List Bool)
  | sequence (elements : List Value)
  | container (fields : List Value)

mutual

/-- Whether two values are equal. -/
def Value.beq : Value → Value → Bool
  | .boolean value, .boolean value' => value == value'
  | .uint value, .uint value' => value == value'
  | .big value, .big value' => value == value'
  | .bytes content, .bytes content' => content == content'
  | .bits content, .bits content' => content == content'
  | .sequence elements, .sequence elements' => Value.beqAll elements elements'
  | .container fields, .container fields' => Value.beqAll fields fields'
  | _, _ => false

/-- Whether two lists of values are equal. -/
def Value.beqAll : List Value → List Value → Bool
  | [], [] => true
  | value :: rest, value' :: rest' => if value.beq value' then Value.beqAll rest rest' else false
  | _, _ => false

end

namespace Value

instance : BEq Value := ⟨beq⟩

mutual

theorem eq_of_beq : ∀ {value other : Value}, value.beq other = true → value = other
  | .sequence _, .sequence _, h => congrArg sequence (eq_of_beqAll (by simpa [beq] using h))
  | .container _, .container _, h => congrArg container (eq_of_beqAll (by simpa [beq] using h))
  | .boolean _, other, h => by cases other <;> simp_all [beq]
  | .uint _, other, h => by cases other <;> simp_all [beq]
  | .big _, other, h => by cases other <;> simp_all [beq]
  | .bytes _, other, h => by cases other <;> simp_all [beq]
  | .bits _, other, h => by cases other <;> simp_all [beq]
  | .sequence _, .boolean _, h | .sequence _, .uint _, h | .sequence _, .big _, h
  | .sequence _, .bytes _, h | .sequence _, .bits _, h | .sequence _, .container _, h
  | .container _, .boolean _, h | .container _, .uint _, h | .container _, .big _, h
  | .container _, .bytes _, h | .container _, .bits _, h | .container _, .sequence _, h => by
    simp [beq] at h

theorem eq_of_beqAll : ∀ {values others : List Value},
    beqAll values others = true → values = others
  | [], [], _ => rfl
  | value :: rest, other :: rest', h => by
    have h : value.beq other = true ∧ beqAll rest rest' = true := by simpa [beqAll] using h
    rw [eq_of_beq h.1, eq_of_beqAll h.2]
  | [], _ :: _, h | _ :: _, [], h => by simp [beqAll] at h

end

mutual

theorem beq_refl : ∀ value : Value, value.beq value = true
  | .sequence elements => by simp [beq, beqAll_refl elements]
  | .container fields => by simp [beq, beqAll_refl fields]
  | .boolean _ | .uint _ | .big _ | .bytes _ | .bits _ => by simp [beq]

theorem beqAll_refl : ∀ values : List Value, beqAll values values = true
  | [] => rfl
  | value :: rest => by simp [beqAll, beq_refl value, beqAll_refl rest]

end

instance : LawfulBEq Value where
  eq_of_beq := eq_of_beq
  rfl := beq_refl _

instance : DecidableEq Value := instDecidableEqOfLawfulBEq

/-- The word for the kind of a value. -/
def kind : Value → String
  | boolean _ => "boolean"
  | uint _ => "integer"
  | big _ => "big integer"
  | bytes _ => "bytes"
  | bits _ => "bits"
  | sequence _ => "sequence"
  | container _ => "container"

/-- The boolean that the value is. -/
def boolean? : Value → Option Bool
  | boolean value => some value
  | _ => none

/-- The integer of up to eight bytes that the value is. -/
def uint? : Value → Option UInt64
  | uint value => some value
  | _ => none

/-- The byte string that the value is. -/
def bytes? : Value → Option Bytes
  | bytes content => some content
  | _ => none

/-- The bit string that the value is. -/
def bits? : Value → Option (List Bool)
  | bits content => some content
  | _ => none

/-- The elements of the sequence that the value is. -/
def elements? : Value → Option (List Value)
  | sequence elements => some elements
  | _ => none

/-- The value of the field of a name, if the value is a container. -/
def field? (schema : Schema) (name : String) : Value → Option Value
  | container fields => do
    let index ← schema.fieldIndex? name
    fields[index]?
  | _ => none

end Value

/-- The bytes that an element of a sequence takes: a word for its kind, and the widest content that
is not kept apart, an integer of 32 bytes. -/
def Value.footprint : Nat := 8 + 32

mutual

/-- The all-zero value of a shape: no elements where there may be none, and zeros elsewhere. What
has a given length takes one piece of memory for all of it, in which a byte and a bit take one
byte each. -/
def Shape.defaultValue : Shape → Except Trap Value
  | .boolean => .ok (.boolean false)
  | .uint width => .ok (if width ≤ 8 then .uint 0 else .big 0)
  | .byteVector length => do
    Memory.reserve length.toNat 1
    return .bytes (Bytes.zeros length.toNat)
  | .byteList _ => .ok (.bytes [])
  | .bitvector length => do
    Memory.reserve length.toNat 1
    return .bits (List.replicate length.toNat false)
  | .bitlist _ => .ok (.bits [])
  | .vector element length => do
    let part ← element.defaultValue
    Memory.reserve length.toNat Value.footprint
    return .sequence (List.replicate length.toNat part)
  | .list _ _ => .ok (.sequence [])
  | .container schema => schema.defaultValue

/-- The container of the all-zero values of the fields. A field is itself no smaller than a value,
so that there is memory for as many. -/
def Schema.defaultValue : Schema → Except Trap Value
  | ⟨_, fields, _, _, _⟩ => do return .container (← Field.defaultValues fields)

/-- The all-zero values of fields. -/
def Field.defaultValues : List Field → Except Trap (List Value)
  | [] => .ok []
  | ⟨_, shape⟩ :: rest => do
    let part ← shape.defaultValue
    return part :: (← Field.defaultValues rest)

end

namespace Value

/-- The part of a value at the end of a path, read through the shape of the value. -/
def part? : Shape → Value → Path → Option Value
  | _, value, [] => some value
  | .container schema, .container fields, .field name :: rest => do
    let index ← schema.fieldIndex? name
    let field ← schema.fields[index]?
    part? field.shape (← fields[index]?) rest
  | .vector element _, .sequence elements, .index position :: rest
  | .list element _, .sequence elements, .index position :: rest => do
    part? element (← elements[position]?) rest
  | _, _, _ => none

/-- Changes the part of a value at the end of a path, read through the shape of the value. -/
def change? (f : Value → Option Value) : Shape → Value → Path → Option Value
  | _, value, [] => f value
  | .container schema, .container fields, .field name :: rest => do
    let index ← schema.fieldIndex? name
    let field ← schema.fields[index]?
    let part ← change? f field.shape (← fields[index]?) rest
    return .container (fields.set index part)
  | .vector element _, .sequence elements, .index position :: rest
  | .list element _, .sequence elements, .index position :: rest => do
    let part ← change? f element (← elements[position]?) rest
    return .sequence (elements.set position part)
  | _, _, _ => none

end Value

end BeaconSsz

import BeaconSsz.Json.Basic
import BeaconSsz.Text.Quoted
import BeaconSsz.Wire.Decode
import BeaconSsz.Wire.Encode
import BeaconSsz.Text.Decimal

/-!
# Values as JSON

Integers are decimal strings, byte strings are hexadecimal behind `0x`, bit strings are the
hexadecimal of their encoding, sequences are arrays, and containers are objects keyed by the
names of their fields. Reading also takes integers that are not quoted, digits of either case,
and objects with other keys; it takes nothing else that writing does not produce.
-/

namespace BeaconSsz

/-- Why JSON does not stand for a value. -/
inductive JsonCause where
  | unexpectedType (expected : String)
  | missingField
  | invalidNumber (text : String)
  | invalidHex (text : String)
  /-- A bit string that is not packed as it should be. -/
  | decode (cause : DecodeCause)
  /-- A value that does not fit its schema. -/
  | encode (cause : EncodeCause)
  deriving DecidableEq

/-- The text shown for a cause. -/
def JsonCause.text : JsonCause → String
  | unexpectedType expected => "expected " ++ expected
  | missingField => "missing field"
  | invalidNumber text => Text.quoted text ++ " is not a decimal integer"
  | invalidHex text => Text.quoted text ++ " is not 0x-prefixed hex"
  | decode cause => cause.text
  | encode cause => cause.text

/-- JSON that does not stand for a value, and where. -/
abbrev JsonError := Located JsonCause

/-- The text shown for an error. -/
def JsonError.message (error : JsonError) : String :=
  Located.message JsonCause.text error

/-- Reading JSON: the value, or why there is none. -/
abbrev JsonReading (α : Type) := Except (Stop JsonError) α

namespace JsonReading

variable {α β : Type}

/-- Refuses the JSON that is being looked at. -/
def fail (cause : JsonCause) : JsonReading α :=
  Stop.refuse (.here cause)

/-- Sees an error from one level further out. -/
def within (step : Step) (result : JsonReading α) : JsonReading α :=
  result.mapError (Stop.mapError (·.within step))

/-- Takes over what reading bytes gives. -/
def ofDecoding (result : Decoding α) : JsonReading α :=
  result.mapError (Stop.mapError (·.mapCause .decode))

/-- Takes over what checking a value gives. -/
def ofEncoding (result : Encoding α) : JsonReading α :=
  Stop.orRefuse (result.mapError (·.mapCause .encode))

/-- Applies a function to each element in order; an error arises within the element's index. -/
def mapElements (f : α → JsonReading β) (elements : List α) : JsonReading (List β) :=
  elements.zipIdx.mapM fun (element, position) => within (.index position) (f element)

end JsonReading

namespace Json

/-- A byte string as JSON. -/
def ofBytes (bytes : Bytes) : Json :=
  string (Hex.markedText bytes)

end Json

mutual

/-- Writes a value of a shape. -/
def Shape.toJson : Shape → Value → Encoding Json
  | .boolean, .boolean value => .ok (.boolean value)
  | .uint _, .uint value => .ok (.string (toString value.toNat))
  | .uint _, .big value => .ok (.string (toString value.toNat))
  | .byteVector _, .bytes content => .ok (Json.ofBytes content)
  | .byteList _, .bytes content => .ok (Json.ofBytes content)
  | .bitvector _, .bits content => .ok (Json.ofBytes (Bits.pack content))
  | .bitlist _, .bits content => .ok (Json.ofBytes (Bits.packDelimited content))
  | .vector element _, .sequence elements => do
    let written ← Encoding.mapElements element.toJson elements
    return .array written
  | .list element _, .sequence elements => do
    let written ← Encoding.mapElements element.toJson elements
    return .array written
  | .container schema, value => schema.fieldsToJson value
  | shape, value => mismatch shape value

/-- Writes a value of a schema; an error does not name the schema. -/
def Schema.fieldsToJson : Schema → Value → Encoding Json
  | ⟨_, fields, _, _, _⟩, .container values => do
    let members ← Field.toJsonAll fields values
    return .object members
  | ⟨name, _, _, _, _⟩, value => Encoding.fail (.typeMismatch name value.kind)

/-- Writes values of fields, in order. -/
def Field.toJsonAll : List Field → List Value → Encoding (List (String × Json))
  | ⟨name, shape⟩ :: fields, value :: values => do
    let written ← Encoding.within (.field name) (shape.toJson value)
    let rest ← Field.toJsonAll fields values
    return (name, written) :: rest
  | _, _ => .ok []

end

/-- Writes a value that fits a schema. -/
def Schema.toJson (schema : Schema) (value : Value) : Encoding Json := do
  schema.validate value
  Encoding.within (.field schema.name) (schema.fieldsToJson value)

/-- The boolean that JSON stands for. -/
def Json.toBoolean : Json → JsonReading Bool
  | boolean value => .ok value
  | _ => JsonReading.fail (.unexpectedType "a boolean")

/-- The numbers below this one are integers of a width in bytes, as far as values tell them
apart. -/
def uintLimit (width : UInt64) : Nat :=
  if width ≤ 8 then wordLimit else 1 <<< 256

/-- The integer that a text spells for a width in bytes. -/
def uintOfText (width : UInt64) (text : String) : JsonReading Value :=
  match Decimal.parse? (uintLimit width) text.toList with
  | some n => .ok (uintOfNat width n)
  | none => JsonReading.fail (.invalidNumber text)

/-- The integer that JSON stands for, for a width in bytes. -/
def Json.toUint (width : UInt64) : Json → JsonReading Value
  | string text => uintOfText width text
  | natural value => uintOfText width (toString value.toNat)
  | _ => JsonReading.fail (.unexpectedType "a decimal string")

/-- The byte string that a text spells behind `0x`. -/
def bytesOfText (text : String) : JsonReading Bytes :=
  match text.toList with
  | '0' :: 'x' :: digits =>
    match Hex.decode? digits with
    | some bytes => .ok bytes
    | none => JsonReading.fail (.invalidHex text)
  | _ => JsonReading.fail (.invalidHex text)

/-- The byte string that JSON stands for. -/
def Json.toBytes : Json → JsonReading Bytes
  | string text => bytesOfText text
  | _ => JsonReading.fail (.unexpectedType "a hex string")

/-- The elements of the array that JSON is. -/
def Json.toElements : Json → JsonReading (List Json)
  | array elements => .ok elements
  | _ => JsonReading.fail (.unexpectedType "an array")

/-- The members of the object that JSON is. -/
def Json.toMembers : Json → JsonReading (List (String × Json))
  | object members => .ok members
  | _ => JsonReading.fail (.unexpectedType "an object")

/-- The value of a key, which must be there. -/
def requireMember (name : String) (members : List (String × Json)) : JsonReading Json :=
  match Json.lookup name members with
  | some value => .ok value
  | none => JsonReading.fail .missingField

mutual

/-- The value of a shape that JSON stands for. -/
def Shape.ofJson : Shape → Json → JsonReading Value
  | .boolean, json => do
    let value ← json.toBoolean
    return .boolean value
  | .uint width, json => json.toUint width
  | .byteVector _, json => do
    let content ← json.toBytes
    return .bytes content
  | .byteList _, json => do
    let content ← json.toBytes
    return .bytes content
  | .bitvector length, json => do
    let bytes ← json.toBytes
    let content ← JsonReading.ofDecoding (decodeBitvector bytes length.toNat)
    return .bits content
  | .bitlist limit, json => do
    let bytes ← json.toBytes
    let content ← JsonReading.ofDecoding (decodeBitlist bytes limit.toNat)
    return .bits content
  | .vector element _, json => do
    let elements ← json.toElements
    let values ← JsonReading.mapElements element.ofJson elements
    return .sequence values
  | .list element _, json => do
    let elements ← json.toElements
    let values ← JsonReading.mapElements element.ofJson elements
    return .sequence values
  | .container schema, json => schema.fieldsOfJson json

/-- The value of a schema that JSON stands for; an error does not name the schema. -/
def Schema.fieldsOfJson : Schema → Json → JsonReading Value
  | ⟨_, fields, _, _, _⟩, json => do
    let members ← json.toMembers
    let values ← Field.ofJsonAll fields members
    return .container values

/-- The values of fields that members stand for, in the order of the fields. -/
def Field.ofJsonAll : List Field → List (String × Json) → JsonReading (List Value)
  | [], _ => .ok []
  | ⟨name, shape⟩ :: fields, members => do
    let value ← JsonReading.within (.field name) do
      let json ← requireMember name members
      shape.ofJson json
    let rest ← Field.ofJsonAll fields members
    return value :: rest

end

/-- The value of a schema that JSON stands for, which must fit the schema. -/
def Schema.ofJson (schema : Schema) (json : Json) : JsonReading Value := do
  let value ← JsonReading.within (.field schema.name) (schema.fieldsOfJson json)
  JsonReading.ofEncoding (schema.validate value)
  return value

end BeaconSsz

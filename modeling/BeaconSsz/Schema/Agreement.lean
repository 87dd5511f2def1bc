import BeaconSsz.Schema.Shape

/-!
# Agreement of schemas

Two schemas agree if they are alike in all but their editions. Records that hold a record many
times over hold one schema many times over, so a comparison that walks both schemas in full may
take exponentially long. The comparison that is run passes over a schema that stands in the same
place in memory on both sides. It has the same answer: a schema agrees with itself.
-/

namespace BeaconSsz

mutual

/-- Whether two shapes agree in all but the editions of their schemas. -/
def Shape.agrees : Shape → Shape → Bool
  | .boolean, .boolean => true
  | .uint width, .uint width' => width == width'
  | .byteVector length, .byteVector length' => length == length'
  | .byteList limit, .byteList limit' => limit == limit'
  | .bitvector length, .bitvector length' => length == length'
  | .bitlist limit, .bitlist limit' => limit == limit'
  | .vector element length, .vector element' length' =>
    length == length' && element.agrees element'
  | .list element limit, .list element' limit' => limit == limit' && element.agrees element'
  | .container schema, .container schema' => schema.agrees schema'
  | _, _ => false

/-- Whether two schemas agree in all but their editions. -/
def Schema.agrees : Schema → Schema → Bool
  | ⟨name, fields, fixedPart, isFixed, _⟩, ⟨name', fields', fixedPart', isFixed', _⟩ =>
    name == name' && fixedPart == fixedPart' && isFixed == isFixed' &&
      Field.agreeAll fields fields'

/-- Whether two lists of fields agree in all but the editions of their schemas. -/
def Field.agreeAll : List Field → List Field → Bool
  | [], [] => true
  | ⟨name, shape⟩ :: fields, ⟨name', shape'⟩ :: fields' =>
    name == name' && shape.agrees shape' && Field.agreeAll fields fields'
  | _, _ => false

end

mutual

theorem Shape.agrees_self : (shape : Shape) → shape.agrees shape = true
  | .boolean => by simp [Shape.agrees]
  | .uint _ => by simp [Shape.agrees]
  | .byteVector _ => by simp [Shape.agrees]
  | .byteList _ => by simp [Shape.agrees]
  | .bitvector _ => by simp [Shape.agrees]
  | .bitlist _ => by simp [Shape.agrees]
  | .vector element _ => by simp [Shape.agrees, element.agrees_self]
  | .list element _ => by simp [Shape.agrees, element.agrees_self]
  | .container schema => by simp [Shape.agrees, schema.agrees_self]

theorem Schema.agrees_self : (schema : Schema) → schema.agrees schema = true
  | ⟨_, fields, _, _, _⟩ => by simp [Schema.agrees, Field.agreeAll_self fields]

theorem Field.agreeAll_self : (fields : List Field) → Field.agreeAll fields fields = true
  | [] => by simp [Field.agreeAll]
  | ⟨_, shape⟩ :: fields => by
    simp [Field.agreeAll, shape.agrees_self, Field.agreeAll_self fields]

end

mutual

/-- Whether two shapes agree, found without a walk through schemas that they share. -/
def Shape.agreement : (shape other : Shape) → { answer : Bool // answer = shape.agrees other }
  | .vector element length, .vector element' length' =>
    ⟨length == length' && (element.agreement element').val,
    by rw [(element.agreement element').property, Shape.agrees]⟩
  | .list element limit, .list element' limit' =>
    ⟨limit == limit' && (element.agreement element').val,
    by rw [(element.agreement element').property, Shape.agrees]⟩
  | .container schema, .container schema' =>
    ⟨withPtrEq schema schema' (fun _ => (schema.agreement schema').val) fun same => by
      rw [(schema.agreement schema').property, same, Schema.agrees_self],
    by simpa [Shape.agrees, withPtrEq] using (schema.agreement schema').property⟩
  | shape, other => ⟨shape.agrees other, rfl⟩

/-- Whether two schemas agree, found without a walk through schemas that they share. -/
def Schema.agreement : (schema other : Schema) → { answer : Bool // answer = schema.agrees other }
  | ⟨name, fields, fixedPart, isFixed, _⟩, ⟨name', fields', fixedPart', isFixed', _⟩ =>
    ⟨name == name' && fixedPart == fixedPart' && isFixed == isFixed' &&
      (Field.agreement fields fields').val,
    by rw [(Field.agreement fields fields').property, Schema.agrees]⟩

/-- Whether two lists of fields agree, found without a walk through schemas that they share. -/
def Field.agreement :
    (fields others : List Field) → { answer : Bool // answer = Field.agreeAll fields others }
  | [], [] => ⟨true, rfl⟩
  | ⟨name, shape⟩ :: fields, ⟨name', shape'⟩ :: fields' =>
    ⟨name == name' && (shape.agreement shape').val && (Field.agreement fields fields').val,
    by rw [(shape.agreement shape').property, (Field.agreement fields fields').property,
      Field.agreeAll]⟩
  | [], _ :: _ => ⟨false, by simp [Field.agreeAll]⟩
  | _ :: _, [] => ⟨false, by simp [Field.agreeAll]⟩

end

end BeaconSsz

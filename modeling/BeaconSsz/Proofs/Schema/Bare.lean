import BeaconSsz.Proofs.Result
import BeaconSsz.Schema.Agreement
import BeaconSsz.Schema.Descriptor

/-!
# Schemas without their editions

The bare form of a schema forgets when it and the schemas inside it were drawn up, and nothing
else. Two schemas agree exactly when their bare forms are equal. Drawing up a schema and resolving
a descriptor do not look at editions, so they commute with taking bare forms.
-/

namespace BeaconSsz

mutual

/-- The shape with the bare forms of the schemas inside it. -/
def Shape.bare : Shape → Shape
  | .boolean => .boolean
  | .uint width => .uint width
  | .byteVector length => .byteVector length
  | .byteList limit => .byteList limit
  | .bitvector length => .bitvector length
  | .bitlist limit => .bitlist limit
  | .vector element length => .vector element.bare length
  | .list element limit => .list element.bare limit
  | .container schema => .container schema.bare

/-- The schema without its edition, and without those of the schemas inside it. -/
def Schema.bare : Schema → Schema
  | ⟨name, fields, fixedPart, isFixed, _⟩ => ⟨name, Field.bareAll fields, fixedPart, isFixed, 0⟩

/-- The fields with the bare forms of the schemas inside them. -/
def Field.bareAll : List Field → List Field
  | [] => []
  | ⟨name, shape⟩ :: fields => ⟨name, shape.bare⟩ :: Field.bareAll fields

end

mutual

/-- Shapes agree exactly when their bare forms are equal. -/
theorem Shape.agrees_iff : (shape other : Shape) →
    (shape.agrees other = true ↔ shape.bare = other.bare)
  | .vector element length, other => by
    cases other with
    | vector element' length' =>
      simp [Shape.agrees, Shape.bare, element.agrees_iff, and_comm]
    | _ => simp [Shape.agrees, Shape.bare]
  | .list element limit, other => by
    cases other with
    | list element' limit' =>
      simp [Shape.agrees, Shape.bare, element.agrees_iff, and_comm]
    | _ => simp [Shape.agrees, Shape.bare]
  | .container schema, other => by
    cases other with
    | container schema' => simp [Shape.agrees, Shape.bare, schema.agrees_iff]
    | _ => simp [Shape.agrees, Shape.bare]
  | .boolean, other | .uint _, other | .byteVector _, other | .byteList _, other
  | .bitvector _, other | .bitlist _, other => by
    cases other <;> simp [Shape.agrees, Shape.bare]

/-- Schemas agree exactly when their bare forms are equal. -/
theorem Schema.agrees_iff : (schema other : Schema) →
    (schema.agrees other = true ↔ schema.bare = other.bare)
  | ⟨_, fields, _, _, _⟩, ⟨_, fields', _, _, _⟩ => by
    simp only [Schema.agrees, Schema.bare, Bool.and_eq_true, beq_iff_eq, Schema.mk.injEq,
      Field.agreeAll_iff fields, and_true, and_assoc]
    rw [← and_assoc (c := _ = _), and_comm (a := _ ∧ _)]

/-- Fields agree exactly when their bare forms are equal. -/
theorem Field.agreeAll_iff : (fields others : List Field) →
    (Field.agreeAll fields others = true ↔ Field.bareAll fields = Field.bareAll others)
  | [], [] => by simp [Field.agreeAll]
  | ⟨_, shape⟩ :: fields, ⟨_, shape'⟩ :: others => by
    simp [Field.agreeAll, Field.bareAll, shape.agrees_iff,
      Field.agreeAll_iff fields]
  | [], ⟨_, _⟩ :: _ | ⟨_, _⟩ :: _, [] => by simp [Field.agreeAll, Field.bareAll]

end

/-- The bare fields are taken field by field. -/
theorem Field.bareAll_eq_map (fields : List Field) :
    Field.bareAll fields = fields.map fun field => ⟨field.name, field.shape.bare⟩ := by
  induction fields with
  | nil => rfl
  | cons field fields ih =>
    obtain ⟨name, shape⟩ := field
    rw [Field.bareAll, ih, List.map_cons]

/-- The bare form keeps the name. -/
@[simp] theorem Schema.name_bare (schema : Schema) : schema.bare.name = schema.name := by
  cases schema
  rw [bare]

/-- The bare form keeps the size of the fixed part. -/
@[simp] theorem Schema.fixedPart_bare (schema : Schema) :
    schema.bare.fixedPart = schema.fixedPart := by
  cases schema
  rw [bare]

/-- The bare form keeps whether all of it is fixed. -/
@[simp] theorem Schema.isFixed_bare (schema : Schema) : schema.bare.isFixed = schema.isFixed := by
  cases schema
  rw [bare]

/-- The bare form has the bare fields. -/
@[simp] theorem Schema.fields_bare (schema : Schema) :
    schema.bare.fields = Field.bareAll schema.fields := by
  cases schema
  rw [bare]

namespace Shape

/-- The bare form is of fixed size if the shape is. -/
@[simp] theorem isFixed_bare : (shape : Shape) → shape.bare.isFixed = shape.isFixed
  | vector element _ => by rw [bare, isFixed, isFixed, element.isFixed_bare]
  | container schema => by rw [bare, isFixed, isFixed, schema.isFixed_bare]
  | boolean | uint _ | byteVector _ | byteList _ | bitvector _ | bitlist _ | list _ _ => rfl

/-- The bare form is basic if the shape is. -/
@[simp] theorem isBasic_bare (shape : Shape) : shape.bare.isBasic = shape.isBasic := by
  cases shape <;> rfl

/-- The bare form has the same text. -/
@[simp] theorem text_bare : (shape : Shape) → shape.bare.text = shape.text
  | vector element _ => by rw [bare, text, text, element.text_bare]
  | list element _ => by rw [bare, text, text, element.text_bare]
  | container schema => by rw [bare, text, text, schema.name_bare]
  | boolean | uint _ | byteVector _ | byteList _ | bitvector _ | bitlist _ => rfl

/-- The bare form names the same integers. -/
@[simp] theorem hasWordWidths_bare : (shape : Shape) →
    shape.bare.hasWordWidths = shape.hasWordWidths
  | vector element _ => element.hasWordWidths_bare
  | list element _ => element.hasWordWidths_bare
  | container _ | boolean | uint _ | byteVector _ | byteList _ | bitvector _ | bitlist _ => rfl

/-- The bare form is shown as the shape is. -/
@[simp] theorem render_bare (shape : Shape) : shape.bare.render = shape.render := by
  rw [render, render, hasWordWidths_bare, text_bare]

/-- The bare form takes as many bytes. -/
@[simp] theorem slotLength_bare : (shape : Shape) → shape.bare.slotLength = shape.slotLength
  | vector element _ => by
    rw [bare, slotLength, slotLength, element.isFixed_bare, element.slotLength_bare]
  | container schema => by
    rw [bare, slotLength, slotLength, schema.isFixed_bare, schema.fixedPart_bare]
  | boolean | uint _ | byteVector _ | byteList _ | bitvector _ | bitlist _ | list _ _ => rfl

/-- The bytes of the bare form are checked as those of the shape are. -/
@[simp] theorem exactSlotLength?_bare : (shape : Shape) →
    shape.bare.exactSlotLength? = shape.exactSlotLength?
  | vector element _ => by
    rw [bare, exactSlotLength?, exactSlotLength?, element.isFixed_bare,
      element.exactSlotLength?_bare]
  | list element _ => by
    rw [bare, exactSlotLength?, exactSlotLength?, element.exactSlotLength?_bare]
  | container schema => by
    have := slotLength_bare (container schema)
    simp only [bare] at this
    simp only [bare, exactSlotLength?, this]
  | boolean | uint _ | byteVector _ | byteList _ | bitvector _ | bitlist _ => rfl

/-- The capacity of the bare form is checked as that of the shape is. -/
@[simp] theorem roundableLimit?_bare (shape : Shape) :
    shape.bare.roundableLimit? = shape.roundableLimit? := by
  cases shape with
  | list element limit =>
    rw [bare, roundableLimit?, roundableLimit?, isBasic_bare, slotLength_bare]
  | _ => rfl

/-- The sizes of the bare form are checked as those of the shape are. -/
@[simp] theorem checkSizes_bare (container field : String) (shape : Shape) :
    checkSizes container field shape.bare = checkSizes container field shape := by
  simp only [checkSizes, exactSlotLength?_bare, roundableLimit?_bare, render_bare]

/-- The bare form is checked as the shape is. -/
@[simp] theorem check_bare (owner field : String) : (shape : Shape) →
    shape.bare.check owner field = shape.check owner field
  | vector element length => by
    have hSizes := checkSizes_bare owner field (vector element length)
    have hRender := render_bare (vector element length)
    rw [bare] at hSizes hRender
    rw [bare, check, check, element.check_bare, hSizes, refuseZero, refuseZero, hRender]
  | list element limit => by
    have hSizes := checkSizes_bare owner field (list element limit)
    rw [bare] at hSizes
    rw [bare, check, check, element.check_bare, hSizes]
  | container schema => checkSizes_bare owner field (container schema)
  | boolean | uint _ | byteVector _ | byteList _ | bitvector _ | bitlist _ => rfl

end Shape

namespace Schema

/-- Bare fields are checked as the fields are. -/
theorem checkFields_bare (container : String) (seen : List String) (fields : List Field) :
    checkFields container seen (Field.bareAll fields) = checkFields container seen fields := by
  induction fields generalizing seen with
  | nil => rfl
  | cons field fields ih =>
    obtain ⟨name, shape⟩ := field
    rw [Field.bareAll, checkFields, checkFields, Shape.check_bare, ih]

/-- The slots of bare fields are summed as those of the fields are. -/
theorem sumSlots?_bare (sum : Nat) (fields : List Field) :
    sumSlots? sum (Field.bareAll fields) = sumSlots? sum fields := by
  induction fields generalizing sum with
  | nil => rfl
  | cons field fields ih =>
    obtain ⟨name, shape⟩ := field
    simp only [Field.bareAll, sumSlots?, Shape.slotLength_bare, ih]

/-- Bare fields are all fixed if the fields are. -/
theorem all_isFixed_bare (fields : List Field) :
    (Field.bareAll fields).all (·.shape.isFixed) = fields.all (·.shape.isFixed) := by
  simp [Field.bareAll_eq_map, List.all_map, Function.comp_def]

/-- Bare fields have the names of the fields. -/
theorem map_name_bareAll (fields : List Field) :
    (Field.bareAll fields).map Field.name = fields.map Field.name := by
  simp [Field.bareAll_eq_map]

/-- The last of bare fields has the name of the last field. -/
theorem lastName_bare (fields : List Field) :
    lastName (Field.bareAll fields) = lastName fields := by
  rw [lastName, lastName, ← List.getLast?_map, ← List.getLast?_map, map_name_bareAll]

/-- Drawing up a schema from bare fields is drawing up the bare schema. -/
theorem make_bare (edition : Nat) (name : String) (fields : List Field) :
    make 0 name (Field.bareAll fields) = (make edition name fields).map bare := by
  have hempty : (Field.bareAll fields).isEmpty = fields.isEmpty := by
    rw [← List.isEmpty_map (f := Field.name), map_name_bareAll, List.isEmpty_map]
  unfold make
  rw [hempty, checkFields_bare, sumSlots?_bare, all_isFixed_bare, lastName_bare]
  cases fields.isEmpty with
  | true => rfl
  | false =>
    cases checkFields name [] fields with
    | error stop => rfl
    | ok =>
      cases sumSlots? 0 fields with
      | error trap => rfl
      | ok sum => cases sum <;> rfl

end Schema

/-- The context in which containers have their bare forms. -/
def Context.bare (context : Context) : Context where
  bound? := context.bound?
  container? name := (context.container? name).map Schema.bare

/-- In the bare context, a bound has the same length. -/
theorem Bound.resolve_bare (context : Context) (owner field : String) (bound : Bound) :
    bound.resolve context.bare owner field = bound.resolve context owner field := by
  cases bound <;> rfl

/-- In the bare context, a form stands for the bare shape. -/
theorem Form.resolve_bare (context : Context) (owner field : String) : (form : Form) →
    form.resolve context.bare owner field = (form.resolve context owner field).map Shape.bare
  | boolean | uint _ => rfl
  | byteVector length | byteList length | bitvector length | bitlist length => by
    simp only [resolve, Bound.resolve_bare]
    cases length.resolve context owner field <;> rfl
  | vector element length | list element length => by
    simp only [resolve, Bound.resolve_bare, element.resolve_bare]
    cases element.resolve context owner field <;>
      cases length.resolve context owner field <;> rfl
  | container name => by
    simp only [resolve, Context.bare]
    cases context.container? name <;> rfl

namespace Descriptor

/-- In the bare context, a descriptor stands for the bare fields. -/
theorem resolveFields_bare (context : Context) (descriptor : Descriptor) :
    descriptor.resolveFields context.bare =
      (descriptor.resolveFields context).map Field.bareAll := by
  rw [resolveFields, resolveFields, funext Field.bareAll_eq_map]
  apply mapM_eq_map
  intro field
  dsimp only
  rw [Form.resolve_bare]
  cases field.2.resolve context descriptor.name field.1 <;> rfl

/-- In the bare context, a descriptor stands for the bare schema. -/
theorem resolve_bare (context : Context) (edition : Nat) (descriptor : Descriptor) :
    descriptor.resolve context.bare 0 = (descriptor.resolve context edition).map Schema.bare := by
  rw [resolve, resolve, resolveFields_bare]
  cases descriptor.resolveFields context with
  | error error => rfl
  | ok fields => exact Schema.make_bare edition descriptor.name fields

end Descriptor

end BeaconSsz

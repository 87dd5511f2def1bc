import BeaconSsz.Proofs.Wire.FixedPart
import BeaconSsz.Proofs.Wire.Leaf

/-!
# Fields of a container

Writing a container writes each field on its own and joins the results. Reading registers the
fields, then takes and reads them one at a time, which is the same as taking all slices first. So
both come down to one relation between the fields, the slices of bytes and the values.
-/

namespace BeaconSsz

/-- Slices and values stand in a relation under the shape of each field. -/
def Field.Each (R : Shape → Bytes → Value → Prop) : List Field → List Bytes → List Value → Prop
  | [], [], [] => True
  | ⟨_, shape⟩ :: fields, slice :: slices, value :: values =>
    R shape slice value ∧ Field.Each R fields slices values
  | _, _, _ => False

/-- The value is written as the bytes. -/
def Shape.Writes (shape : Shape) (bytes : Bytes) (value : Value) : Prop :=
  shape.encode value = .ok bytes

/-- The bytes are read as the value. -/
def Shape.Reads (shape : Shape) (bytes : Bytes) (value : Value) : Prop :=
  shape.decode bytes = .ok value

namespace Field

/-- The shapes of fields. -/
def shapes (fields : List Field) : List Shape :=
  fields.map Field.shape

/-- The slots of the fields are those of their shapes. -/
theorem slotSum_shapes (fields : List Field) :
    BeaconSsz.slotSum (shapes fields) = slotSum fields :=
  congrArg List.sum List.map_map

/-- The slots of sound fields can be counted. -/
theorem counted_shapes : {fields : List Field} → AllSound fields → Counted (shapes fields)
  | [], _ => by simp [Counted, shapes]
  | ⟨_, _⟩ :: _, ⟨hShape, hFields⟩ =>
    List.forall_mem_cons.mpr ⟨Shape.slotLength_eq hShape, counted_shapes hFields⟩

/-- There is one value for each field. -/
theorem Each.length_eq {R : Shape → Bytes → Value → Prop} {fields : List Field}
    {slices : List Bytes} {values : List Value} (h : Each R fields slices values) :
    values.length = fields.length := by
  induction fields generalizing slices values with
  | nil => cases slices <;> cases values <;> first | rfl | exact h.elim
  | cons field fields ih =>
    obtain ⟨name, shape⟩ := field
    match slices, values, h with
    | _ :: _, _ :: _, h => exact congrArg (· + 1) (ih h.2)

/-- The shape of a field stands where the field does. -/
theorem getElem?_shapes {fields : List Field} {index : Nat} {field : Field}
    (hfield : fields[index]? = some field) : (shapes fields)[index]? = some field.shape := by
  rw [shapes, List.getElem?_map, hfield]
  rfl

/-- The slice and the value of a field stand in the relation. -/
theorem Each.get {R : Shape → Bytes → Value → Prop} {fields : List Field} {slices : List Bytes}
    {values : List Value} (h : Each R fields slices values) {index : Nat} {field : Field}
    (hfield : fields[index]? = some field) :
    ∃ slice value, slices[index]? = some slice ∧ values[index]? = some value ∧
      R field.shape slice value := by
  induction fields generalizing slices values index with
  | nil => simp at hfield
  | cons first fields ih =>
    obtain ⟨name, shape⟩ := first
    cases slices with
    | nil => exact h.elim
    | cons slice slices =>
      cases values with
      | nil => exact h.elim
      | cons value values =>
        cases index with
        | zero =>
          cases hfield
          exact ⟨slice, value, rfl, rfl, h.1⟩
        | succ index => exact ih h.2 hfield

/-- There is one slice for each field. -/
theorem Each.length_slices {R : Shape → Bytes → Value → Prop} {fields : List Field}
    {slices : List Bytes} {values : List Value} (h : Each R fields slices values) :
    slices.length = fields.length := by
  induction fields generalizing slices values with
  | nil => cases slices <;> cases values <;> first | rfl | exact h.elim
  | cons field fields ih =>
    obtain ⟨name, shape⟩ := field
    cases slices with
    | nil => exact h.elim
    | cons slice slices =>
      cases values with
      | nil => exact h.elim
      | cons value values => exact congrArg (· + 1) (ih h.2)

/-- Fields are written one by one, each with whether its shape is of fixed size. -/
theorem encodeAll_eq_ok {fields : List Field} {values : List Value}
    (hlength : values.length = fields.length) {encoded : List (Bool × Bytes)} :
    encodeAll fields values = .ok encoded ↔
      ∃ slices, Each Shape.Writes fields slices values ∧
        tagged (shapes fields) slices = encoded := by
  induction fields generalizing values encoded with
  | nil =>
    obtain rfl := List.length_eq_zero_iff.mp hlength
    simp only [encodeAll, Except.ok.injEq]
    apply Iff.intro
    · intro heq
      obtain rfl := heq
      exact ⟨[], trivial, rfl⟩
    · intro h
      obtain ⟨slices, -, h⟩ := h
      exact h
  | cons field fields ih =>
    obtain ⟨name, shape⟩ := field
    obtain ⟨value, values, rfl⟩ := List.exists_cons_of_length_eq_add_one hlength
    have ih {encoded} := @ih values (by simpa using hlength) encoded
    simp only [encodeAll, bind_eq_ok, pure_eq_ok, Encoding.within_eq_ok, ih]
    apply Iff.intro
    · intro h
      obtain ⟨slice, hslice, _, ⟨slices, hslices, rfl⟩, rfl⟩ := h
      exact ⟨slice :: slices, ⟨hslice, hslices⟩, rfl⟩
    · intro h
      obtain ⟨slices, heach, rfl⟩ := h
      cases slices with
      | nil => exact heach.elim
      | cons slice slices => exact ⟨slice, heach.1, _, ⟨slices, heach.2, rfl⟩, rfl⟩

/-- The names of the fields do not matter for registering them. -/
theorem registerAll_eq_ok {fields : List Field} {reader reader' : Reader} :
    registerAll fields reader = .ok reader' ↔
      Reader.registerAll (shapes fields) reader = .ok reader' := by
  induction fields generalizing reader with
  | nil => rfl
  | cons field fields ih =>
    obtain ⟨name, shape⟩ := field
    simp only [registerAll, bind_eq_ok, Decoding.within_eq_ok, ih]
    exact bind_eq_ok.symm

/-- Taking and reading the fields in turn is taking all slices and then reading each one. -/
theorem decodeAll_eq_ok {fields : List Field} {reader : Reader} {values : List Value} :
    decodeAll fields reader = .ok values ↔
      ∃ slices, Reader.takeAll (shapes fields) reader = .ok slices ∧
        Each Shape.Reads fields slices values := by
  induction fields generalizing reader values with
  | nil =>
    simp only [decodeAll, shapes, List.map_nil, Reader.takeAll, Except.ok.injEq]
    apply Iff.intro
    · intro heq
      obtain rfl := heq
      exact ⟨[], rfl, trivial⟩
    · intro h
      obtain ⟨_, rfl, heach⟩ := h
      cases values with
      | nil => rfl
      | cons value values => exact heach.elim
  | cons field fields ih =>
    obtain ⟨name, shape⟩ := field
    simp only [decodeAll, bind_eq_ok, pure_eq_ok, Decoding.within_eq_ok, ih, Prod.exists,
      Prod.mk.injEq]
    apply Iff.intro
    · intro h
      obtain ⟨value, _, ⟨slice, next, hnext, _, hvalue, rfl, rfl⟩, _,
        ⟨slices, htake, heach⟩, rfl⟩ := h
      refine ⟨slice :: slices, ?_, hvalue, heach⟩
      simp only [shapes, List.map_cons, Reader.takeAll, bind_eq_ok, pure_eq_ok, Prod.exists]
      exact ⟨slice, next, hnext, slices, htake, rfl⟩
    · intro h
      obtain ⟨_, htake, heach⟩ := h
      simp only [shapes, List.map_cons, Reader.takeAll, bind_eq_ok, pure_eq_ok,
        Prod.exists] at htake
      obtain ⟨slice, next, hnext, slices, htake, rfl⟩ := htake
      cases values with
      | nil => exact heach.elim
      | cons value values =>
        exact ⟨value, next, ⟨slice, next, hnext, value, heach.1, rfl, rfl⟩, values,
          ⟨slices, htake, heach.2⟩, rfl⟩

end Field

/-- The fields of a container are as many as expected. -/
theorem containerFields_eq_ok {name : String} {expected : Nat} {value : Value}
    {values : List Value} :
    containerFields name expected value = .ok values ↔
      value = .container values ∧ values.length = expected := by
  cases value with
  | container fields =>
    simp only [containerFields, Value.container.injEq]
    split
    · next h =>
      rw [Except.ok.injEq]
      exact ⟨fun heq => ⟨heq, heq ▸ h⟩, And.left⟩
    · next h =>
      rw [Encoding.fail_ne_ok, false_iff]
      exact fun heq => h (heq.1 ▸ heq.2)
  | _ => simp [containerFields]

namespace Schema

/-- Writing a container joins what writing each field gives. -/
theorem encodeFields_eq_ok {schema : Schema} {value : Value} {bytes : Bytes} :
    schema.encodeFields value = .ok bytes ↔
      ∃ values slices, value = .container values ∧
        Field.Each Shape.Writes schema.fields slices values ∧
        joinItems (partsOf (Field.shapes schema.fields) slices)
          (bodiesOf (Field.shapes schema.fields) slices) = .ok bytes := by
  obtain ⟨name, fields, fixedPart, isFixed, edition⟩ := schema
  simp only [encodeFields, bind_eq_ok, containerFields_eq_ok]
  apply Iff.intro
  · intro h
    obtain ⟨values, ⟨rfl, hlength⟩, encoded, hencoded, hjoin⟩ := h
    obtain ⟨slices, heach, rfl⟩ := (Field.encodeAll_eq_ok hlength).mp hencoded
    exact ⟨values, slices, rfl, heach, hjoin⟩
  · intro h
    obtain ⟨values, slices, rfl, heach, hjoin⟩ := h
    exact ⟨values, ⟨rfl, heach.length_eq⟩, _,
      (Field.encodeAll_eq_ok heach.length_eq).mpr ⟨slices, heach, rfl⟩, hjoin⟩

/-- Reading a container reads each of its slices, and nothing may follow the fixed part if that is
all. -/
theorem decodeFields_eq_ok {schema : Schema} {value : Value} {bytes : Bytes} :
    schema.decodeFields bytes = .ok value ↔
      ∃ values slices, value = .container values ∧
        Field.Each Shape.Reads schema.fields slices values ∧
        (schema.isFixed = true → bytes.length = schema.fixedPart) ∧
        Reader.readAll (Field.shapes schema.fields) schema.fixedPart bytes = .ok slices := by
  obtain ⟨name, fields, fixedPart, isFixed, edition⟩ := schema
  have hcheck (next : Decoding Value) :
      (do if isFixed then checkByteLength bytes fixedPart
          next) = .ok value ↔
        (isFixed = true → bytes.length = fixedPart) ∧ next = .ok value := by
    cases isFixed with
    | true => rw [if_pos rfl, check_bind_eq_ok, checkByteLength_eq_ok, forall_prop_of_true rfl]
    | false => simp
  rw [decodeFields, hcheck]
  simp only [bind_eq_ok, pure_eq_ok, Field.registerAll_eq_ok, Field.decodeAll_eq_ok,
    Reader.readAll]
  apply Iff.intro
  · intro h
    obtain ⟨hfixed, start, hstart, reader, hregister, values, ⟨slices, htake, heach⟩, rfl⟩ := h
    exact ⟨values, slices, rfl, heach, hfixed, start, hstart, reader, hregister, htake⟩
  · intro h
    obtain ⟨values, slices, rfl, heach, hfixed, start, hstart, reader, hregister, htake⟩ := h
    exact ⟨hfixed, start, hstart, reader, hregister, values, ⟨slices, htake, heach⟩, rfl⟩

end Schema

end BeaconSsz

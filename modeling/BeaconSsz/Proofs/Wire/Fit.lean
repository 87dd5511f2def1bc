import BeaconSsz.Proofs.Wire.Encode

/-!
# Values that fit their shape

A value fits a shape if it is of its kind and keeps within its bounds, and so do all of its parts.
Validation passes exactly the values that fit, and only values that fit can be written. The
converse of the second fails for want of room alone: an offset has four bytes.
-/

namespace BeaconSsz

mutual

/-- The value is of the kind of the shape, keeps within its bounds, and so do its parts. -/
def Shape.Fits : Shape → Value → Prop
  | .boolean, .boolean _ => True
  | .uint width, .uint n => width ≤ 8 ∧ n.toNat < 256 ^ width.toNat
  | .uint width, .big n => 8 < width ∧ n.toNat < 256 ^ width.toNat
  | .byteVector length, .bytes content => content.length = length.toNat
  | .byteList limit, .bytes content => content.length ≤ limit.toNat
  | .bitvector length, .bits content => content.length = length.toNat
  | .bitlist limit, .bits content => content.length ≤ limit.toNat
  | .vector element length, .sequence elements =>
    elements.length = length.toNat ∧ ∀ value ∈ elements, element.Fits value
  | .list element limit, .sequence elements =>
    elements.length ≤ limit.toNat ∧ ∀ value ∈ elements, element.Fits value
  | .container schema, value => schema.Fits value
  | _, _ => False

/-- The value is a container whose parts fit the fields. -/
def Schema.Fits : Schema → Value → Prop
  | ⟨_, fields, _, _, _⟩, .container values => Field.AllFit fields values
  | _, _ => False

/-- There is a value for each field, and it fits the shape of the field. -/
def Field.AllFit : List Field → List Value → Prop
  | [], [] => True
  | ⟨_, shape⟩ :: fields, value :: values => shape.Fits value ∧ Field.AllFit fields values
  | _, _ => False

end

/-- A value that fits the example of a container. -/
def outerValue : Value :=
  .container [.boolean true, .sequence [.bytes [1, 2], .bytes []], .bits [true, false, true],
    .container [.uint 258, .bits [true, true, false]]]

/-- There is one value for each field. -/
theorem Field.AllFit.length_eq {fields : List Field} {values : List Value}
    (h : Field.AllFit fields values) : values.length = fields.length := by
  induction fields generalizing values with
  | nil => cases values <;> first | rfl | exact h.elim
  | cons field fields ih =>
    obtain ⟨name, shape⟩ := field
    cases values with
    | nil => exact h.elim
    | cons value values => exact congrArg (· + 1) (ih h.2)

mutual

/-- Validation passes exactly the values that fit. -/
theorem Shape.validate_eq_ok : {shape : Shape} → shape.Sound → {value : Value} →
    (shape.validate value = .ok () ↔ shape.Fits value)
  | .boolean, _, value => by
    cases value <;> simp [Shape.validate, Shape.Fits]
  | .uint width, hSound, value => by
    have hmax := (toNat_of_mem_uintWidths hSound).2
    cases value with
    | uint n =>
      rw [Shape.validate, Shape.Fits, ← checkUint_eq_ok hmax (n.toNat_lt.trans_le (by decide))]
      split_ifs with h <;> simp [h]
    | big n =>
      rw [Shape.validate, Shape.Fits, ← checkUint_eq_ok hmax (n.isLt.trans_le (by decide))]
      split_ifs with h <;> simp [h]
    | _ => simp [Shape.validate, Shape.Fits]
  | .byteVector _, _, value => by
    cases value <;> simp [Shape.validate, Shape.Fits]
  | .byteList _, _, value => by
    cases value <;> simp [Shape.validate, Shape.Fits]
  | .bitvector _, _, value => by
    cases value <;> simp [Shape.validate, Shape.Fits]
  | .bitlist _, _, value => by
    cases value <;> simp [Shape.validate, Shape.Fits]
  | .vector element _, hSound, value => by
    have ih (part : Value) : element.validate part = .ok () ↔ element.Fits part :=
      Shape.validate_eq_ok hSound.2.1
    cases value with
    | sequence elements =>
      rw [Shape.validate, check_bind_eq_ok, checkExactLength_eq_ok, Encoding.forElements_eq_ok,
        Shape.Fits]
      simp only [ih]
    | _ => simp [Shape.validate, Shape.Fits]
  | .list element _, hSound, value => by
    have ih (part : Value) : element.validate part = .ok () ↔ element.Fits part :=
      Shape.validate_eq_ok hSound.1
    cases value with
    | sequence elements =>
      rw [Shape.validate, check_bind_eq_ok, checkLimit_eq_ok, Encoding.forElements_eq_ok,
        Shape.Fits]
      simp only [ih]
    | _ => simp [Shape.validate, Shape.Fits]
  | .container schema, hSound, value => by
    rw [Shape.validate, Shape.Fits]
    exact Schema.validateFields_eq_ok hSound

/-- Validation passes exactly the containers whose parts fit. -/
theorem Schema.validateFields_eq_ok : {schema : Schema} → schema.Sound → {value : Value} →
    (schema.validateFields value = .ok () ↔ schema.Fits value)
  | ⟨_, fields, _, _, _⟩, ⟨_, _, hFields, _⟩, value => by
    simp only [Schema.validateFields, bind_eq_ok, containerFields_eq_ok]
    cases value with
    | container values =>
      simp only [Value.container.injEq, Schema.Fits]
      apply Iff.intro
      · intro h
        obtain ⟨_, ⟨rfl, hlength⟩, h⟩ := h
        exact (Field.validateAll_eq_ok hFields hlength).mp h
      · intro h
        exact ⟨_, ⟨rfl, h.length_eq⟩, (Field.validateAll_eq_ok hFields h.length_eq).mpr h⟩
    | _ => simp [Schema.Fits]

/-- As many values as fields pass exactly when each one fits. -/
theorem Field.validateAll_eq_ok : {fields : List Field} → Field.AllSound fields →
    {values : List Value} → values.length = fields.length →
    (Field.validateAll fields values = .ok () ↔ Field.AllFit fields values)
  | [], _, [], _ => iff_of_true rfl trivial
  | ⟨_, _⟩ :: _, ⟨hShape, hFields⟩, _ :: _, hlength => by
    rw [Field.validateAll, check_bind_eq_ok, Encoding.within_eq_ok, Field.AllFit,
      Shape.validate_eq_ok hShape, Field.validateAll_eq_ok hFields (by simpa using hlength)]

end

mutual

/-- Only values that fit can be written. -/
theorem Shape.fits_of_encode : {shape : Shape} → shape.Sound → {value : Value} →
    {bytes : Bytes} → shape.encode value = .ok bytes → shape.Fits value
  | .boolean, _, _, _, h => by
    obtain ⟨b, rfl, -⟩ := Shape.encode_boolean_eq_ok.mp h
    trivial
  | .uint width, hSound, _, _, h => by
    have hmax := (toNat_of_mem_uintWidths hSound).2
    rcases Shape.encode_uint_eq_ok.mp h with ⟨hnarrow, n, rfl, hn, -⟩ | ⟨hwide, n, rfl, hn, -⟩
    · exact ⟨hnarrow, (checkUint_eq_ok hmax (n.toNat_lt.trans_le (by decide))).mp hn⟩
    · exact ⟨hwide, (checkUint_eq_ok hmax (n.isLt.trans_le (by decide))).mp hn⟩
  | .byteVector _, _, _, _, h => by
    obtain ⟨rfl, hlength⟩ := Shape.encode_byteVector_eq_ok.mp h
    exact hlength
  | .byteList _, _, _, _, h => by
    obtain ⟨rfl, hlength⟩ := Shape.encode_byteList_eq_ok.mp h
    exact hlength
  | .bitvector _, _, _, _, h => by
    obtain ⟨bits, rfl, hlength, -⟩ := Shape.encode_bitvector_eq_ok.mp h
    exact hlength
  | .bitlist _, _, _, _, h => by
    obtain ⟨bits, rfl, hlength, -⟩ := Shape.encode_bitlist_eq_ok.mp h
    exact hlength
  | .vector element _, hSound, _, _, h => by
    obtain ⟨elements, items, rfl, hlength, hitems, -⟩ := Shape.encode_vector_eq_ok.mp h
    have ih (item : Bytes) (value : Value) : element.Writes item value → element.Fits value :=
      Shape.fits_of_encode hSound.2.1
    exact ⟨hlength, forall_of_forall₂ ih hitems⟩
  | .list element _, hSound, _, _, h => by
    obtain ⟨elements, items, rfl, hlength, hitems, -⟩ := Shape.encode_list_eq_ok.mp h
    have ih (item : Bytes) (value : Value) : element.Writes item value → element.Fits value :=
      Shape.fits_of_encode hSound.1
    exact ⟨hlength, forall_of_forall₂ ih hitems⟩
  | .container schema, hSound, _, _, h => by
    rw [Shape.Fits]
    exact Schema.fits_of_encodeFields hSound (Shape.encode_container .. ▸ h)

/-- Only containers whose parts fit can be written. -/
theorem Schema.fits_of_encodeFields : {schema : Schema} → schema.Sound → {value : Value} →
    {bytes : Bytes} → schema.encodeFields value = .ok bytes → schema.Fits value
  | ⟨_, fields, _, _, _⟩, ⟨_, _, hFields, _⟩, _, _, h => by
    obtain ⟨values, slices, rfl, heach, -⟩ := Schema.encodeFields_eq_ok.mp h
    exact Field.allFit_of_each hFields heach

/-- Values that are written field by field fit the fields. -/
theorem Field.allFit_of_each : {fields : List Field} → Field.AllSound fields →
    {slices : List Bytes} → {values : List Value} →
    Field.Each Shape.Writes fields slices values → Field.AllFit fields values
  | [], _, [], [], _ => trivial
  | ⟨_, _⟩ :: _, ⟨hShape, hFields⟩, _ :: _, _ :: _, ⟨hvalue, heach⟩ =>
    ⟨Shape.fits_of_encode hShape hvalue, Field.allFit_of_each hFields heach⟩

end

namespace Schema

/-- Validation through a drawn-up schema passes exactly the values that fit. -/
theorem validate_eq_ok {schema : Schema} (hDrawn : schema.Drawn) {value : Value} :
    schema.validate value = .ok () ↔ schema.Fits value := by
  rw [validate, Encoding.within_eq_ok]
  exact validateFields_eq_ok (sound_of_drawn hDrawn)

/-- Only values that fit a drawn-up schema can be written through it. -/
theorem fits_of_serialize {schema : Schema} (hDrawn : schema.Drawn) {value : Value}
    {bytes : Bytes} (h : schema.serialize value = .ok bytes) : schema.Fits value := by
  rw [serialize, Encoding.within_eq_ok] at h
  exact fits_of_encodeFields (sound_of_drawn hDrawn) h

end Schema

end BeaconSsz

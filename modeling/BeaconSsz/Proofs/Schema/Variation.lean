import BeaconSsz.Proofs.Wire.Fields

/-!
# Schemas that differ in places

Two shapes are compared place by place. Vectors, lists and containers have to be nested alike,
with vectors of the same lengths and with the same names in the same order; how the other places
and the limits of lists may differ is a parameter. Whatever does not show in the slot of a place
does not show in the fixed part of the containers around it either, so that containers are written
alike if their fields are.
-/

namespace BeaconSsz

section Variation

variable (leaf : Shape → Shape → Prop) (limits : UInt64 → UInt64 → Prop)

mutual

/-- The shapes are nested alike; their other places and the limits of their lists are related. -/
def Shape.VariesBy : Shape → Shape → Prop
  | .vector element length, other =>
    ∃ element', other = .vector element' length ∧ element.VariesBy element'
  | .list element limit, other =>
    ∃ element' limit', other = .list element' limit' ∧ limits limit limit' ∧
      element.VariesBy element'
  | .container schema, other => ∃ schema', other = .container schema' ∧ schema.VariesBy schema'
  | .boolean, other => leaf .boolean other
  | .uint width, other => leaf (.uint width) other
  | .byteVector length, other => leaf (.byteVector length) other
  | .byteList limit, other => leaf (.byteList limit) other
  | .bitvector length, other => leaf (.bitvector length) other
  | .bitlist limit, other => leaf (.bitlist limit) other

/-- The containers have the same name, and related shapes in fields of the same names. -/
def Schema.VariesBy : Schema → Schema → Prop
  | ⟨name, fields, _, _, _⟩, ⟨name', fields', _, _, _⟩ =>
    name = name' ∧ Field.AllVaryBy fields fields'

/-- The fields have the same names and related shapes. -/
def Field.AllVaryBy : List Field → List Field → Prop
  | [], others => others = []
  | ⟨name, shape⟩ :: fields, others =>
    ∃ shape' fields', others = ⟨name, shape'⟩ :: fields' ∧ shape.VariesBy shape' ∧
      Field.AllVaryBy fields fields'

end

end Variation

/-- The shapes cannot be told apart by the container around them. -/
structure Shape.SlotAlike (shape other : Shape) : Prop where
  isFixed_eq : shape.isFixed = other.isFixed
  isBasic_eq : shape.isBasic = other.isBasic
  slotSize_eq : shape.slotSize = other.slotSize

variable {leaf : Shape → Shape → Prop} {limits : UInt64 → UInt64 → Prop}

/-- Related containers have one name. -/
theorem Schema.VariesBy.name_eq {schema other : Schema} (h : schema.VariesBy leaf limits other) :
    schema.name = other.name := by
  cases schema
  cases other
  exact h.1

/-- The fields of a container are as many as those of a related one. -/
theorem Field.AllVaryBy.length_eq {fields others : List Field}
    (h : Field.AllVaryBy leaf limits fields others) : fields.length = others.length := by
  induction fields generalizing others with
  | nil => rw [show others = [] from h]
  | cons field fields ih =>
    obtain ⟨name, shape⟩ := field
    obtain ⟨shape', fields', rfl, -, hFields⟩ := h
    exact congrArg (· + 1) (ih hFields)

mutual

/-- If related leaves cannot be told apart by the container around them, no related shapes can. -/
theorem Shape.VariesBy.slotAlike
    (hleaf : ∀ {shape other}, leaf shape other → shape.SlotAlike other) :
    {shape other : Shape} → shape.VariesBy leaf limits other → shape.Sound → other.Sound →
    shape.SlotAlike other
  | .vector element length, _, h, hSound, hOther => by
    obtain ⟨element', rfl, h⟩ := h
    have ih : element.SlotAlike element' := Shape.VariesBy.slotAlike hleaf h hSound.2.1 hOther.2.1
    refine ⟨ih.isFixed_eq, rfl, ?_⟩
    rw [Shape.slotSize, Shape.slotSize, ih.isFixed_eq, ih.slotSize_eq]
  | .list _ _, _, h, _, _ => by
    obtain ⟨element', limit', rfl, -, -⟩ := h
    exact ⟨rfl, rfl, rfl⟩
  | .container schema, _, h, hSound, hOther => by
    obtain ⟨schema', rfl, h⟩ := h
    obtain ⟨hFixed, hPart⟩ := Schema.VariesBy.fixed_eq hleaf h hSound hOther
    refine ⟨hFixed, rfl, ?_⟩
    rw [Shape.slotSize, Shape.slotSize, hFixed, hPart]
  | .boolean, _, h, _, _ | .uint _, _, h, _, _ | .byteVector _, _, h, _, _
  | .byteList _, _, h, _, _ | .bitvector _, _, h, _, _ | .bitlist _, _, h, _, _ => hleaf h

/-- Related containers have fixed parts of the same size, and are of fixed size alike. -/
theorem Schema.VariesBy.fixed_eq
    (hleaf : ∀ {shape other}, leaf shape other → shape.SlotAlike other) :
    {schema other : Schema} → schema.VariesBy leaf limits other → schema.Sound → other.Sound →
    schema.isFixed = other.isFixed ∧ schema.fixedPart = other.fixedPart
  | ⟨_, fields, _, _, _⟩, ⟨_, fields', _, _, _⟩, h, hSound, hOther => by
    obtain ⟨-, -, hFields, hPart, -, hFixed⟩ := hSound
    obtain ⟨-, -, hFields', hPart', -, hFixed'⟩ := hOther
    obtain ⟨hall, hsum⟩ := Field.AllVaryBy.slots_eq hleaf h.2 hFields hFields'
    exact ⟨hFixed.trans (hall.trans hFixed'.symm), hPart.trans (hsum.trans hPart'.symm)⟩

/-- Related fields have the same slots, and are of fixed size alike. -/
theorem Field.AllVaryBy.slots_eq
    (hleaf : ∀ {shape other}, leaf shape other → shape.SlotAlike other) :
    {fields others : List Field} → Field.AllVaryBy leaf limits fields others →
    Field.AllSound fields → Field.AllSound others →
    fields.all (·.shape.isFixed) = others.all (·.shape.isFixed) ∧
      Field.slotSum fields = Field.slotSum others
  | [], _, h, _, _ => by
    rw [show _ = [] from h]
    exact ⟨rfl, rfl⟩
  | ⟨_, _⟩ :: _, _, h, hSound, hOther => by
    obtain ⟨shape', fields', rfl, hShape, hFields⟩ := h
    have hSlot := Shape.VariesBy.slotAlike hleaf hShape hSound.1 hOther.1
    obtain ⟨hall, hsum⟩ := Field.AllVaryBy.slots_eq hleaf hFields hSound.2 hOther.2
    rw [List.all_cons, List.all_cons, Field.slotSum_cons, Field.slotSum_cons, hSlot.isFixed_eq,
      hSlot.slotSize_eq, hall, hsum]
    exact ⟨rfl, rfl⟩

end

/-- Containers whose fields are written alike are written alike. -/
theorem Schema.encodeFields_congr {schema other : Schema} {values values' : List Value}
    (hLength : values.length = schema.fields.length)
    (hLength' : values'.length = other.fields.length)
    (h : Field.encodeAll schema.fields values = Field.encodeAll other.fields values') :
    schema.encodeFields (.container values) = other.encodeFields (.container values') := by
  cases schema
  cases other
  rw [encodeFields, encodeFields, containerFields_eq_ok.mpr ⟨rfl, hLength⟩,
    containerFields_eq_ok.mpr ⟨rfl, hLength'⟩]
  exact congrArg (· >>= fun encoded =>
    joinItems (encoded.map fixedPartOf) (encoded.filterMap bodyOf?)) h

end BeaconSsz

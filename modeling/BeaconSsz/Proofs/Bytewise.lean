import BeaconSsz.Proofs.Root.Plain
import BeaconSsz.Proofs.Schema.Variation
import BeaconSsz.Proofs.Wire.RoundTrip

/-!
# Byte strings and sequences of their bytes

Byte strings have shapes of their own, which are written, read and hashed as a whole. They may be
replaced by vectors and lists of integers of one byte anywhere inside a schema: with every byte
string replaced by the sequence of its bytes, values are written, read, checked and hashed alike,
with the same errors and the same traps.
-/

namespace BeaconSsz

/-- The bytes of a string as values. -/
def byteElements (content : Bytes) : List Value :=
  content.map fun byte => .uint byte.toUInt64

/-- The second shape is the first one, or the sequence of bytes in the place of a byte string. -/
inductive Shape.Unrolled : Shape → Shape → Prop
  | same (shape : Shape) : Unrolled shape shape
  | byteVector (length : UInt64) : Unrolled (.byteVector length) (.vector (.uint 1) length)
  | byteList (limit : UInt64) : Unrolled (.byteList limit) (.list (.uint 1) limit)

/-- Some byte strings inside the first shape are sequences of bytes in the second one. -/
def Shape.UnrollsTo : Shape → Shape → Prop :=
  Shape.VariesBy Shape.Unrolled Eq

/-- Some byte strings inside the first schema are sequences of bytes in the second one. -/
def Schema.UnrollsTo : Schema → Schema → Prop :=
  Schema.VariesBy Shape.Unrolled Eq

/-- Some byte strings inside the first fields are sequences of bytes in the second ones. -/
def Field.AllUnrollTo : List Field → List Field → Prop :=
  Field.AllVaryBy Shape.Unrolled Eq

/-- The values are equal, or they are a byte string and the sequence of its bytes where the shapes
are. -/
inductive Shape.LeafCorresponds : Shape → Shape → Value → Value → Prop
  | same (shape : Shape) (value : Value) : LeafCorresponds shape shape value value
  | byteVector (length : UInt64) (content : Bytes) :
    LeafCorresponds (.byteVector length) (.vector (.uint 1) length) (.bytes content)
      (.sequence (byteElements content))
  | byteList (limit : UInt64) (content : Bytes) :
    LeafCorresponds (.byteList limit) (.list (.uint 1) limit) (.bytes content)
      (.sequence (byteElements content))

mutual

/-- The values differ only where the second shape has the sequence of bytes for a byte string. -/
def Shape.Corresponds : Shape → Shape → Value → Value → Prop
  | .vector element _, other, value, value' =>
    ∃ element' length elements elements', other = .vector element' length ∧
      value = .sequence elements ∧ value' = .sequence elements' ∧
      List.Forall₂ (element.Corresponds element') elements elements'
  | .list element _, other, value, value' =>
    ∃ element' limit elements elements', other = .list element' limit ∧
      value = .sequence elements ∧ value' = .sequence elements' ∧
      List.Forall₂ (element.Corresponds element') elements elements'
  | .container schema, other, value, value' =>
    ∃ schema', other = .container schema' ∧ schema.Corresponds schema' value value'
  | .boolean, other, value, value' => Shape.LeafCorresponds .boolean other value value'
  | .uint width, other, value, value' => Shape.LeafCorresponds (.uint width) other value value'
  | .byteVector length, other, value, value' =>
    Shape.LeafCorresponds (.byteVector length) other value value'
  | .byteList limit, other, value, value' =>
    Shape.LeafCorresponds (.byteList limit) other value value'
  | .bitvector length, other, value, value' =>
    Shape.LeafCorresponds (.bitvector length) other value value'
  | .bitlist limit, other, value, value' =>
    Shape.LeafCorresponds (.bitlist limit) other value value'

/-- The values are containers whose parts correspond field by field. -/
def Schema.Corresponds : Schema → Schema → Value → Value → Prop
  | ⟨_, fields, _, _, _⟩, ⟨_, fields', _, _, _⟩, value, value' =>
    ∃ values values', value = .container values ∧ value' = .container values' ∧
      Field.AllCorrespond fields fields' values values'

/-- There is a value on both sides for each field, and the two correspond. -/
def Field.AllCorrespond : List Field → List Field → List Value → List Value → Prop
  | [], [], [], [] => True
  | ⟨_, shape⟩ :: fields, ⟨_, shape'⟩ :: fields', value :: values, value' :: values' =>
    shape.Corresponds shape' value value' ∧ Field.AllCorrespond fields fields' values values'
  | _, _, _, _ => False

end

/-- The container around them cannot tell byte strings from sequences of bytes. -/
theorem Shape.Unrolled.slotAlike {shape other : Shape} (h : shape.Unrolled other) :
    shape.SlotAlike other := by
  cases h with
  | same => exact ⟨rfl, rfl, rfl⟩
  | byteVector length => exact ⟨rfl, rfl, (Nat.one_mul _).symm⟩
  | byteList limit => exact ⟨rfl, rfl, rfl⟩

/-- Nor can it tell shapes with byte strings from shapes with sequences of bytes. -/
theorem Shape.UnrollsTo.slotAlike {shape other : Shape} (h : shape.UnrollsTo other)
    (hSound : shape.Sound) (hOther : other.Sound) : shape.SlotAlike other :=
  Shape.VariesBy.slotAlike Shape.Unrolled.slotAlike h hSound hOther

/-- Basic shapes are the same on both sides, and so are their values. -/
theorem Shape.UnrollsTo.eq_of_isBasic {shape other : Shape} (h : shape.UnrollsTo other)
    {values values' : List Value}
    (hValues : List.Forall₂ (shape.Corresponds other) values values')
    (hBasic : shape.isBasic = true) : shape = other ∧ values = values' := by
  cases shape with
  | boolean =>
    cases h
    exact ⟨rfl, List.forall₂_eq_eq_eq ▸ hValues.imp fun _ _ h => by cases h; rfl⟩
  | uint width =>
    cases h
    exact ⟨rfl, List.forall₂_eq_eq_eq ▸ hValues.imp fun _ _ h => by cases h; rfl⟩
  | _ => simp [Shape.isBasic] at hBasic

/-! ### One byte string -/

section Content

variable (content : Bytes)

/-- There is one element for each byte. -/
@[simp] theorem length_byteElements : (byteElements content).length = content.length :=
  List.length_map _

/-- An integer of one byte passes. -/
theorem checkUint_byte (byte : UInt8) :
    checkUint byte.toUInt64.toNat (1 : UInt64).toNat = .ok () := by
  rw [checkUint_eq_ok (by decide) (byte.toUInt64.toNat_lt.trans_le (by decide))]
  simpa using byte.toNat_lt

/-- An integer of one byte is written as the byte. -/
theorem encode_byte (byte : UInt8) : (Shape.uint 1).encode (.uint byte.toUInt64) = .ok [byte] := by
  rw [Shape.encode, if_pos (by decide), checkUint_byte]
  have hbyte : Bytes.littleEndian 1 byte.toUInt64.toNat = [byte] := by
    simp [Bytes.littleEndian]
  exact congrArg Except.ok hbyte

/-- The elements are written one byte each. -/
theorem mapElements_byteElements :
    Encoding.mapElements (Shape.uint 1).encode (byteElements content) =
      .ok (content.map fun byte => [byte]) := by
  rw [Encoding.mapElements_eq_ok, byteElements, List.forall₂_map_left_iff,
    List.forall₂_map_right_iff, List.forall₂_same]
  exact fun byte _ => encode_byte byte

/-- The elements pass. -/
theorem forElements_byteElements :
    Encoding.forElements (Shape.uint 1).validate (byteElements content) = .ok () := by
  rw [Encoding.forElements_eq_ok, byteElements, List.forall_mem_map]
  intro byte _
  rw [Shape.validate, if_pos (by decide), checkUint_byte]

/-- The elements are packed into the same chunks as the string. -/
theorem basicSequenceRoot_byteElements (H : TreeHash) (capacity : UInt64) :
    basicSequenceRoot H (.uint 1) (byteElements content) capacity.toNat =
      packedRoot H content capacity.toNat bytesPerChunk := by
  have hbytes : (byteElements content).mapM (basicBytes (.uint 1)) =
      .ok (content.map fun byte => [byte]) := by
    rw [mapM_eq_ok, byteElements, List.forall₂_map_left_iff, List.forall₂_map_right_iff,
      List.forall₂_same]
    intro byte _
    rw [basicBytes, encode_byte]
  have hflat : (content.map fun byte => [byte]).flatten = content :=
    List.flatMap_singleton' content
  have hlength : Word.mul capacity.toNat 1 = .ok capacity.toNat :=
    Word.mul_eq_ok.mpr ⟨by simpa using toNat_lt_wordLimit capacity, Nat.mul_one _⟩
  rw [basicSequenceRoot, hbytes]
  change (Word.mul capacity.toNat 1 >>= fun length =>
    packedRoot H (content.map fun byte => [byte]).flatten length bytesPerChunk) = _
  rw [hlength, hflat]
  rfl

end Content

/-- Integers that fit one byte are the bytes of a string. -/
theorem exists_byteElements {elements : List Value}
    (h : ∀ value ∈ elements, (Shape.uint 1).Fits value) :
    ∃ content, elements = byteElements content := by
  have hbyte : ∀ value ∈ elements, ∃ byte : UInt8, value = .uint byte.toUInt64 := by
    intro value hvalue
    have hFits := h value hvalue
    cases value with
    | uint n =>
      have hn : n.toNat < 256 := hFits.2
      refine ⟨n.toUInt8, congrArg Value.uint (UInt64.toNat_inj.mp ?_)⟩
      simpa using (Nat.mod_eq_of_lt hn).symm
    | big n => exact absurd hFits.1 (by decide)
    | _ => exact hFits.elim
  obtain ⟨content, hcontent⟩ := exists_forall₂.mpr hbyte
  exact ⟨content, List.forall₂_eq_eq_eq ▸ List.forall₂_map_right_iff.mpr hcontent⟩

/-! ### Corresponding values -/

/-- The values are written, checked and hashed alike, each through its shape. -/
structure Shape.ActsAlike (shape other : Shape) (value value' : Value) : Prop where
  encode_eq : shape.encode value = other.encode value'
  validate_eq : shape.validate value = other.validate value'
  root_eq (H : TreeHash) : shape.root H value = other.root H value'

namespace Shape

/-- A byte string of given length acts like the vector of its bytes. -/
theorem actsAlike_byteVector (length : UInt64) (content : Bytes) :
    (byteVector length).ActsAlike (.vector (.uint 1) length) (.bytes content)
      (.sequence (byteElements content)) where
  encode_eq := by
    rw [encode, encode, length_byteElements, mapElements_byteElements]
    exact congrArg (_ >>= ·) (funext fun _ => congrArg Except.ok (List.flatMap_singleton' _).symm)
  validate_eq := by
    rw [validate, validate, length_byteElements, forElements_byteElements]
    cases checkExactLength content.length length.toNat <;> rfl
  root_eq H := by
    rw [root, root_vector, elementsRoot, if_pos (by rfl), basicSequenceRoot_byteElements]

/-- A byte string of bounded length acts like the list of its bytes. -/
theorem actsAlike_byteList (limit : UInt64) (content : Bytes) :
    (byteList limit).ActsAlike (.list (.uint 1) limit) (.bytes content)
      (.sequence (byteElements content)) where
  encode_eq := by
    rw [encode, encode, length_byteElements, mapElements_byteElements]
    exact congrArg (_ >>= ·) (funext fun _ => congrArg Except.ok (List.flatMap_singleton' _).symm)
  validate_eq := by
    rw [validate, validate, length_byteElements, forElements_byteElements]
    cases checkLimit content.length limit.toNat <;> rfl
  root_eq H := by
    rw [root, root_list, elementsRoot, if_pos (by rfl), basicSequenceRoot_byteElements,
      length_byteElements]

section Elements

variable {element element' : Shape} {elements elements' : List Value}
  (hSlot : element.SlotAlike element')
  (hParts : List.Forall₂ (element.ActsAlike element') elements elements')
  (hBasic : element.isBasic = true → element = element' ∧ elements = elements')

include hSlot hParts hBasic

/-- Sequences whose elements act alike have the same root, be the elements packed or not. -/
theorem elementsRoot_eq (H : TreeHash) (capacity : Nat) :
    element.elementsRoot H elements capacity = element'.elementsRoot H elements' capacity := by
  rw [elementsRoot, elementsRoot, ← hSlot.isBasic_eq]
  split
  · next h =>
    obtain ⟨rfl, rfl⟩ := hBasic h
    rfl
  · rw [mapM_eq_of_forall₂ (hParts.imp fun _ _ h => h.root_eq H)]

/-- Vectors whose elements act alike do so. -/
theorem actsAlike_vector (length : UInt64) :
    (vector element length).ActsAlike (.vector element' length) (.sequence elements)
      (.sequence elements') where
  encode_eq := by
    rw [encode, encode, hParts.length_eq, hSlot.isFixed_eq,
      Encoding.mapElements_eq_of_forall₂ (hParts.imp fun _ _ h => h.encode_eq)]
  validate_eq := by
    rw [validate, validate, hParts.length_eq,
      Encoding.forElements_eq_of_forall₂ (hParts.imp fun _ _ h => h.validate_eq)]
  root_eq H := by
    rw [root_vector, root_vector, elementsRoot_eq hSlot hParts hBasic]

/-- Lists whose elements act alike do so. -/
theorem actsAlike_list (limit : UInt64) :
    (list element limit).ActsAlike (.list element' limit) (.sequence elements)
      (.sequence elements') where
  encode_eq := by
    rw [encode, encode, hParts.length_eq, hSlot.isFixed_eq,
      Encoding.mapElements_eq_of_forall₂ (hParts.imp fun _ _ h => h.encode_eq)]
  validate_eq := by
    rw [validate, validate, hParts.length_eq,
      Encoding.forElements_eq_of_forall₂ (hParts.imp fun _ _ h => h.validate_eq)]
  root_eq H := by
    rw [root_list, root_list, elementsRoot_eq hSlot hParts hBasic, hParts.length_eq]

end Elements

end Shape

/-- Corresponding values of fields are as many as the fields. -/
theorem Field.AllCorrespond.length_eq {fields others : List Field} {values values' : List Value}
    (h : Field.AllCorrespond fields others values values') :
    values.length = fields.length ∧ values'.length = others.length := by
  induction fields generalizing others values values' with
  | nil =>
    match others, values, values', h with
    | [], [], [], _ => exact ⟨rfl, rfl⟩
  | cons field fields ih =>
    obtain ⟨name, shape⟩ := field
    match others, values, values', h with
    | ⟨_, _⟩ :: _, _ :: _, _ :: _, ⟨_, h⟩ =>
      exact ⟨congrArg (· + 1) (ih h).1, congrArg (· + 1) (ih h).2⟩

/-- At a single place, a byte string and the sequence of its bytes act alike. -/
theorem Shape.LeafCorresponds.actsAlike {shape other : Shape} {value value' : Value}
    (h : shape.LeafCorresponds other value value') : shape.ActsAlike other value value' := by
  cases h with
  | same => exact ⟨rfl, rfl, fun _ => rfl⟩
  | byteVector length content => exact Shape.actsAlike_byteVector length content
  | byteList limit content => exact Shape.actsAlike_byteList limit content

mutual

/-- Corresponding values act alike. -/
theorem Shape.Corresponds.actsAlike : {shape other : Shape} → shape.UnrollsTo other →
    shape.Sound → other.Sound → {value value' : Value} → shape.Corresponds other value value' →
    shape.ActsAlike other value value'
  | .vector element length, _, h, hSound, hOther, _, _, hValues => by
    obtain ⟨element', rfl, h⟩ := h
    obtain ⟨_, _, elements, elements', ⟨⟩, rfl, rfl, hValues⟩ := hValues
    have hElement : element.Sound := hSound.2.1
    have hElement' : element'.Sound := hOther.2.1
    exact Shape.actsAlike_vector (Shape.UnrollsTo.slotAlike h hElement hElement')
      (hValues.imp fun _ _ hValue => Shape.Corresponds.actsAlike h hElement hElement' hValue)
      (Shape.UnrollsTo.eq_of_isBasic h hValues) length
  | .list element limit, _, h, hSound, hOther, _, _, hValues => by
    obtain ⟨element', limit', rfl, rfl, h⟩ := h
    obtain ⟨_, _, elements, elements', ⟨⟩, rfl, rfl, hValues⟩ := hValues
    have hElement : element.Sound := hSound.1
    have hElement' : element'.Sound := hOther.1
    exact Shape.actsAlike_list (Shape.UnrollsTo.slotAlike h hElement hElement')
      (hValues.imp fun _ _ hValue => Shape.Corresponds.actsAlike h hElement hElement' hValue)
      (Shape.UnrollsTo.eq_of_isBasic h hValues) limit
  | .container schema, _, h, hSound, hOther, value, value', hValues => by
    obtain ⟨schema', rfl, h⟩ := h
    obtain ⟨_, ⟨⟩, hValues⟩ := hValues
    obtain ⟨hEncode, hValidate, hRoot⟩ := Schema.Corresponds.actsAlike h hSound hOther hValues
    exact ⟨by rw [Shape.encode_container, Shape.encode_container, hEncode],
      by rw [Shape.validate, Shape.validate, hValidate],
      fun H => by rw [Shape.root_container, Shape.root_container, hRoot]⟩
  | .boolean, _, _, _, _, _, _, hValues | .uint _, _, _, _, _, _, _, hValues
  | .byteVector _, _, _, _, _, _, _, hValues | .byteList _, _, _, _, _, _, _, hValues
  | .bitvector _, _, _, _, _, _, _, hValues | .bitlist _, _, _, _, _, _, _, hValues =>
    Shape.LeafCorresponds.actsAlike hValues

/-- Corresponding containers are written, checked and hashed alike. -/
theorem Schema.Corresponds.actsAlike : {schema other : Schema} → schema.UnrollsTo other →
    schema.Sound → other.Sound → {value value' : Value} → schema.Corresponds other value value' →
    schema.encodeFields value = other.encodeFields value' ∧
      schema.validateFields value = other.validateFields value' ∧
      ∀ H, schema.root H value = other.root H value'
  | ⟨name, fields, _, _, _⟩, ⟨_, fields', _, _, _⟩, h, hSound, hOther, _, _, hValues => by
    obtain ⟨rfl, h⟩ := h
    obtain ⟨values, values', rfl, rfl, hValues⟩ := hValues
    have hFields : Field.AllSound fields := hSound.2.2.1
    have hFields' : Field.AllSound fields' := hOther.2.2.1
    obtain ⟨hEncode, hValidate, hRoot⟩ := Field.AllCorrespond.actsAlike h hFields hFields' hValues
    obtain ⟨hLength, hLength'⟩ := hValues.length_eq
    refine ⟨Schema.encodeFields_congr hLength hLength' hEncode, ?_, fun H => ?_⟩
    · rw [Schema.validateFields, Schema.validateFields, containerFields_eq_ok.mpr ⟨rfl, hLength⟩,
        containerFields_eq_ok.mpr ⟨rfl, hLength'⟩]
      exact hValidate
    · rw [Schema.root, Schema.root]
      simp only [if_pos hLength, if_pos hLength', hRoot H]

/-- Corresponding values of fields are written, checked and hashed alike. -/
theorem Field.AllCorrespond.actsAlike : {fields others : List Field} →
    Field.AllUnrollTo fields others → Field.AllSound fields → Field.AllSound others →
    {values values' : List Value} → Field.AllCorrespond fields others values values' →
    Field.encodeAll fields values = Field.encodeAll others values' ∧
      Field.validateAll fields values = Field.validateAll others values' ∧
      ∀ H, Field.rootAll H fields values = Field.rootAll H others values'
  | [], _, h, _, _, values, values', hValues => by
    obtain rfl : _ = [] := h
    match values, values', hValues with
    | [], [], _ => exact ⟨rfl, rfl, fun _ => rfl⟩
  | ⟨name, shape⟩ :: fields, _, h, hSound, hOther, values, values', hValues => by
    obtain ⟨shape', fields', rfl, hShape, hFields⟩ := h
    match values, values', hValues with
    | value :: values, value' :: values', ⟨hValue, hValues⟩ =>
      have hAct := Shape.Corresponds.actsAlike hShape hSound.1 hOther.1 hValue
      have hSlot := Shape.UnrollsTo.slotAlike hShape hSound.1 hOther.1
      obtain ⟨hEncode, hValidate, hRoot⟩ :=
        Field.AllCorrespond.actsAlike hFields hSound.2 hOther.2 hValues
      refine ⟨?_, ?_, fun H => ?_⟩
      · rw [Field.encodeAll, Field.encodeAll, hAct.encode_eq, hEncode, hSlot.isFixed_eq]
      · rw [Field.validateAll, Field.validateAll, hAct.validate_eq, hValidate]
      · rw [Field.rootAll, Field.rootAll, hAct.root_eq, hRoot]

end

/-! ### Values on both sides -/

/-- What fits a place has a counterpart at the other one. -/
theorem Shape.Unrolled.exists_right {shape other : Shape} (h : shape.Unrolled other)
    {value : Value} (hFits : shape.Fits value) :
    ∃ value', shape.LeafCorresponds other value value' := by
  cases h with
  | same => exact ⟨value, .same shape value⟩
  | byteVector length =>
    cases value with
    | bytes content => exact ⟨_, .byteVector length content⟩
    | _ => exact hFits.elim
  | byteList limit =>
    cases value with
    | bytes content => exact ⟨_, .byteList limit content⟩
    | _ => exact hFits.elim

/-- What fits the other place is a counterpart. -/
theorem Shape.Unrolled.exists_left {shape other : Shape} (h : shape.Unrolled other)
    {value' : Value} (hFits : other.Fits value') :
    ∃ value, shape.LeafCorresponds other value value' := by
  cases h with
  | same => exact ⟨value', .same shape value'⟩
  | byteVector length =>
    cases value' with
    | sequence elements =>
      obtain ⟨content, rfl⟩ := exists_byteElements hFits.2
      exact ⟨_, .byteVector length content⟩
    | _ => exact hFits.elim
  | byteList limit =>
    cases value' with
    | sequence elements =>
      obtain ⟨content, rfl⟩ := exists_byteElements hFits.2
      exact ⟨_, .byteList limit content⟩
    | _ => exact hFits.elim

mutual

/-- A value that fits the first shape has a counterpart. -/
theorem Shape.UnrollsTo.exists_right : {shape other : Shape} → shape.UnrollsTo other →
    {value : Value} → shape.Fits value → ∃ value', shape.Corresponds other value value'
  | .vector element length, _, h, value, hFits => by
    obtain ⟨element', rfl, h⟩ := h
    cases value with
    | sequence elements =>
      obtain ⟨elements', hParts⟩ := exists_forall₂.mpr fun part hPart =>
        Shape.UnrollsTo.exists_right h (hFits.2 part hPart)
      exact ⟨_, element', length, elements, elements', rfl, rfl, rfl, hParts⟩
    | _ => exact hFits.elim
  | .list element limit, _, h, value, hFits => by
    obtain ⟨element', limit', rfl, -, h⟩ := h
    cases value with
    | sequence elements =>
      obtain ⟨elements', hParts⟩ := exists_forall₂.mpr fun part hPart =>
        Shape.UnrollsTo.exists_right h (hFits.2 part hPart)
      exact ⟨_, element', limit', elements, elements', rfl, rfl, rfl, hParts⟩
    | _ => exact hFits.elim
  | .container schema, _, h, value, hFits => by
    obtain ⟨schema', rfl, h⟩ := h
    rw [Shape.Fits] at hFits
    obtain ⟨value', hValue⟩ := Schema.UnrollsTo.exists_right h hFits
    exact ⟨value', schema', rfl, hValue⟩
  | .boolean, _, h, _, hFits | .uint _, _, h, _, hFits | .byteVector _, _, h, _, hFits
  | .byteList _, _, h, _, hFits | .bitvector _, _, h, _, hFits | .bitlist _, _, h, _, hFits =>
    Shape.Unrolled.exists_right h hFits

/-- A value that fits the first schema has a counterpart. -/
theorem Schema.UnrollsTo.exists_right : {schema other : Schema} → schema.UnrollsTo other →
    {value : Value} → schema.Fits value → ∃ value', schema.Corresponds other value value'
  | ⟨_, fields, _, _, _⟩, ⟨_, _, _, _, _⟩, ⟨_, h⟩, value, hFits => by
    cases value with
    | container values =>
      obtain ⟨values', hValues⟩ := Field.AllUnrollTo.exists_right h hFits
      exact ⟨_, values, values', rfl, rfl, hValues⟩
    | _ => exact hFits.elim

/-- Values that fit the first fields have counterparts. -/
theorem Field.AllUnrollTo.exists_right : {fields others : List Field} →
    Field.AllUnrollTo fields others → {values : List Value} → Field.AllFit fields values →
    ∃ values', Field.AllCorrespond fields others values values'
  | [], _, h, [], _ => by
    obtain rfl : _ = [] := h
    exact ⟨[], trivial⟩
  | ⟨_, _⟩ :: _, _, h, _ :: _, ⟨hFits, hAll⟩ => by
    obtain ⟨shape', fields', rfl, hShape, hFields⟩ := h
    obtain ⟨value', hValue⟩ := Shape.UnrollsTo.exists_right hShape hFits
    obtain ⟨values', hValues⟩ := Field.AllUnrollTo.exists_right hFields hAll
    exact ⟨value' :: values', hValue, hValues⟩

end

mutual

/-- A value that fits the second shape is a counterpart. -/
theorem Shape.UnrollsTo.exists_left : {shape other : Shape} → shape.UnrollsTo other →
    {value' : Value} → other.Fits value' → ∃ value, shape.Corresponds other value value'
  | .vector element length, _, h, value', hFits => by
    obtain ⟨element', rfl, h⟩ := h
    cases value' with
    | sequence elements' =>
      obtain ⟨elements, hParts⟩ := exists_forall₂.mpr fun part hPart =>
        Shape.UnrollsTo.exists_left h (hFits.2 part hPart)
      exact ⟨_, element', length, elements, elements', rfl, rfl, rfl, hParts.flip⟩
    | _ => exact hFits.elim
  | .list element limit, _, h, value', hFits => by
    obtain ⟨element', limit', rfl, -, h⟩ := h
    cases value' with
    | sequence elements' =>
      obtain ⟨elements, hParts⟩ := exists_forall₂.mpr fun part hPart =>
        Shape.UnrollsTo.exists_left h (hFits.2 part hPart)
      exact ⟨_, element', limit', elements, elements', rfl, rfl, rfl, hParts.flip⟩
    | _ => exact hFits.elim
  | .container schema, _, h, value', hFits => by
    obtain ⟨schema', rfl, h⟩ := h
    rw [Shape.Fits] at hFits
    obtain ⟨value, hValue⟩ := Schema.UnrollsTo.exists_left h hFits
    exact ⟨value, schema', rfl, hValue⟩
  | .boolean, _, h, _, hFits | .uint _, _, h, _, hFits | .byteVector _, _, h, _, hFits
  | .byteList _, _, h, _, hFits | .bitvector _, _, h, _, hFits | .bitlist _, _, h, _, hFits =>
    Shape.Unrolled.exists_left h hFits

/-- A value that fits the second schema is a counterpart. -/
theorem Schema.UnrollsTo.exists_left : {schema other : Schema} → schema.UnrollsTo other →
    {value' : Value} → other.Fits value' → ∃ value, schema.Corresponds other value value'
  | ⟨_, _, _, _, _⟩, ⟨_, _, _, _, _⟩, ⟨_, h⟩, value', hFits => by
    cases value' with
    | container values' =>
      obtain ⟨values, hValues⟩ := Field.AllUnrollTo.exists_left h hFits
      exact ⟨_, values, values', rfl, rfl, hValues⟩
    | _ => exact hFits.elim

/-- Values that fit the second fields are counterparts. -/
theorem Field.AllUnrollTo.exists_left : {fields others : List Field} →
    Field.AllUnrollTo fields others → {values' : List Value} → Field.AllFit others values' →
    ∃ values, Field.AllCorrespond fields others values values'
  | [], _, h, values', hFits => by
    obtain rfl : _ = [] := h
    match values', hFits with
    | [], _ => exact ⟨[], trivial⟩
  | ⟨_, _⟩ :: _, _, h, values', hFits => by
    obtain ⟨shape', fields', rfl, hShape, hFields⟩ := h
    match values', hFits with
    | _ :: _, ⟨hFits, hAll⟩ =>
      obtain ⟨value, hValue⟩ := Shape.UnrollsTo.exists_left hShape hFits
      obtain ⟨values, hValues⟩ := Field.AllUnrollTo.exists_left hFields hAll
      exact ⟨value :: values, hValue, hValues⟩

end

namespace Schema

/-- A drawn-up schema and one drawn up with sequences of bytes for some of its byte strings cannot
be told apart. Their fixed parts are of the same size, and they are of fixed size alike.
Corresponding values are written, checked and hashed with the same outcome and read from the same
bytes. Whatever is valid or read on one side has a counterpart on the other, which is valid or read
from the same bytes as well. -/
theorem alike_of_unrollsTo {schema other : Schema} (hDrawn : schema.Drawn) (hOther : other.Drawn)
    (h : schema.UnrollsTo other) :
    (schema.fixedPart = other.fixedPart ∧ schema.isFixed = other.isFixed) ∧
    (∀ value value', schema.Corresponds other value value' →
      schema.serialize value = other.serialize value' ∧
      schema.validate value = other.validate value' ∧
      (∀ H, schema.root H value = other.root H value') ∧
      (∀ H, schema.hashTreeRoot H value = other.hashTreeRoot H value') ∧
      ∀ bytes, schema.deserialize bytes = .ok value ↔ other.deserialize bytes = .ok value') ∧
    (∀ bytes value, schema.deserialize bytes = .ok value →
      ∃ value', schema.Corresponds other value value' ∧ other.deserialize bytes = .ok value') ∧
    (∀ bytes value', other.deserialize bytes = .ok value' →
      ∃ value, schema.Corresponds other value value' ∧ schema.deserialize bytes = .ok value) ∧
    (∀ value, schema.validate value = .ok () →
      ∃ value', schema.Corresponds other value value' ∧ other.validate value' = .ok ()) ∧
    (∀ value', other.validate value' = .ok () →
      ∃ value, schema.Corresponds other value value' ∧ schema.validate value = .ok ()) := by
  have hSound := sound_of_drawn hDrawn
  have hSound' := sound_of_drawn hOther
  obtain ⟨hFixed, hPart⟩ := VariesBy.fixed_eq Shape.Unrolled.slotAlike h hSound hSound'
  have hName : schema.name = other.name := VariesBy.name_eq h
  have hSerialize {value value' : Value} (hValue : schema.Corresponds other value value') :
      schema.serialize value = other.serialize value' := by
    rw [serialize, serialize, hName, (hValue.actsAlike h hSound hSound').1]
  have hValidate {value value' : Value} (hValue : schema.Corresponds other value value') :
      schema.validate value = other.validate value' := by
    rw [validate, validate, hName, (hValue.actsAlike h hSound hSound').2.1]
  have hRead {value value' : Value} (hValue : schema.Corresponds other value value')
      (bytes : Bytes) :
      schema.deserialize bytes = .ok value ↔ other.deserialize bytes = .ok value' := by
    rw [deserialize_iff_serialize hDrawn, deserialize_iff_serialize hOther, hSerialize hValue]
  refine ⟨⟨hPart, hFixed⟩, fun value value' hValue => ?_, fun bytes value hBytes => ?_,
    fun bytes value' hBytes => ?_, fun value hValid => ?_, fun value' hValid => ?_⟩
  · obtain ⟨-, -, hRoot⟩ := hValue.actsAlike h hSound hSound'
    refine ⟨hSerialize hValue, hValidate hValue, hRoot, fun H => ?_, hRead hValue⟩
    rw [hashTreeRoot, hashTreeRoot, hValidate hValue, hRoot]
  -- Only what fits is written, and what fits has a counterpart.
  · have hFits := fits_of_serialize hDrawn ((deserialize_iff_serialize hDrawn).mp hBytes)
    obtain ⟨value', hValue⟩ := UnrollsTo.exists_right h hFits
    exact ⟨value', hValue, (hRead hValue bytes).mp hBytes⟩
  · have hFits := fits_of_serialize hOther ((deserialize_iff_serialize hOther).mp hBytes)
    obtain ⟨value, hValue⟩ := UnrollsTo.exists_left h hFits
    exact ⟨value, hValue, (hRead hValue bytes).mpr hBytes⟩
  · obtain ⟨value', hValue⟩ := UnrollsTo.exists_right h ((validate_eq_ok hDrawn).mp hValid)
    exact ⟨value', hValue, hValidate hValue ▸ hValid⟩
  · obtain ⟨value, hValue⟩ := UnrollsTo.exists_left h ((validate_eq_ok hOther).mp hValid)
    exact ⟨value, hValue, (hValidate hValue).trans hValid⟩

/-- A container with a byte string of given length and one of bounded length. -/
def entryExample : Schema :=
  ⟨"Entry", [⟨"tag", .byteVector 2⟩, ⟨"text", .byteList 5⟩], 6, false, 0⟩

/-- The same container with a sequence of bytes for the second string. -/
def spelledEntryExample : Schema :=
  ⟨"Entry", [⟨"tag", .byteVector 2⟩, ⟨"text", .list (.uint 1) 5⟩], 6, false, 0⟩

/-- A container with byte strings in a list and in containers of a vector. -/
def stringsExample : Schema :=
  ⟨"Strings", [⟨"key", .byteVector 3⟩, ⟨"notes", .list (.byteList 8) 4⟩,
    ⟨"pair", .vector (.container entryExample) 2⟩], 11, false, 1⟩

/-- The same container with sequences of bytes for its strings, but for those called `tag`. -/
def spelledExample : Schema :=
  ⟨"Strings", [⟨"key", .vector (.uint 1) 3⟩, ⟨"notes", .list (.list (.uint 1) 8) 4⟩,
    ⟨"pair", .vector (.container spelledEntryExample) 2⟩], 11, false, 1⟩

/-- A value of the container of strings. -/
def stringsValue : Value :=
  .container [.bytes [7, 8, 9], .sequence [.bytes [1, 2], .bytes [3]],
    .sequence [.container [.bytes [5, 6], .bytes []], .container [.bytes [4, 5], .bytes [6]]]]

/-- The same value with sequences of bytes for these strings. -/
def spelledValue : Value :=
  .container [.sequence (byteElements [7, 8, 9]),
    .sequence [.sequence (byteElements [1, 2]), .sequence (byteElements [3])],
    .sequence [.container [.bytes [5, 6], .sequence (byteElements [])],
      .container [.bytes [4, 5], .sequence (byteElements [6])]]]

/-- The bytes of both values. -/
def stringsBytes : Bytes :=
  [7, 8, 9, 11, 0, 0, 0, 22, 0, 0, 0, 8, 0, 0, 0, 10, 0, 0, 0, 1, 2, 3, 8, 0, 0, 0, 14, 0, 0, 0,
    5, 6, 6, 0, 0, 0, 4, 5, 6, 0, 0, 0, 6]

/-- The two values are written as the same bytes, read from them and hashed to the same root. -/
theorem alike_stringsExample :
    stringsExample.Drawn ∧ spelledExample.Drawn ∧ stringsExample.UnrollsTo spelledExample ∧
      stringsExample.Corresponds spelledExample stringsValue spelledValue ∧
      stringsExample.serialize stringsValue = .ok stringsBytes ∧
      spelledExample.serialize spelledValue = .ok stringsBytes ∧
      spelledExample.deserialize stringsBytes = .ok spelledValue ∧
      stringsExample.root TreeHash.sha256 stringsValue =
        spelledExample.root TreeHash.sha256 spelledValue := by
  have hDrawn : stringsExample.Drawn :=
    ⟨rfl, trivial, trivial, ⟨rfl, trivial, trivial, trivial⟩, trivial⟩
  have hOther : spelledExample.Drawn :=
    ⟨rfl, trivial, trivial, ⟨rfl, trivial, trivial, trivial⟩, trivial⟩
  have h : stringsExample.UnrollsTo spelledExample :=
    ⟨rfl, _, _, rfl, .byteVector 3, _, _, rfl, ⟨_, _, rfl, rfl, .byteList 8⟩, _, _, rfl,
      ⟨_, rfl, _, rfl, rfl, _, _, rfl, .same _, _, _, rfl, .byteList 5, rfl⟩, rfl⟩
  have hEntry (tag text : Bytes) :
      Shape.Corresponds (.container entryExample) (.container spelledEntryExample)
        (.container [.bytes tag, .bytes text])
        (.container [.bytes tag, .sequence (byteElements text)]) :=
    ⟨_, rfl, _, _, rfl, rfl, .same (.byteVector 2) _, .byteList 5 text, trivial⟩
  have hValue : stringsExample.Corresponds spelledExample stringsValue spelledValue := by
    refine ⟨_, _, rfl, rfl, .byteVector 3 _, ⟨_, _, _, _, rfl, rfl, rfl, ?_⟩,
      ⟨_, _, _, _, rfl, rfl, rfl, ?_⟩, trivial⟩
    · exact .cons (.byteList 8 [1, 2]) (.cons (.byteList 8 [3]) .nil)
    · exact .cons (hEntry [5, 6] []) (.cons (hEntry [4, 5] [6]) .nil)
  obtain ⟨-, hAlike, -⟩ := alike_of_unrollsTo hDrawn hOther h
  obtain ⟨hWrite, -, hRoot, -, hRead⟩ := hAlike _ _ hValue
  have hBytes : stringsExample.serialize stringsValue = .ok stringsBytes := by decide +kernel
  have hBytes' : stringsExample.deserialize stringsBytes = .ok stringsValue := by decide +kernel
  exact ⟨hDrawn, hOther, h, hValue, hBytes, hWrite ▸ hBytes, (hRead _).mp hBytes',
    hRoot TreeHash.sha256⟩

end Schema

end BeaconSsz

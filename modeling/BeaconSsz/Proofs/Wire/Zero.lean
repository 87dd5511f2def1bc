import BeaconSsz.Proofs.Schema.ZeroValue
import BeaconSsz.Proofs.Wire.Frame
import BeaconSsz.Proofs.Wire.Layout
import BeaconSsz.Proofs.Wire.Misfit

/-!
# All-zero values are written in zeros

The all-zero value of every leaf of fixed size is written in zeros, and putting zeros together
gives zeros. So it is with every shape of fixed size, and zeros are read as its all-zero value.
What is of variable size has offsets, and bit strings of no length have their delimiter; but
wherever a part of fixed size stands in an all-zero value, it is the all-zero value of its own
shape, so that the slots of fixed size hold zeros.
-/

namespace BeaconSsz

/-- Zero is written in zeros. -/
theorem Bytes.littleEndian_zero (width : Nat) : littleEndian width 0 = zeros width := by
  induction width with
  | zero => rfl
  | succ width ih =>
    rw [littleEndian, Nat.zero_div, ih]
    rfl

namespace Bits

/-- The bits of zeros are not set. -/
theorem flatMap_ofByte_zeros (count : Nat) :
    (Bytes.zeros count).flatMap ofByte = List.replicate (8 * count) false := by
  refine List.eq_replicate_iff.mpr ⟨?_, fun bit hbit => ?_⟩
  · rw [length_flatMap_ofByte, Bytes.zeros, List.length_replicate]
  · obtain ⟨byte, hbyte, hbit⟩ := List.mem_flatMap.mp hbit
    obtain rfl := List.eq_of_mem_replicate hbyte
    have hzero : ofByte 0 = List.replicate 8 false := by decide
    rw [hzero] at hbit
    exact List.eq_of_mem_replicate hbit

/-- Bits that are not set are packed into zeros. -/
theorem pack_replicate_false (count : Nat) :
    pack (List.replicate count false) = Bytes.zeros ((count + 7) / 8) := by
  refine pack_eq_iff.mpr ⟨8 * ((count + 7) / 8) - count, by omega, ?_⟩
  rw [flatMap_ofByte_zeros, List.replicate_append_replicate]
  congr 1
  omega

end Bits

/-- Zeros for the slots of shapes. -/
def zeroSlots (shapes : List Shape) : List Bytes :=
  shapes.map fun shape => Bytes.zeros shape.slotSize

/-- Slots of zeros make up a fixed part of zeros. -/
theorem flatten_zeroSlots (shapes : List Shape) :
    (zeroSlots shapes).flatten = Bytes.zeros (slotSum shapes) := by
  induction shapes with
  | nil => rfl
  | cons shape shapes ih =>
    rw [zeroSlots, List.map_cons, List.flatten_cons, ← zeroSlots, ih, slotSum_cons, Bytes.zeros,
      Bytes.zeros, List.replicate_append_replicate]
    rfl

/-- Slices of fixed size are all given. -/
theorem partsOf_of_all_fixed {shapes : List Shape} {slices : List Bytes}
    (hlength : shapes.length = slices.length) (h : ∀ shape ∈ shapes, shape.isFixed = true) :
    partsOf shapes slices = slices.map some := by
  induction shapes generalizing slices with
  | nil =>
    obtain rfl : slices = [] := List.length_eq_zero_iff.mp hlength.symm
    rfl
  | cons shape shapes ih =>
    obtain ⟨slice, slices, rfl⟩ := List.exists_cons_of_length_eq_add_one hlength.symm
    rw [List.forall_mem_cons] at h
    rw [partsOf_cons_fixed h.1, ih (by simpa using hlength) h.2, List.map_cons]

/-- Slices of fixed size are joined one after the other. -/
theorem joinItems_of_all_fixed {shapes : List Shape} {slices : List Bytes}
    (hlength : shapes.length = slices.length) (h : ∀ shape ∈ shapes, shape.isFixed = true) :
    joinItems (partsOf shapes slices) (bodiesOf shapes slices) = .ok slices.flatten := by
  rw [bodiesOf_of_all_fixed h, partsOf_of_all_fixed hlength h, joinItems_given]

mutual

/-- The all-zero value of a shape of fixed size is written in zeros. -/
theorem Shape.encode_zeroValue : {shape : Shape} → shape.Sound → shape.isFixed = true →
    shape.encode shape.zeroValue = .ok (Bytes.zeros shape.slotSize)
  | .boolean, _, _ => rfl
  | .uint width, hSound, _ => by
    have hmax := (toNat_of_mem_uintWidths hSound).2
    have hzero : checkUint 0 width.toNat = .ok () :=
      (checkUint_eq_ok hmax (by decide)).mpr (Nat.pow_pos (by decide))
    rw [Shape.encode_uint_eq_ok, Shape.zeroValue]
    split
    · next hnarrow => exact .inl ⟨hnarrow, 0, rfl, hzero, Bytes.littleEndian_zero _⟩
    · next hwide =>
      exact .inr ⟨UInt64.not_le.mp hwide, 0, rfl, hzero, Bytes.littleEndian_zero _⟩
  | .byteVector _, _, _ => Shape.encode_byteVector_eq_ok.mpr ⟨rfl, List.length_replicate⟩
  | .bitvector _, _, _ =>
    Shape.encode_bitvector_eq_ok.mpr ⟨_, rfl, List.length_replicate, Bits.pack_replicate_false _⟩
  | .vector element length, hSound, hFixed => by
    rw [Shape.isFixed] at hFixed
    have hElement := Shape.encode_zeroValue hSound.2.1 hFixed
    rw [Shape.encode_vector_eq_ok, Shape.zeroValue, Shape.slotSize, if_pos hFixed, hFixed]
    refine ⟨_, (List.replicate length.toNat element.zeroValue).map fun _ =>
      Bytes.zeros element.slotSize, rfl, List.length_replicate, ?_, ?_⟩
    · refine List.forall₂_map_left_iff.mpr (List.forall₂_same.mpr fun part hpart => ?_)
      obtain rfl := List.eq_of_mem_replicate hpart
      exact hElement
    · rw [joinElements_fixed, List.map_replicate, Bytes.zeros, List.flatten_replicate_replicate,
        Nat.mul_comm]
      rfl
  | .container schema, hSound, hFixed => by
    rw [Shape.isFixed] at hFixed
    rw [Shape.encode_container, Shape.zeroValue, Shape.slotSize, if_pos hFixed]
    exact Schema.encodeFields_zeroValue hSound hFixed

/-- The all-zero value of a container of fixed size is written in zeros. -/
theorem Schema.encodeFields_zeroValue : {schema : Schema} → schema.Sound →
    schema.isFixed = true →
    schema.encodeFields schema.zeroValue = .ok (Bytes.zeros schema.fixedPart)
  | ⟨_, fields, _, _, _⟩, ⟨_, _, hFields, hPart, _, hAll⟩, hFixed => by
    have hfixed : ∀ shape ∈ Field.shapes fields, shape.isFixed = true := by
      simpa [Field.shapes] using hAll.symm.trans hFixed
    have hlength : (Field.shapes fields).length = (zeroSlots (Field.shapes fields)).length := by
      rw [zeroSlots, List.length_map]
    rw [Schema.encodeFields_eq_ok]
    refine ⟨_, zeroSlots (Field.shapes fields), rfl, Field.each_zeroSlots hFields hfixed, ?_⟩
    rw [joinItems_of_all_fixed hlength hfixed, flatten_zeroSlots, Field.slotSum_shapes, hPart]

/-- The all-zero values of fields of fixed size are written in zeros. -/
theorem Field.each_zeroSlots : {fields : List Field} → Field.AllSound fields →
    (∀ shape ∈ Field.shapes fields, shape.isFixed = true) →
    Field.Each Shape.Writes fields (zeroSlots (Field.shapes fields)) (Field.zeroValues fields)
  | [], _, _ => trivial
  | ⟨_, _⟩ :: _, ⟨hShape, hFields⟩, hFixed =>
    have h := List.forall_mem_cons.mp hFixed
    ⟨Shape.encode_zeroValue hShape h.1, Field.each_zeroSlots hFields h.2⟩

end

/-- The part of an all-zero container is the all-zero value of the field. -/
theorem Field.getElem?_zeroValues (fields : List Field) (index : Nat) :
    (Field.zeroValues fields)[index]? =
      fields[index]?.map fun field => field.shape.zeroValue := by
  induction fields generalizing index with
  | nil => simp [Field.zeroValues]
  | cons first fields ih =>
    obtain ⟨name, shape⟩ := first
    cases index with
    | zero => rfl
    | succ index => exact ih index

/-- The parts of the all-zero value of a sound shape are all-zero values of sound shapes. -/
theorem Shape.of_parts_zeroValue {shape inner : Shape} (hSound : shape.Sound) {position : Nat}
    {step : Step} {part : Value}
    (hpart : (shape.parts shape.zeroValue)[position]? = some (step, inner, part)) :
    inner.Sound ∧ part = inner.zeroValue := by
  cases shape with
  | container schema =>
    obtain ⟨name, fields, fixedPart, isFixed, edition⟩ := schema
    obtain ⟨-, -, hFields, -⟩ := hSound
    rw [Shape.zeroValue, Schema.zeroValue, Shape.parts,
      List.getElem?_zipWith_eq_some] at hpart
    obtain ⟨field, value, hfield, hvalue, h⟩ := hpart
    rw [Field.getElem?_zeroValues, hfield] at hvalue
    cases hvalue
    cases h
    exact ⟨hFields.get hfield, rfl⟩
  | vector element length =>
    rw [Shape.zeroValue, Shape.parts] at hpart
    obtain ⟨numbered, hnumbered, h⟩ := List.mem_map.mp (List.mem_of_getElem? hpart)
    cases h
    exact ⟨hSound.2.1, List.eq_of_mem_replicate (List.fst_mem_of_mem_zipIdx hnumbered)⟩
  | list element limit => simp [Shape.zeroValue, Shape.parts] at hpart
  | _ => simp [Shape.parts] at hpart

/-- Every place in the all-zero value of a sound shape is the all-zero value of a sound shape. -/
theorem Shape.Reaches.of_zeroValue {shape innermost : Shape} {value place : Value}
    {route : List Nat} {path : Path} (h : shape.Reaches value route path innermost place)
    (hSound : shape.Sound) (hvalue : value = shape.zeroValue) :
    innermost.Sound ∧ place = innermost.zeroValue := by
  induction h with
  | here => exact ⟨hSound, hvalue⟩
  | inward hpart _ ih =>
    rw [hvalue] at hpart
    obtain ⟨hInner, hpart⟩ := Shape.of_parts_zeroValue hSound hpart
    exact ih hInner hpart

namespace Schema

/-- The slots of fixed size of a written all-zero container hold zeros, and the contents of the
others are what is written for the all-zero values of their fields. -/
theorem slots_of_serialize_zeroValue {schema : Schema} (hSound : schema.Sound) {bytes : Bytes}
    (h : schema.encodeFields schema.zeroValue = .ok bytes) {index : Nat} {field : Field}
    (hfield : schema.fields[index]? = some field) :
    (field.shape.isFixed = true →
        schema.slotAt bytes index = Bytes.zeros field.shape.slotSize) ∧
      (field.shape.isFixed = false →
        field.shape.encode field.shape.zeroValue = .ok (schema.contentAt bytes index)) := by
  obtain ⟨values, slices, hvalues, heach, hjoin⟩ := encodeFields_eq_ok.mp h
  obtain ⟨name, fields, fixedPart, isFixed, edition⟩ := schema
  obtain ⟨-, -, hFields, hPart, -⟩ := hSound
  obtain rfl : Field.zeroValues fields = values := by
    rw [zeroValue] at hvalues
    exact Value.container.inj hvalues
  have hlaid := laid_of_joinItems hPart (Field.sized_of_each hFields heach) hjoin
  obtain ⟨slice, part, hslice, hpart, hwrites⟩ := heach.get hfield
  have hfield' : fields[index]? = some field := hfield
  rw [Field.getElem?_zeroValues, hfield'] at hpart
  cases hpart
  refine ⟨fun hfixed => ?_, fun hvariable => ?_⟩
  · rw [hlaid.slotAt_eq hfield hslice hfixed]
    have hzeros := Shape.encode_zeroValue (hFields.get hfield) hfixed
    exact Except.ok.inj (hwrites.symm.trans hzeros)
  · rw [hlaid.contentAt_eq hfield hslice hvariable]
    exact hwrites

/-- All-zero values fit, and zeros are what is written for them. A drawn-up schema has its all-zero
value made if the largest piece of memory that it takes can be had, and else the capacity of that
piece overflows. The value that is made is valid. If the schema is of fixed size, it is written in
zeros, as many as the fixed part has, and these are read as it. If the schema is of variable size,
every part of fixed size in the value is written in zeros, at any depth; the slots of fixed size of
what is written hold zeros, and it is read as the value. -/
theorem zeros_of_defaultValue {schema : Schema} (hDrawn : schema.Drawn) :
    (schema.largestPiece < Memory.limit → schema.defaultValue = .ok schema.zeroValue) ∧
    (Memory.limit ≤ schema.largestPiece → schema.defaultValue = .error .capacityOverflow) ∧
    ∀ value, schema.defaultValue = .ok value →
      schema.validate value = .ok () ∧
      (schema.isFixed = true →
        schema.serialize value = .ok (Bytes.zeros schema.fixedPart) ∧
          schema.deserialize (Bytes.zeros schema.fixedPart) = .ok value) ∧
      (schema.isFixed = false →
        (∀ route path innermost place, (Shape.container schema).Reaches value route path innermost
            place → innermost.isFixed = true →
          innermost.slotLength = .ok innermost.slotSize ∧
            innermost.encode place = .ok (Bytes.zeros innermost.slotSize)) ∧
        ∀ bytes, schema.serialize value = .ok bytes →
          schema.deserialize bytes = .ok value ∧
            ∀ index field, schema.fields[index]? = some field →
              (field.shape.isFixed = true →
                schema.slotAt bytes index = Bytes.zeros field.shape.slotSize) ∧
              (field.shape.isFixed = false →
                field.shape.encode field.shape.zeroValue =
                  .ok (schema.contentAt bytes index))) := by
  have hSound := sound_of_drawn hDrawn
  rw [defaultValue_eq]
  refine ⟨fun hroom => if_pos hroom, fun hlarge => if_neg (Nat.not_lt.mpr hlarge),
    fun value hvalue => ?_⟩
  obtain ⟨-, rfl⟩ := Memory.given_eq_ok.mp hvalue
  refine ⟨?_, fun hFixed => ?_, fun _ => ⟨?_, fun bytes hbytes => ⟨?_, ?_⟩⟩⟩
  · exact (validate_eq_ok hDrawn).mpr (fits_zeroValue hSound)
  · have hwrite : schema.serialize schema.zeroValue = .ok (Bytes.zeros schema.fixedPart) := by
      rw [serialize, Encoding.within_eq_ok]
      exact encodeFields_zeroValue hSound hFixed
    exact ⟨hwrite, (deserialize_iff_serialize hDrawn).mpr hwrite⟩
  · intro route path innermost place hreaches hFixed
    have hself : schema.zeroValue = (Shape.container schema).zeroValue := by
      rw [Shape.zeroValue]
    obtain ⟨hInner, rfl⟩ := hreaches.of_zeroValue hSound hself
    exact ⟨Shape.slotLength_eq hInner, Shape.encode_zeroValue hInner hFixed⟩
  · exact (deserialize_iff_serialize hDrawn).mpr hbytes
  · intro index field hfield
    rw [serialize, Encoding.within_eq_ok] at hbytes
    exact slots_of_serialize_zeroValue hSound hbytes hfield

/-- The bytes of the all-zero value of the example of variable size. -/
def zeroOuterBytes : Bytes :=
  [0, 12, 0, 0, 0, 12, 0, 0, 0, 0, 0, 0, 1]

/-- The smaller example is written in three zeros, and the larger one with zeros in the slots of
its flag and of the smaller one. -/
theorem zeros_of_outerExample :
    (∃ value, innerExample.defaultValue = .ok value ∧ innerExample.serialize value = .ok [0, 0, 0] ∧
      innerExample.deserialize [0, 0, 0] = .ok value) ∧
    ∃ value, outerExample.defaultValue = .ok value ∧ outerExample.validate value = .ok () ∧
      outerExample.serialize value = .ok zeroOuterBytes ∧
      outerExample.deserialize zeroOuterBytes = .ok value ∧
      outerExample.slotAt zeroOuterBytes 3 = [0, 0, 0] := by
  have hinner : innerExample.Drawn := ⟨rfl, trivial, trivial, trivial⟩
  constructor
  · obtain ⟨hmade, -, hzeros⟩ := zeros_of_defaultValue hinner
    have hvalue := hmade (by decide)
    obtain ⟨-, hfixed, -⟩ := hzeros _ hvalue
    exact ⟨_, hvalue, hfixed rfl⟩
  · obtain ⟨hmade, -, hzeros⟩ := zeros_of_defaultValue outerExample_drawn
    have hvalue := hmade (by decide)
    have h : outerExample.serialize outerExample.zeroValue = .ok zeroOuterBytes := by
      decide +kernel
    obtain ⟨hvalid, -, hvariable⟩ := hzeros _ hvalue
    obtain ⟨hread, hslots⟩ := (hvariable rfl).2 zeroOuterBytes h
    exact ⟨_, hvalue, hvalid, h, hread, (hslots 3 _ rfl).1 rfl⟩

/-- A vector of `2 ^ 59` bytes. -/
def immenseExample : Schema :=
  ⟨"Immense", [⟨"bytes", .vector (.uint 1) 0x800000000000000⟩], 0x800000000000000, true, 0⟩

/-- The schema of the vector can be drawn up, but no valid all-zero value is made for it: as
elements of a sequence, the bytes do not go into one piece of memory. -/
theorem defaultValue_immenseExample :
    immenseExample.Drawn ∧ immenseExample.defaultValue = .error .capacityOverflow ∧
      ¬ ∃ value, immenseExample.defaultValue = .ok value ∧
        immenseExample.validate value = .ok () := by
  have hDrawn : immenseExample.Drawn := ⟨rfl, trivial, trivial⟩
  have htrap : immenseExample.defaultValue = .error .capacityOverflow := by decide +kernel
  refine ⟨hDrawn, htrap, ?_⟩
  rintro ⟨value, hvalue, -⟩
  cases htrap.symm.trans hvalue

end Schema

end BeaconSsz

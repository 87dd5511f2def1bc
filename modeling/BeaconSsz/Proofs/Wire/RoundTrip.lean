import BeaconSsz.Proofs.Wire.Fit

/-!
# Reading is the inverse of writing

Under a sound shape, bytes are read as a value exactly when the value is written as the bytes.
Both directions are one induction over the shape, because at every level the bytes are the joined
parts of the level below. So each value has one encoding, and nothing else is read.
-/

namespace BeaconSsz

variable {value : Value} {bytes : Bytes}

/-- The items of a sequence: those of fixed size have the size of their slot, and joined they are
the bytes. -/
def Shape.Joins (element : Shape) (items : List Bytes) (bytes : Bytes) : Prop :=
  (element.isFixed = true → ∀ item ∈ items, item.length = element.slotSize) ∧
    joinElements element.isFixed items = .ok bytes

namespace Shape

/-- A boolean is read from one byte. -/
theorem decode_boolean_eq_ok :
    boolean.decode bytes = .ok value ↔
      ∃ b, value = .boolean b ∧ [if b then (1 : UInt8) else 0] = bytes := by
  simp only [decode, bind_eq_ok, pure_eq_ok, decodeBoolean_eq_ok]
  exact exists_congr fun b => and_comm.trans (and_congr_left fun _ => eq_comm)

/-- An integer is read from exactly the bytes that write it. -/
theorem decode_uint_iff {width : UInt64} (hwidth : width ∈ uintWidths) :
    (uint width).decode bytes = .ok value ↔ (uint width).encode value = .ok bytes := by
  rw [decode, encode_uint_eq_ok]
  by_cases hnarrow : width ≤ 8
  · have hread (n : UInt64) : decodeUint bytes width = .ok (.uint n) ↔
        checkUint n.toNat width.toNat = .ok () ∧
          Bytes.littleEndian width.toNat n.toNat = bytes :=
      decodeUint_eq_ok_uint hwidth hnarrow
    simp only [hnarrow, UInt64.not_lt.mpr hnarrow, true_and, false_and, or_false, ← hread]
    apply Iff.intro
    · intro h
      obtain ⟨-, hvalue⟩ := (decodeUint_eq_ok hwidth).mp h
      rw [uintOfNat, if_pos hnarrow] at hvalue
      exact ⟨_, hvalue.symm, hvalue ▸ h⟩
    · intro h
      obtain ⟨n, rfl, h⟩ := h
      exact h
  · have hwide := UInt64.not_le.mp hnarrow
    have hread (n : BitVec 256) : decodeUint bytes width = .ok (.big n) ↔
        checkUint n.toNat width.toNat = .ok () ∧
          Bytes.littleEndian width.toNat n.toNat = bytes :=
      decodeUint_eq_ok_big hwidth hwide
    simp only [hnarrow, hwide, true_and, false_and, false_or, ← hread]
    apply Iff.intro
    · intro h
      obtain ⟨-, hvalue⟩ := (decodeUint_eq_ok hwidth).mp h
      rw [uintOfNat, if_neg hnarrow] at hvalue
      exact ⟨_, hvalue.symm, hvalue ▸ h⟩
    · intro h
      obtain ⟨n, rfl, h⟩ := h
      exact h

/-- A byte string of given length is read as it is. -/
theorem decode_byteVector_eq_ok {length : UInt64} :
    (byteVector length).decode bytes = .ok value ↔
      value = .bytes bytes ∧ bytes.length = length.toNat := by
  rw [decode, check_bind_eq_ok, checkByteLength_eq_ok, pure_eq_ok, and_comm, eq_comm]

/-- A byte string of bounded length is read as it is. -/
theorem decode_byteList_eq_ok {limit : UInt64} :
    (byteList limit).decode bytes = .ok value ↔
      value = .bytes bytes ∧ bytes.length ≤ limit.toNat := by
  rw [decode]
  split_ifs with h
  · simp [h]
  · rw [Except.ok.injEq, eq_comm]
    exact ⟨fun heq => ⟨heq, Nat.not_lt.mp h⟩, And.left⟩

/-- A bit string of given length is read from the bytes that pack it. -/
theorem decode_bitvector_eq_ok {length : UInt64} (hlength : length.toNat + 7 < wordLimit) :
    (bitvector length).decode bytes = .ok value ↔
      ∃ bits, value = .bits bits ∧ bits.length = length.toNat ∧ Bits.pack bits = bytes := by
  simp only [decode, bind_eq_ok, pure_eq_ok, decodeBitvector_eq_ok hlength]
  exact exists_congr fun bits => and_comm.trans (and_congr_left fun _ => eq_comm)

/-- A bit string of bounded length is read from the bytes that pack it with its delimiter. -/
theorem decode_bitlist_eq_ok {limit : UInt64} :
    (bitlist limit).decode bytes = .ok value ↔
      ∃ bits, value = .bits bits ∧ bits.length ≤ limit.toNat ∧
        Bits.packDelimited bits = bytes := by
  simp only [decode, bind_eq_ok, pure_eq_ok, decodeBitlist_eq_ok (toNat_lt_wordLimit limit)]
  exact exists_congr fun bits => and_comm.trans (and_congr_left fun _ => eq_comm)

/-- A sequence of given length is read from its joined items. -/
theorem decode_vector_eq_ok {element : Shape} {length : UInt64}
    (hSound : (vector element length).Sound) :
    (vector element length).decode bytes = .ok value ↔
      ∃ elements items, value = .sequence elements ∧ items.length = length.toNat ∧
        List.Forall₂ element.Reads items elements ∧ element.Joins items bytes := by
  obtain ⟨-, hElement, hSize⟩ := hSound
  rw [decode]
  simp only [Joins]
  cases hFixed : element.isFixed with
  | true =>
    have hpos := slotSize_pos hElement
    simp only [↓reduceIte, slotLength_eq hElement, bind_eq_ok (α := Nat),
      bind_eq_ok (α := List Bytes), bind_eq_ok (α := List Value), Stop.orTrap_eq_ok,
      Except.ok.injEq, exists_eq_left', check_bind_eq_ok, checkByteLength_eq_ok,
      Word.saturatingMul_eq (hSize hFixed), cutElements_eq_ok hpos, Decoding.mapElements_eq_ok,
      pure_eq_ok, forall_const, joinElements_fixed]
    apply Iff.intro
    · intro h
      obtain ⟨hbytes, items, ⟨-, hfull, rfl⟩, elements, hitems, rfl⟩ := h
      rw [Bytes.length_flatten_of_full hfull, Nat.mul_comm] at hbytes
      exact ⟨elements, items, rfl, Nat.eq_of_mul_eq_mul_left hpos hbytes, hitems, hfull, rfl⟩
    · intro h
      obtain ⟨elements, items, rfl, hlength, hitems, hfull, rfl⟩ := h
      refine ⟨?_, items, ⟨hlength.le, hfull, rfl⟩, elements, hitems, rfl⟩
      rw [Bytes.length_flatten_of_full hfull, hlength, Nat.mul_comm]
  | false =>
    simp only [Bool.false_eq_true, ↓reduceIte, bind_eq_ok, splitItems_eq_ok, false_implies,
      true_and, joinElements_variable]
    apply Iff.intro
    · intro h
      obtain ⟨items, ⟨-, hjoin⟩, h⟩ := h
      split_ifs at h with hlength
      · simp only [bind_eq_ok, Decoding.mapElements_eq_ok, pure_eq_ok] at h
        obtain ⟨elements, hitems, rfl⟩ := h
        exact ⟨elements, items, rfl, hlength, hitems, hjoin⟩
      · simp at h
    · intro h
      obtain ⟨elements, items, rfl, hlength, hitems, hjoin⟩ := h
      refine ⟨items, ⟨hlength.le, hjoin⟩, ?_⟩
      simp only [if_pos hlength, bind_eq_ok, Decoding.mapElements_eq_ok, pure_eq_ok]
      exact ⟨elements, hitems, rfl⟩

/-- A sequence of bounded length is read from its joined items. -/
theorem decode_list_eq_ok {element : Shape} {limit : UInt64}
    (hSound : (list element limit).Sound) :
    (list element limit).decode bytes = .ok value ↔
      ∃ elements items, value = .sequence elements ∧ items.length ≤ limit.toNat ∧
        List.Forall₂ element.Reads items elements ∧ element.Joins items bytes := by
  obtain ⟨hElement, -⟩ := hSound
  rw [decode]
  simp only [Joins]
  cases hFixed : element.isFixed with
  | true =>
    simp only [↓reduceIte, slotLength_eq hElement, bind_eq_ok, Stop.orTrap_eq_ok, Except.ok.injEq,
      exists_eq_left', cutElements_eq_ok (slotSize_pos hElement), Decoding.mapElements_eq_ok,
      pure_eq_ok, forall_const, joinElements_fixed]
    apply Iff.intro
    · intro h
      obtain ⟨items, ⟨hlength, hfull, rfl⟩, elements, hitems, rfl⟩ := h
      exact ⟨elements, items, rfl, hlength, hitems, hfull, rfl⟩
    · intro h
      obtain ⟨elements, items, rfl, hlength, hitems, hfull, rfl⟩ := h
      exact ⟨items, ⟨hlength, hfull, rfl⟩, elements, hitems, rfl⟩
  | false =>
    simp only [Bool.false_eq_true, ↓reduceIte, bind_eq_ok, splitItems_eq_ok,
      Decoding.mapElements_eq_ok, pure_eq_ok, false_implies, true_and, joinElements_variable]
    apply Iff.intro
    · intro h
      obtain ⟨items, ⟨hlength, hjoin⟩, elements, hitems, rfl⟩ := h
      exact ⟨elements, items, rfl, hlength, hitems, hjoin⟩
    · intro h
      obtain ⟨elements, items, rfl, hlength, hitems, hjoin⟩ := h
      exact ⟨items, ⟨hlength, hjoin⟩, elements, hitems, rfl⟩

/-- Written elements of fixed size have the size of their slot, so joining them needs no further
condition. -/
theorem joins_iff_of_writes {element : Shape} (hSound : element.Sound) {items : List Bytes}
    {elements : List Value} (hitems : List.Forall₂ element.Writes items elements) :
    element.Joins items bytes ↔ joinElements element.isFixed items = .ok bytes := by
  refine and_iff_right fun hFixed => ?_
  exact ((List.forall₂_and_left _ _).mp (hitems.imp fun _ _ hvalue =>
    ⟨length_of_encode hSound hFixed hvalue, hvalue⟩)).1

end Shape

mutual

/-- Bytes are read as a value exactly when the value is written as the bytes. -/
theorem Shape.reads_iff_writes : {shape : Shape} → shape.Sound → {bytes : Bytes} →
    {value : Value} → (shape.Reads bytes value ↔ shape.Writes bytes value)
  | .boolean, _, _, _ => Shape.decode_boolean_eq_ok.trans Shape.encode_boolean_eq_ok.symm
  | .uint _, hSound, _, _ => Shape.decode_uint_iff hSound
  | .byteVector _, _, _, _ =>
    Shape.decode_byteVector_eq_ok.trans Shape.encode_byteVector_eq_ok.symm
  | .byteList _, _, _, _ => Shape.decode_byteList_eq_ok.trans Shape.encode_byteList_eq_ok.symm
  | .bitvector _, hSound, _, _ =>
    (Shape.decode_bitvector_eq_ok hSound.2).trans Shape.encode_bitvector_eq_ok.symm
  | .bitlist _, _, _, _ => Shape.decode_bitlist_eq_ok.trans Shape.encode_bitlist_eq_ok.symm
  | .vector element length, hSound, bytes, value => by
    have hElement : element.Sound := hSound.2.1
    have ih : element.Reads = element.Writes :=
      funext fun _ => funext fun _ => propext (Shape.reads_iff_writes hElement)
    rw [Shape.Reads, Shape.Writes, Shape.decode_vector_eq_ok hSound, Shape.encode_vector_eq_ok, ih]
    refine exists_congr fun elements => exists_congr fun items => and_congr_right fun _ => ?_
    apply Iff.intro
    · intro h
      obtain ⟨hlength, hitems, hjoin⟩ := h
      exact ⟨hitems.length_eq ▸ hlength, hitems,
        (Shape.joins_iff_of_writes hElement hitems).mp hjoin⟩
    · intro h
      obtain ⟨hlength, hitems, hjoin⟩ := h
      exact ⟨hitems.length_eq.trans hlength, hitems,
        (Shape.joins_iff_of_writes hElement hitems).mpr hjoin⟩
  | .list element limit, hSound, bytes, value => by
    have hElement : element.Sound := hSound.1
    have ih : element.Reads = element.Writes :=
      funext fun _ => funext fun _ => propext (Shape.reads_iff_writes hElement)
    rw [Shape.Reads, Shape.Writes, Shape.decode_list_eq_ok hSound, Shape.encode_list_eq_ok, ih]
    refine exists_congr fun elements => exists_congr fun items => and_congr_right fun _ => ?_
    apply Iff.intro
    · intro h
      obtain ⟨hlength, hitems, hjoin⟩ := h
      exact ⟨hitems.length_eq ▸ hlength, hitems,
        (Shape.joins_iff_of_writes hElement hitems).mp hjoin⟩
    · intro h
      obtain ⟨hlength, hitems, hjoin⟩ := h
      exact ⟨hitems.length_eq.trans_le hlength, hitems,
        (Shape.joins_iff_of_writes hElement hitems).mpr hjoin⟩
  | .container schema, hSound, _, _ => by
    rw [Shape.Reads, Shape.Writes, Shape.decode_container, Shape.encode_container]
    exact Schema.decodeFields_iff hSound

/-- The bytes of a container are read as a value exactly when the value is written as them. -/
theorem Schema.decodeFields_iff : {schema : Schema} → schema.Sound → {bytes : Bytes} →
    {value : Value} →
    (schema.decodeFields bytes = .ok value ↔ schema.encodeFields value = .ok bytes)
  | ⟨name, fields, fixedPart, isFixed, edition⟩, ⟨_, _, hFields, hPart, hWord, hAll⟩, bytes,
      value => by
    rw [Schema.decodeFields_eq_ok, Schema.encodeFields_eq_ok]
    have hSum := Field.slotSum_shapes fields
    have hCounted := Field.counted_shapes hFields
    refine exists_congr fun values => exists_congr fun slices => and_congr_right fun _ => ?_
    rw [Field.each_reads_iff_writes hFields]
    refine and_congr_right fun heach => ?_
    have hread (h : isFixed = true → bytes.length = fixedPart) :
        Reader.readAll (Field.shapes fields) fixedPart bytes = .ok slices ↔
          Sized (Field.shapes fields) slices ∧
            joinItems (partsOf (Field.shapes fields) slices)
              (bodiesOf (Field.shapes fields) slices) = .ok bytes := by
      rw [hPart, ← hSum]
      refine Reader.readAll_eq_ok hCounted (by rwa [hSum, ← hPart]) fun hall => ?_
      rw [hSum, ← hPart]
      exact h (by simpa [hAll, Field.shapes] using hall)
    apply Iff.intro
    · intro h
      obtain ⟨hfixed, h⟩ := h
      exact ((hread hfixed).mp h).2
    · intro hjoin
      have hfixed (h : isFixed = true) : bytes.length = fixedPart :=
        @Schema.length_of_encodeFields ⟨name, fields, fixedPart, isFixed, edition⟩
          ⟨‹_›, ‹_›, hFields, hPart, hWord, hAll⟩ h _ _
          (Schema.encodeFields_eq_ok.mpr ⟨values, slices, rfl, heach, hjoin⟩)
      exact ⟨hfixed, (hread hfixed).mpr ⟨Field.sized_of_each hFields heach, hjoin⟩⟩

/-- The slices of the fields are read as values exactly when the values are written as them. -/
theorem Field.each_reads_iff_writes : {fields : List Field} → Field.AllSound fields →
    {slices : List Bytes} → {values : List Value} →
    (Field.Each Shape.Reads fields slices values ↔ Field.Each Shape.Writes fields slices values)
  | [], _, [], [] => Iff.rfl
  | ⟨_, _⟩ :: _, ⟨hShape, hFields⟩, _ :: _, _ :: _ =>
    and_congr (Shape.reads_iff_writes hShape) (Field.each_reads_iff_writes hFields)
  | [], _, _ :: _, _ | [], _, [], _ :: _ | ⟨_, _⟩ :: _, _, [], _ | ⟨_, _⟩ :: _, _, _ :: _, [] =>
    Iff.rfl

end

/-- The bytes of the value of the example. -/
def outerBytes : Bytes :=
  [1, 12, 0, 0, 0, 22, 0, 0, 0, 2, 1, 3, 8, 0, 0, 0, 10, 0, 0, 0, 1, 2, 13]

namespace Schema

/-- Through a drawn-up schema, bytes are read as a value exactly when the value is written as the
bytes. -/
theorem deserialize_iff_serialize {schema : Schema} (hDrawn : schema.Drawn) :
    schema.deserialize bytes = .ok value ↔ schema.serialize value = .ok bytes := by
  rw [deserialize, serialize, Decoding.within_eq_ok, Encoding.within_eq_ok]
  exact decodeFields_iff (sound_of_drawn hDrawn)

/-- Reading undoes writing: what is written through a drawn-up schema is read as the same value. -/
theorem deserialize_of_serialize {schema : Schema} (hDrawn : schema.Drawn) {value : Value}
    {bytes : Bytes} (h : schema.serialize value = .ok bytes) :
    schema.deserialize bytes = .ok value :=
  (deserialize_iff_serialize hDrawn).mpr h

/-- The written value of the example is read back. -/
theorem deserialize_outerBytes :
    outerExample.serialize outerValue = .ok outerBytes ∧
      outerExample.deserialize outerBytes = .ok outerValue := by
  have h : outerExample.serialize outerValue = .ok outerBytes := by decide +kernel
  exact ⟨h, deserialize_of_serialize outerExample_drawn h⟩

/-- Accepted bytes are canonical: they are what writing the value gives, no other bytes are read
as the value, and the value keeps within all bounds of the schema. -/
theorem canonical_of_deserialize {schema : Schema} (hDrawn : schema.Drawn) {bytes : Bytes}
    {value : Value} (h : schema.deserialize bytes = .ok value) :
    schema.serialize value = .ok bytes ∧
      (∀ other, schema.deserialize other = .ok value → other = bytes) ∧
      schema.Fits value ∧ schema.validate value = .ok () := by
  have hwrite := (deserialize_iff_serialize hDrawn).mp h
  have hfits := fits_of_serialize hDrawn hwrite
  refine ⟨hwrite, fun other hother => ?_, hfits, (validate_eq_ok hDrawn).mpr hfits⟩
  have hagain := (deserialize_iff_serialize hDrawn).mp hother
  rw [hwrite, Except.ok.injEq] at hagain
  exact hagain.symm

/-- The bytes of the example are the only ones of their value, which fits. -/
theorem canonical_outerBytes :
    outerExample.deserialize outerBytes = .ok outerValue ∧
      outerExample.serialize outerValue = .ok outerBytes ∧
      (∀ other, outerExample.deserialize other = .ok outerValue → other = outerBytes) ∧
      outerExample.Fits outerValue ∧ outerExample.validate outerValue = .ok () := by
  have h : outerExample.deserialize outerBytes = .ok outerValue := by decide +kernel
  exact ⟨h, canonical_of_deserialize outerExample_drawn h⟩

end Schema

end BeaconSsz

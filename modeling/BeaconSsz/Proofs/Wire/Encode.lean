import BeaconSsz.Proofs.Wire.Fields

/-!
# What writing a value gives

For each shape, the values that can be written are of one kind and pass the checks of the shape,
and the bytes follow from the parts. The bytes of a shape of fixed size are as many as its slot
has.
-/

namespace BeaconSsz

variable {value : Value} {bytes : Bytes}

/-- Elements of fixed size are put together, and others are joined behind their offsets. -/
theorem joinElements_fixed (items : List Bytes) : joinElements true items = .ok items.flatten :=
  rfl

/-- Elements of variable size are joined behind their offsets. -/
theorem joinElements_variable (items : List Bytes) :
    joinElements false items = joinItems (items.map fun _ => none) items :=
  rfl

namespace Shape

/-- A boolean is written as one byte. -/
theorem encode_boolean_eq_ok :
    boolean.encode value = .ok bytes ↔
      ∃ b, value = .boolean b ∧ [if b then (1 : UInt8) else 0] = bytes := by
  cases value <;> simp [encode]

/-- An integer is written with the lowest byte first, if it fits. -/
theorem encode_uint_eq_ok {width : UInt64} :
    (uint width).encode value = .ok bytes ↔
      (width ≤ 8 ∧ ∃ n, value = .uint n ∧ checkUint n.toNat width.toNat = .ok () ∧
        Bytes.littleEndian width.toNat n.toNat = bytes) ∨
      (8 < width ∧ ∃ n, value = .big n ∧ checkUint n.toNat width.toNat = .ok () ∧
        Bytes.littleEndian width.toNat n.toNat = bytes) := by
  cases value with
  | uint n =>
    rw [encode]
    split_ifs with h
    · rw [check_bind_eq_ok, pure_eq_ok]
      simp [h, UInt64.not_lt.mpr h]
    · simp [h]
  | big n =>
    rw [encode]
    split_ifs with h
    · rw [check_bind_eq_ok, pure_eq_ok]
      simp [h, UInt64.not_le.mpr h]
    · simp [h]
  | _ => simp [encode]

/-- A byte string of given length is written as it is. -/
theorem encode_byteVector_eq_ok {length : UInt64} :
    (byteVector length).encode value = .ok bytes ↔
      value = .bytes bytes ∧ bytes.length = length.toNat := by
  cases value with
  | bytes content =>
    rw [encode, check_bind_eq_ok, pure_eq_ok, checkExactLength_eq_ok, Value.bytes.injEq]
    apply Iff.intro
    · intro h
      obtain ⟨hlength, rfl⟩ := h
      exact ⟨rfl, hlength⟩
    · intro h
      obtain ⟨rfl, hlength⟩ := h
      exact ⟨hlength, rfl⟩
  | _ => simp [encode]

/-- A byte string of bounded length is written as it is. -/
theorem encode_byteList_eq_ok {limit : UInt64} :
    (byteList limit).encode value = .ok bytes ↔
      value = .bytes bytes ∧ bytes.length ≤ limit.toNat := by
  cases value with
  | bytes content =>
    rw [encode, check_bind_eq_ok, pure_eq_ok, checkLimit_eq_ok, Value.bytes.injEq]
    apply Iff.intro
    · intro h
      obtain ⟨hlength, rfl⟩ := h
      exact ⟨rfl, hlength⟩
    · intro h
      obtain ⟨rfl, hlength⟩ := h
      exact ⟨hlength, rfl⟩
  | _ => simp [encode]

/-- A bit string of given length is packed. -/
theorem encode_bitvector_eq_ok {length : UInt64} :
    (bitvector length).encode value = .ok bytes ↔
      ∃ bits, value = .bits bits ∧ bits.length = length.toNat ∧ Bits.pack bits = bytes := by
  cases value with
  | bits content =>
    rw [encode, check_bind_eq_ok, pure_eq_ok, checkExactLength_eq_ok]
    simp
  | _ => simp [encode]

/-- A bit string of bounded length is packed with its delimiter. -/
theorem encode_bitlist_eq_ok {limit : UInt64} :
    (bitlist limit).encode value = .ok bytes ↔
      ∃ bits, value = .bits bits ∧ bits.length ≤ limit.toNat ∧
        Bits.packDelimited bits = bytes := by
  cases value with
  | bits content =>
    rw [encode, check_bind_eq_ok, pure_eq_ok, checkLimit_eq_ok]
    simp
  | _ => simp [encode]

/-- A sequence of given length is written element by element. -/
theorem encode_vector_eq_ok {element : Shape} {length : UInt64} :
    (vector element length).encode value = .ok bytes ↔
      ∃ elements items, value = .sequence elements ∧ elements.length = length.toNat ∧
        List.Forall₂ element.Writes items elements ∧
        joinElements element.isFixed items = .ok bytes := by
  cases value with
  | sequence elements =>
    rw [encode, check_bind_eq_ok, checkExactLength_eq_ok]
    simp only [bind_eq_ok, Encoding.mapElements_eq_ok, Value.sequence.injEq]
    apply Iff.intro
    · intro h
      obtain ⟨hlength, items, hitems, hjoin⟩ := h
      exact ⟨elements, items, rfl, hlength, hitems.flip, hjoin⟩
    · intro h
      obtain ⟨_, items, rfl, hlength, hitems, hjoin⟩ := h
      exact ⟨hlength, items, hitems.flip, hjoin⟩
  | _ => simp [encode]

/-- A sequence of bounded length is written element by element. -/
theorem encode_list_eq_ok {element : Shape} {limit : UInt64} :
    (list element limit).encode value = .ok bytes ↔
      ∃ elements items, value = .sequence elements ∧ elements.length ≤ limit.toNat ∧
        List.Forall₂ element.Writes items elements ∧
        joinElements element.isFixed items = .ok bytes := by
  cases value with
  | sequence elements =>
    rw [encode, check_bind_eq_ok, checkLimit_eq_ok]
    simp only [bind_eq_ok, Encoding.mapElements_eq_ok, Value.sequence.injEq]
    apply Iff.intro
    · intro h
      obtain ⟨hlength, items, hitems, hjoin⟩ := h
      exact ⟨elements, items, rfl, hlength, hitems.flip, hjoin⟩
    · intro h
      obtain ⟨_, items, rfl, hlength, hitems, hjoin⟩ := h
      exact ⟨hlength, items, hitems.flip, hjoin⟩
  | _ => simp [encode]

end Shape

mutual

/-- A shape of fixed size is written in as many bytes as its slot has. -/
theorem Shape.length_of_encode : {shape : Shape} → shape.Sound → shape.isFixed = true →
    {value : Value} → {bytes : Bytes} → shape.encode value = .ok bytes →
    bytes.length = shape.slotSize
  | .boolean, _, _, _, _, h => by
    obtain ⟨b, -, rfl⟩ := Shape.encode_boolean_eq_ok.mp h
    rfl
  | .uint width, _, _, _, _, h => by
    rcases Shape.encode_uint_eq_ok.mp h with ⟨-, n, -, -, rfl⟩ | ⟨-, n, -, -, rfl⟩ <;>
      exact Bytes.length_littleEndian _ _
  | .byteVector length, _, _, _, _, h => (Shape.encode_byteVector_eq_ok.mp h).2
  | .bitvector length, _, _, _, _, h => by
    obtain ⟨bits, -, hbits, rfl⟩ := Shape.encode_bitvector_eq_ok.mp h
    rw [Bits.length_pack, hbits, Shape.slotSize]
  | .vector element length, hSound, hFixed, _, _, h => by
    obtain ⟨-, hElement, -⟩ := hSound
    rw [Shape.isFixed] at hFixed
    obtain ⟨elements, items, -, hlength, hitems, hjoin⟩ := Shape.encode_vector_eq_ok.mp h
    rw [hFixed, joinElements_fixed, Except.ok.injEq] at hjoin
    have hfull : ∀ item ∈ items, item.length = element.slotSize :=
      ((List.forall₂_and_left _ _).mp (hitems.imp fun _ _ hvalue =>
        ⟨Shape.length_of_encode hElement hFixed hvalue, hvalue⟩)).1
    rw [← hjoin, Bytes.length_flatten_of_full hfull, hitems.length_eq, hlength, Shape.slotSize,
      if_pos hFixed, Nat.mul_comm]
  | .container schema, hSound, hFixed, _, _, h => by
    rw [Shape.isFixed] at hFixed
    rw [Shape.slotSize, if_pos hFixed]
    exact Schema.length_of_encodeFields hSound hFixed (Shape.encode_container .. ▸ h)

/-- A container of fixed size is written in as many bytes as its fixed part has. -/
theorem Schema.length_of_encodeFields : {schema : Schema} → schema.Sound →
    schema.isFixed = true → {value : Value} → {bytes : Bytes} →
    schema.encodeFields value = .ok bytes → bytes.length = schema.fixedPart
  | ⟨_, fields, _, _, _⟩, ⟨_, _, hFields, hPart, _, hAll⟩, hFixed, _, _, h => by
    obtain ⟨values, slices, -, heach, hjoin⟩ := Schema.encodeFields_eq_ok.mp h
    have hsized := Field.sized_of_each hFields heach
    obtain ⟨-, rfl⟩ := (joinItems_eq_ok (openCount_partsOf _ _)).mp hjoin
    rw [bodiesOf_of_all_fixed (by simpa [Field.shapes] using hAll.symm.trans hFixed),
      List.flatten_nil, List.append_nil, length_fillHead, headSize_partsOf hsized,
      Field.slotSum_shapes, hPart]

/-- Fields of fixed size are written in as many bytes as their slots have. -/
theorem Field.sized_of_each : {fields : List Field} → Field.AllSound fields →
    {slices : List Bytes} → {values : List Value} →
    Field.Each Shape.Writes fields slices values → Sized (Field.shapes fields) slices
  | [], _, [], [], _ => List.Forall₂.nil
  | ⟨_, _⟩ :: _, ⟨hShape, hFields⟩, _ :: _, _ :: _, ⟨hvalue, heach⟩ =>
    List.Forall₂.cons (fun hFixed => Shape.length_of_encode hShape hFixed hvalue)
      (Field.sized_of_each hFields heach)

end

end BeaconSsz

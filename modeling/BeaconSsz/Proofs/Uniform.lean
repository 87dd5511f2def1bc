import BeaconSsz.Proofs.Root.Plain
import BeaconSsz.Proofs.Wire.Layout
import BeaconSsz.Proofs.Wire.RoundTrip

/-!
# Containers and vectors have one layout

A container whose fields all have one shape, and a vector of as many elements of this shape, are
written alike and accept the same bytes, though each is read by its own reader of offsets. What is
read is the same list of values, once as fields and once as elements. Unless the shape is basic,
so that elements share chunks, their roots are the same as well.
-/

namespace BeaconSsz

namespace Field

/-- All fields have one shape. -/
def Uniform (shape : Shape) (fields : List Field) : Prop :=
  ∀ field ∈ fields, field.shape = shape

variable {shape : Shape} {fields : List Field} {values : List Value}

/-- The shapes of uniform fields are copies of one shape. -/
theorem Uniform.shapes_eq (h : Uniform shape fields) :
    shapes fields = List.replicate fields.length shape := by
  rw [shapes, List.map_eq_replicate_iff]
  exact h

/-- The slots of uniform fields are slots of one size. -/
theorem Uniform.slotSum_eq (h : Uniform shape fields) :
    slotSum fields = shape.slotSize * fields.length := by
  rw [← slotSum_shapes, BeaconSsz.slotSum, h.shapes_eq, List.map_replicate, List.sum_replicate,
    smul_eq_mul, Nat.mul_comm]

/-- Uniform fields of sound shapes have a sound shape, if there are any. -/
theorem Uniform.sound (h : Uniform shape fields) (nonempty : fields ≠ []) (hSound : AllSound fields) :
    shape.Sound := by
  cases fields with
  | nil => exact absurd rfl nonempty
  | cons field fields =>
    obtain ⟨name, fieldShape⟩ := field
    obtain rfl : fieldShape = shape := h _ List.mem_cons_self
    exact hSound.1

/-- Slices and values of uniform fields stand in a relation one by one. -/
theorem Uniform.each_iff (h : Uniform shape fields) {R : Shape → Bytes → Value → Prop}
    {slices : List Bytes} :
    Each R fields slices values ↔
      slices.length = fields.length ∧ List.Forall₂ (R shape) slices values := by
  induction fields generalizing slices values with
  | nil => cases slices <;> cases values <;> simp [Each]
  | cons field fields ih =>
    obtain ⟨name, fieldShape⟩ := field
    rw [Uniform, List.forall_mem_cons] at h
    obtain ⟨rfl, hRest⟩ := h
    cases slices with
    | nil => simp [Each]
    | cons slice slices =>
      cases values with
      | nil => simp [Each]
      | cons value values =>
        rw [Each, ih hRest, List.forall₂_cons, List.length_cons, List.length_cons,
          Nat.add_right_cancel_iff, and_left_comm]

/-- Values fit uniform fields if there are as many and each one fits. -/
theorem Uniform.allFit_iff (h : Uniform shape fields) :
    AllFit fields values ↔
      values.length = fields.length ∧ ∀ value ∈ values, shape.Fits value := by
  induction fields generalizing values with
  | nil => cases values <;> simp [AllFit]
  | cons field fields ih =>
    obtain ⟨name, fieldShape⟩ := field
    rw [Uniform, List.forall_mem_cons] at h
    obtain ⟨rfl, hRest⟩ := h
    cases values with
    | nil => simp [AllFit]
    | cons value values =>
      rw [AllFit, ih hRest, List.forall_mem_cons, List.length_cons, List.length_cons,
        Nat.add_right_cancel_iff, and_left_comm]

/-- The roots of uniform fields are taken one by one. -/
theorem Uniform.rootAll_eq (h : Uniform shape fields) (H : TreeHash)
    (hLength : values.length = fields.length) :
    rootAll H fields values = values.mapM (shape.root H) := by
  induction fields generalizing values with
  | nil =>
    obtain rfl := List.length_eq_zero_iff.mp hLength
    rfl
  | cons field fields ih =>
    obtain ⟨name, fieldShape⟩ := field
    rw [Uniform, List.forall_mem_cons] at h
    obtain ⟨rfl, hRest⟩ := h
    obtain ⟨value, values, rfl⟩ := List.exists_cons_of_length_eq_add_one hLength
    rw [rootAll, ih hRest (by simpa using hLength), List.mapM_cons]

end Field

/-- Slices of one shape are all of fixed size or all of variable size. -/
theorem tagged_replicate (shape : Shape) (slices : List Bytes) :
    tagged (List.replicate slices.length shape) slices = slices.map (shape.isFixed, ·) := by
  induction slices with
  | nil => rfl
  | cons slice slices ih =>
    rw [List.map_cons, ← ih]
    rfl

section Uniform

variable {schema : Schema} {shape : Shape} {length : UInt64}

/-- A vector of as many elements as a sound container has fields of one shape is sound. -/
theorem Schema.sound_vector_of_uniform (hSound : schema.Sound)
    (hUniform : Field.Uniform shape schema.fields) (hCount : schema.fields.length = length.toNat) :
    (Shape.vector shape length).Sound := by
  obtain ⟨name, fields, fixedPart, isFixed, edition⟩ := schema
  obtain ⟨nonempty, -, hFields, hPart, hWord, -⟩ := hSound
  have hLength : 0 < length.toNat := hCount ▸ List.length_pos_iff.mpr nonempty
  refine ⟨hLength, hUniform.sound nonempty hFields, fun _ => ?_⟩
  rw [← hCount, ← hUniform.slotSum_eq, ← hPart]
  exact hWord

/-- Fields of one shape and elements of this shape are written alike. -/
theorem Schema.encode_uniform_iff (hUniform : Field.Uniform shape schema.fields)
    (hCount : schema.fields.length = length.toNat) {values : List Value} {bytes : Bytes} :
    (Shape.container schema).encode (.container values) = .ok bytes ↔
      (Shape.vector shape length).encode (.sequence values) = .ok bytes := by
  have hJoin {slices : List Bytes} (h : slices.length = schema.fields.length) :
      joinItems (partsOf (Field.shapes schema.fields) slices)
          (bodiesOf (Field.shapes schema.fields) slices) =
        joinElements shape.isFixed slices := by
    rw [joinElements_eq_joinItems, partsOf, bodiesOf, hUniform.shapes_eq, ← h, tagged_replicate]
  rw [Shape.encode_container, encodeFields_eq_ok, Shape.encode_vector_eq_ok]
  simp only [Value.container.injEq, Value.sequence.injEq, hUniform.each_iff]
  apply Iff.intro
  · intro h
    obtain ⟨_, slices, rfl, ⟨hSlices, hEach⟩, h⟩ := h
    rw [hJoin hSlices] at h
    exact ⟨values, slices, rfl, by rw [← hEach.length_eq, hSlices, hCount], hEach, h⟩
  · intro h
    obtain ⟨_, slices, rfl, hLength, hEach, h⟩ := h
    have hSlices : slices.length = schema.fields.length := by
      rw [hEach.length_eq, hLength, hCount]
    rw [← hJoin hSlices] at h
    exact ⟨values, slices, rfl, ⟨hSlices, hEach⟩, h⟩

/-- Values fit fields of one shape exactly if they fit as elements of this shape. -/
theorem Schema.fits_uniform_iff (hUniform : Field.Uniform shape schema.fields)
    (hCount : schema.fields.length = length.toNat) {values : List Value} :
    schema.Fits (.container values) ↔ (Shape.vector shape length).Fits (.sequence values) := by
  obtain ⟨name, fields, fixedPart, isFixed, edition⟩ := schema
  rw [Schema.Fits, Shape.Fits, hUniform.allFit_iff, ← hCount]

/-- Fields of one shape that is not basic have the root of elements of this shape. -/
theorem Schema.root_uniform_eq (H : TreeHash) (hUniform : Field.Uniform shape schema.fields)
    (hBasic : shape.isBasic = false) {values : List Value}
    (hValues : values.length = schema.fields.length) (hLength : values.length = length.toNat) :
    (Shape.container schema).root H (.container values) =
      (Shape.vector shape length).root H (.sequence values) := by
  obtain ⟨name, fields, fixedPart, isFixed, edition⟩ := schema
  rw [Shape.root_container, Schema.root, Shape.root, hBasic]
  simp only [if_pos hValues, Bool.false_eq_true, ↓reduceIte]
  rw [hUniform.rootAll_eq H hValues]
  cases hRoots : values.mapM (shape.root H) with
  | error trap => rfl
  | ok roots =>
    have hCount : roots.length = length.toNat := by
      rw [← (mapM_eq_ok.mp hRoots).length_eq, hLength]
    exact congrArg (merkleize H roots) hCount

/-- A drawn-up container with fields of one shape and the vector of as many elements of this shape
have one layout. Bytes are read as values through the one exactly if they are read as the same
values through the other; values are written through both with the same bytes, if at all; and the
same values are valid. If the shape is not basic, valid values have the same root, and there is
one unless a string is too long to be stored or a capacity overruns. -/
theorem Schema.uniform_iff_vector (hDrawn : schema.Drawn)
    (hUniform : Field.Uniform shape schema.fields) (hCount : schema.fields.length = length.toNat)
    (values : List Value) :
    (∀ bytes, (Shape.container schema).decode bytes = .ok (.container values) ↔
      (Shape.vector shape length).decode bytes = .ok (.sequence values)) ∧
    (∀ bytes, (Shape.container schema).encode (.container values) = .ok bytes ↔
      (Shape.vector shape length).encode (.sequence values) = .ok bytes) ∧
    ((Shape.container schema).validate (.container values) = .ok () ↔
      (Shape.vector shape length).validate (.sequence values) = .ok ()) ∧
    (shape.isBasic = false → (Shape.container schema).validate (.container values) = .ok () →
      ∀ H : TreeHash,
        (Shape.container schema).root H (.container values) =
          (Shape.vector shape length).root H (.sequence values) ∧
        ((Value.container values).Storable → schema.overruns (.container values) = false →
          ∃ root, (Shape.vector shape length).root H (.sequence values) = .ok root)) := by
  have hSound := sound_of_drawn hDrawn
  have hVector : (Shape.vector shape length).Sound :=
    sound_vector_of_uniform hSound hUniform hCount
  have hContainer : (Shape.container schema).Sound := hSound
  have hEncode (bytes : Bytes) := @encode_uniform_iff _ _ _ hUniform hCount values bytes
  have hValid {value : Value} : (Shape.container schema).validate value = .ok () ↔
      schema.Fits value := by
    rw [Shape.validate_eq_ok hContainer, Shape.Fits]
  refine ⟨fun bytes => ?_, hEncode, ?_, fun hBasic hPass H => ?_⟩
  -- Each reader accepts what its writer writes, so the two readers need not be compared.
  · exact (Shape.reads_iff_writes hContainer).trans
      ((hEncode bytes).trans (Shape.reads_iff_writes hVector).symm)
  · rw [hValid, Shape.validate_eq_ok hVector, fits_uniform_iff hUniform hCount]
  · have hFits := hValid.mp hPass
    have hLength : values.length = length.toNat :=
      ((fits_uniform_iff hUniform hCount).mp hFits).1
    have hRoot := root_uniform_eq H hUniform hBasic (hLength.trans hCount.symm) hLength
    refine ⟨hRoot, fun hStorable hOverruns => ?_⟩
    rw [← hRoot, Shape.root_container, root_eq H hSound hFits hStorable, hOverruns]
    exact ⟨_, rfl⟩

/-- A container of two lists of bytes. -/
def pairExample : Schema :=
  ⟨"Pair", [⟨"left", .byteList 8⟩, ⟨"right", .byteList 8⟩], 8, false, 0⟩

/-- Two lists of bytes have one layout and one root as fields and as elements. -/
theorem Schema.pairExample_iff_vector :
    pairExample.Drawn ∧
      (Shape.vector (.byteList 8) 2).decode [8, 0, 0, 0, 9, 0, 0, 0, 5, 6, 7] =
        .ok (.sequence [.bytes [5], .bytes [6, 7]]) ∧
      (Shape.container pairExample).root TreeHash.sha256
          (.container [.bytes [5], .bytes [6, 7]]) =
        (Shape.vector (.byteList 8) 2).root TreeHash.sha256
          (.sequence [.bytes [5], .bytes [6, 7]]) := by
  have hDrawn : pairExample.Drawn := ⟨rfl, trivial, trivial, trivial⟩
  have hUniform : Field.Uniform (.byteList 8) pairExample.fields := by
    simp [Field.Uniform, pairExample]
  obtain ⟨hDecode, -, -, hRoot⟩ :=
    @uniform_iff_vector pairExample (.byteList 8) 2 hDrawn hUniform rfl [.bytes [5], .bytes [6, 7]]
  have hRead : (Shape.container pairExample).decode [8, 0, 0, 0, 9, 0, 0, 0, 5, 6, 7] =
      .ok (.container [.bytes [5], .bytes [6, 7]]) := by decide +kernel
  exact ⟨hDrawn, (hDecode _).mp hRead, (hRoot rfl (by decide +kernel) TreeHash.sha256).1⟩

end Uniform

end BeaconSsz

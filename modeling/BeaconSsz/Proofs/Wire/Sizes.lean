import BeaconSsz.Proofs.Schema.Representable
import BeaconSsz.Proofs.Wire.Frame

/-!
# Sizes known in advance

A schema counts the bytes of its fixed part when it is drawn up, and a shape of fixed size counts
its own. Writing never looks at these counts, and reading relies on them for every position. What
is written keeps to them: all of it if its size is fixed, and else the fixed part, at the end of
which the first item of variable size starts. So the first offset is the size of the fixed part.
-/

namespace BeaconSsz

/-- The first offset is where the bodies start. -/
theorem eq_of_runningOffsets_eq_cons {start offset : Nat} {bodies : List Bytes} {later : List Nat}
    (h : runningOffsets start bodies = offset :: later) : offset = start := by
  cases bodies with
  | nil => cases h
  | cons body bodies => exact (List.cons.inj h).1.symm

/-- The first of the offsets lies in the first open place, behind the slots in front of it. -/
theorem OffsetsAt.first {store : Bytes} {start : Nat} {shapes : List Shape} {offsets : List Nat}
    (h : OffsetsAt store start shapes offsets) {index : Nat}
    (hindex : shapes.findIdx? (!·.isFixed) = some index) :
    ∃ offset later, offsets = offset :: later ∧ offset < offsetLimit ∧
      Bytes.littleEndian offsetLength offset <+:
        store.drop (start + slotSum (shapes.take index)) := by
  induction shapes generalizing start index with
  | nil => simp at hindex
  | cons shape shapes ih =>
    rw [OffsetsAt] at h
    rw [List.findIdx?_cons] at hindex
    cases hfixed : shape.isFixed with
    | true =>
      rw [if_pos hfixed] at h
      rw [hfixed, if_neg (by simp), Option.map_eq_some_iff] at hindex
      obtain ⟨position, hposition, rfl⟩ := hindex
      rw [List.take_succ_cons, slotSum_cons, ← Nat.add_assoc]
      exact ih h hposition
    | false =>
      rw [if_neg (by simp [hfixed])] at h
      rw [hfixed, if_pos (by simp)] at hindex
      cases hindex
      obtain ⟨offset, later, hoffsets, hlt, hslot, -⟩ := h
      exact ⟨offset, later, hoffsets, hlt, hslot⟩

namespace Schema

/-- The position of the first field of variable size. -/
def firstOpen? (schema : Schema) : Option Nat :=
  schema.fields.findIdx? (!·.shape.isFixed)

/-- A container of variable size has a first field of variable size. -/
theorem exists_firstOpen? {schema : Schema} (hSound : schema.Sound)
    (hVariable : schema.isFixed = false) : ∃ index, schema.firstOpen? = some index := by
  obtain ⟨-, -, -, -, -, hAll⟩ := sound_iff.mp hSound
  obtain ⟨field, hfield, hopen⟩ := List.all_eq_false.mp (hAll.symm.trans hVariable)
  refine Option.ne_none_iff_exists'.mp fun hnone => hopen ?_
  simpa using List.findIdx?_eq_none_iff.mp hnone field hfield

/-- The slots in front of a field are added up to the place where its own slot starts. -/
theorem sumSlots?_take {schema : Schema} (hSound : schema.Sound) (index : Nat) :
    sumSlots? 0 (schema.fields.take index) = .ok (some (schema.slotStart index)) := by
  obtain ⟨-, -, hFields, hPart, hWord, -⟩ := sound_iff.mp hSound
  have hstart : Field.slotSum (schema.fields.take index) ≤ Field.slotSum schema.fields :=
    ((List.take_sublist index schema.fields).map _).sum_le_sum fun _ _ => Nat.zero_le _
  rw [sumSlots?_eq (hFields.take index) (by decide), Nat.zero_add, if_pos (by omega)]
  rfl

/-- What is written for a container has its whole fixed part in front, and in the first open place
of it the size of the fixed part as an offset. -/
theorem fixedPart_of_encodeFields {schema : Schema} (hSound : schema.Sound) {value : Value}
    {bytes : Bytes} (h : schema.encodeFields value = .ok bytes) :
    schema.fixedPart ≤ bytes.length ∧ ∀ index, schema.firstOpen? = some index →
      encodeOffset schema.fixedPart =
        .ok (bytes.extract (schema.slotStart index) (schema.slotStart index + offsetLength)) := by
  obtain ⟨values, slices, -, heach, hjoin⟩ := encodeFields_eq_ok.mp h
  obtain ⟨-, -, hFields, hPart, -⟩ := sound_iff.mp hSound
  obtain ⟨hlength, ⟨hoffsets, -⟩, -⟩ := at_of_joinItems (Field.sized_of_each hFields heach) hjoin
  rw [Field.slotSum_shapes, ← hPart] at hlength hoffsets
  refine ⟨by omega, fun index hindex => ?_⟩
  have hfirst : (Field.shapes schema.fields).findIdx? (!·.isFixed) = some index := by
    rw [Field.shapes, List.findIdx?_map]
    exact hindex
  obtain ⟨offset, later, hrunning, hlt, hslot⟩ := hoffsets.first hfirst
  obtain rfl : offset = schema.fixedPart := eq_of_runningOffsets_eq_cons hrunning
  rw [Nat.zero_add, ← slotStart_eq] at hslot
  exact encodeOffset_eq_ok.mpr
    ⟨hlt, (extract_eq hslot (by rw [Bytes.length_littleEndian])).symm⟩

/-- Sizes that a schema knows in advance are those of what is written. Every shape inside a drawn-up
schema, the container itself included, is written in as many bytes as its slot counts if it is of
fixed size. A container of variable size is written with its whole fixed part in front; behind the
slots that are added up in front of the first field of variable size stands, as an offset of four
bytes, the size of the fixed part. -/
theorem sizes_of_encode {schema : Schema} (hDrawn : schema.Drawn) {shape : Shape}
    (hshape : shape ∈ (Shape.container schema).subshapes) {value : Value} {bytes : Bytes}
    (h : shape.encode value = .ok bytes) :
    (shape.isFixed = true → shape.slotLength = .ok bytes.length) ∧
      ∀ inner, shape = .container inner → inner.isFixed = false →
        inner.fixedPart ≤ bytes.length ∧
          ∃ index start, inner.firstOpen? = some index ∧
            sumSlots? 0 (inner.fields.take index) = .ok (some start) ∧
            encodeOffset inner.fixedPart = .ok (bytes.extract start (start + offsetLength)) := by
  have hSound : shape.Sound := by
    refine Shape.sound_of_mem_subshapes ?_ shape hshape
    rw [Shape.Sound]
    exact sound_of_drawn hDrawn
  refine ⟨fun hFixed => ?_, fun inner hinner hVariable => ?_⟩
  · rw [Shape.slotLength_eq hSound, Shape.length_of_encode hSound hFixed h]
  · subst hinner
    rw [Shape.encode_container] at h
    obtain ⟨index, hindex⟩ := exists_firstOpen? hSound hVariable
    obtain ⟨hlength, hoffset⟩ := fixedPart_of_encodeFields hSound h
    exact ⟨hlength, index, _, hindex, sumSlots?_take hSound index, hoffset index hindex⟩

/-- In the bytes of the example, the inner container takes its three bytes, and the notes behind the
flag have as their offset the twelve bytes of the fixed part. -/
theorem sizes_of_outerBytes :
    Shape.container innerExample ∈ (Shape.container outerExample).subshapes ∧
      (Shape.container innerExample).encode (.container [.uint 258, .bits [true, true, false]]) =
        .ok [2, 1, 3] ∧
      (Shape.container innerExample).slotLength = .ok 3 ∧
      (Shape.container outerExample).encode outerValue = .ok outerBytes ∧
      outerExample.firstOpen? = some 1 ∧
      sumSlots? 0 (outerExample.fields.take 1) = .ok (some 1) ∧
      encodeOffset 12 = .ok (outerBytes.extract 1 5) := by
  have hinner : Shape.container innerExample ∈ (Shape.container outerExample).subshapes := by
    simp [Shape.subshapes, Schema.subshapes, Field.subshapes, outerExample]
  have hbytes : (Shape.container innerExample).encode
      (.container [.uint 258, .bits [true, true, false]]) = .ok [2, 1, 3] := by decide +kernel
  have houter : (Shape.container outerExample).encode outerValue = .ok outerBytes := by
    decide +kernel
  obtain ⟨hfixed, -⟩ := sizes_of_encode outerExample_drawn hinner hbytes
  obtain ⟨-, hvariable⟩ :=
    sizes_of_encode outerExample_drawn (Shape.mem_subshapes_self _) houter
  obtain ⟨-, index, start, hindex, hstart, hoffset⟩ := hvariable outerExample rfl rfl
  cases hindex
  cases hstart
  exact ⟨hinner, hbytes, hfixed rfl, houter, rfl, rfl, hoffset⟩

end Schema

end BeaconSsz

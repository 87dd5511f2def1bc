import BeaconSsz.Proofs.Root.Checked

/-!
# Schemas of modest size

A schema is of modest size if its fixed part, its bounds and the nesting of its values lie far
below the limits of offsets, of words and of readers. Such a schema has room in every capacity,
and the values that fit it can be stored, so all of them have roots.
-/

namespace BeaconSsz

mutual

/-- The largest length or limit inside the shape. -/
def Shape.largestBound : Shape → Nat
  | .byteVector length | .byteList length | .bitvector length | .bitlist length => length.toNat
  | .vector element length | .list element length => max element.largestBound length.toNat
  | .container schema => schema.largestBound
  | .boolean | .uint _ => 0

/-- The largest length or limit inside the schema. -/
def Schema.largestBound : Schema → Nat
  | ⟨_, fields, _, _, _⟩ => Field.largestBound fields

/-- The largest length or limit inside the fields. -/
def Field.largestBound : List Field → Nat
  | [] => 0
  | ⟨_, shape⟩ :: fields => max shape.largestBound (Field.largestBound fields)

end

mutual

/-- How deep sequences and containers are nested in the shape. -/
def Shape.nesting : Shape → Nat
  | .vector element _ | .list element _ => element.nesting + 1
  | .container schema => schema.nesting
  | .boolean | .uint _ | .byteVector _ | .byteList _ | .bitvector _ | .bitlist _ => 0

/-- How deep sequences and containers are nested in the schema, which counts as one level. -/
def Schema.nesting : Schema → Nat
  | ⟨_, fields, _, _, _⟩ => Field.nesting fields + 1

/-- How deep sequences and containers are nested in the fields. -/
def Field.nesting : List Field → Nat
  | [] => 0
  | ⟨_, shape⟩ :: fields => max shape.nesting (Field.nesting fields)

end

/-- A schema of modest size. -/
structure Schema.Modest (schema : Schema) : Prop where
  fixedPart_lt : schema.fixedPart < 2 ^ 24
  largestBound_lt : schema.largestBound < 2 ^ 58
  nesting_le : schema.nesting ≤ 127

/-- Whether a schema is of modest size. -/
def Schema.isModest (schema : Schema) : Bool :=
  schema.fixedPart < 2 ^ 24 && schema.largestBound < 2 ^ 58 && schema.nesting ≤ 127

/-- A schema that passes the check is of modest size. -/
theorem Schema.modest_of_isModest {schema : Schema} (h : schema.isModest = true) :
    schema.Modest := by
  simp only [isModest, Bool.and_eq_true, decide_eq_true_eq] at h
  exact ⟨h.1.1, h.1.2, h.2⟩

mutual

/-- Bounds below `2 ^ 58` leave room for one chunk more. -/
theorem Shape.roomy_of_largestBound : {shape : Shape} → shape.Sound →
    shape.largestBound < 2 ^ 58 → shape.Roomy
  | .byteList limit, _, h | .bitlist limit, _, h => by
    rw [Shape.largestBound] at h
    rw [Shape.Roomy, wordLimit]
    omega
  | .vector element _, hSound, h => by
    rw [Shape.largestBound, Nat.max_lt] at h
    rw [Shape.Roomy]
    exact Shape.roomy_of_largestBound hSound.2.1 h.1
  | .list element limit, hSound, h => by
    rw [Shape.largestBound, Nat.max_lt] at h
    rw [Shape.Roomy]
    split
    · next hBasic =>
      have hsize := Shape.slotSize_le_of_isBasic hSound.1 hBasic
      have hbytes := Nat.mul_le_mul_left limit.toNat hsize
      rw [wordLimit]
      omega
    · exact Shape.roomy_of_largestBound hSound.1 h.1
  | .container schema, hSound, h => by
    rw [Shape.largestBound] at h
    rw [Shape.Roomy]
    exact Schema.roomy_of_largestBound hSound h
  | .boolean, _, _ | .uint _, _, _ | .byteVector _, _, _ | .bitvector _, _, _ => trivial

/-- Bounds below `2 ^ 58` leave room for one chunk more. -/
theorem Schema.roomy_of_largestBound : {schema : Schema} → schema.Sound →
    schema.largestBound < 2 ^ 58 → schema.Roomy
  | ⟨_, _, _, _, _⟩, ⟨_, _, hFields, _⟩, h => Field.roomy_of_largestBound hFields h

/-- Bounds below `2 ^ 58` leave room for one chunk more. -/
theorem Field.roomy_of_largestBound : {fields : List Field} → Field.AllSound fields →
    Field.largestBound fields < 2 ^ 58 → Field.AllRoomy fields
  | [], _, _ => trivial
  | ⟨_, _⟩ :: _, ⟨hShape, hFields⟩, h => by
    rw [Field.largestBound, Nat.max_lt] at h
    exact ⟨Shape.roomy_of_largestBound hShape h.1, Field.roomy_of_largestBound hFields h.2⟩

end

/-- Values are storable if each one is. -/
theorem Value.allStorable_of_forall {values : List Value}
    (h : ∀ value ∈ values, value.Storable) : Value.AllStorable values := by
  induction values with
  | nil => trivial
  | cons value values ih =>
    rw [List.forall_mem_cons] at h
    exact ⟨h.1, ih h.2⟩

mutual

/-- A value that keeps within bounds below `2 ^ 58` is storable. -/
theorem Shape.storable_of_fits : {shape : Shape} → shape.largestBound < 2 ^ 58 →
    {value : Value} → shape.Fits value → value.Storable
  | .byteVector length, h, .bytes content, hFits | .byteList length, h, .bytes content, hFits
  | .bitvector length, h, .bits content, hFits | .bitlist length, h, .bits content, hFits => by
    rw [Shape.largestBound] at h
    rw [Shape.Fits] at hFits
    rw [Value.Storable]
    omega
  | .vector element length, h, .sequence elements, hFits
  | .list element length, h, .sequence elements, hFits => by
    rw [Shape.largestBound, Nat.max_lt] at h
    rw [Shape.Fits] at hFits
    rw [Value.Storable]
    refine ⟨by omega, Value.allStorable_of_forall fun value hvalue => ?_⟩
    exact Shape.storable_of_fits h.1 (hFits.2 value hvalue)
  | .container schema, h, value, hFits => by
    rw [Shape.largestBound] at h
    rw [Shape.Fits] at hFits
    exact Schema.storable_of_fits h hFits
  | .boolean, _, .boolean _, _ | .uint _, _, .uint _, _ | .uint _, _, .big _, _ => trivial

/-- A value that keeps within bounds below `2 ^ 58` is storable. -/
theorem Schema.storable_of_fits : {schema : Schema} → schema.largestBound < 2 ^ 58 →
    {value : Value} → schema.Fits value → value.Storable
  | ⟨_, _, _, _, _⟩, h, .container _, hFits => Field.storable_of_allFit h hFits

/-- Values that keep within bounds below `2 ^ 58` are storable. -/
theorem Field.storable_of_allFit : {fields : List Field} → Field.largestBound fields < 2 ^ 58 →
    {values : List Value} → Field.AllFit fields values → Value.AllStorable values
  | [], _, [], _ => trivial
  | ⟨_, _⟩ :: _, h, _ :: _, hFits => by
    rw [Field.largestBound, Nat.max_lt] at h
    exact ⟨Shape.storable_of_fits h.1 hFits.1, Field.storable_of_allFit h.2 hFits.2⟩

end

/-- Every valid value of a drawn-up schema of modest size has a root, which is the plain one. -/
theorem Schema.hashTreeRoot_of_modest (H : TreeHash) {schema : Schema} (hDrawn : schema.Drawn)
    (hModest : schema.Modest) {value : Value} (hValid : schema.validate value = .ok ()) :
    schema.hashTreeRoot H value = .ok (schema.plainRoot H.combine value) := by
  have hRoomy := roomy_of_largestBound (sound_of_drawn hDrawn) hModest.largestBound_lt
  have hStorable :=
    storable_of_fits hModest.largestBound_lt ((validate_eq_ok hDrawn).mp hValid)
  rw [hashTreeRoot_of_validate_ok H hDrawn hStorable hValid, overruns_of_roomy hRoomy]
  rfl

end BeaconSsz

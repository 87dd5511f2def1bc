import BeaconSsz.Proofs.Schema.Flaw

/-!
# Representable schemas

Which fields make a schema, said without the computations that look for faults. A shape has a
bound that can be represented or not, sizes are unbounded numbers counted through all containers,
and a shape is of fixed size if no list occurs in it at any depth.

Drawing up a schema checks every shape once, with sums and products that must be words, and takes
sizes of containers from schemas drawn up before. Wherever it does not trap, it accepts exactly
the representable fields, and the sizes it writes down are the unbounded ones.
-/

namespace BeaconSsz

mutual

/-- The shape and the shapes inside it, at every depth. -/
def Shape.subshapes : Shape → List Shape
  | .vector element length => .vector element length :: element.subshapes
  | .list element limit => .list element limit :: element.subshapes
  | .container schema => .container schema :: schema.subshapes
  | shape => [shape]

/-- The shapes inside a container. -/
def Schema.subshapes : Schema → List Shape
  | ⟨_, fields, _, _, _⟩ => Field.subshapes fields

/-- The shapes of fields and the shapes inside them. -/
def Field.subshapes : List Field → List Shape
  | [] => []
  | ⟨_, shape⟩ :: fields => shape.subshapes ++ Field.subshapes fields

end

/-- Whether the shape is a list of bytes, of bits or of elements. -/
def Shape.isList : Shape → Bool
  | .byteList _ | .bitlist _ | .list _ _ => true
  | _ => false

/-- Whether there is a list among the shapes. -/
def holdsList (shapes : List Shape) : Bool :=
  shapes.any Shape.isList

mutual

/-- The bytes that the shape takes in the fixed part of its parent, whatever their number is. -/
def Shape.plainSize : Shape → Nat
  | .boolean => 1
  | .uint width => width.toNat
  | .byteVector length => length.toNat
  | .bitvector length => (length.toNat + 7) / 8
  | .vector element length =>
    if holdsList element.subshapes then 4 else element.plainSize * length.toNat
  | .container schema => if holdsList schema.subshapes then 4 else schema.plainSize
  | .byteList _ | .bitlist _ | .list _ _ => 4

/-- The bytes of the fixed part of a container, whatever their number is. -/
def Schema.plainSize : Schema → Nat
  | ⟨_, fields, _, _, _⟩ => Field.plainSize fields

/-- The bytes that fields take together in the fixed part of their container. -/
def Field.plainSize : List Field → Nat
  | [] => 0
  | ⟨_, shape⟩ :: fields => shape.plainSize + Field.plainSize fields

end

/-- The outermost bound of the shape can be represented. -/
def Shape.Representable : Shape → Prop
  | .uint width => width.toNat ∈ [1, 2, 4, 8, 16, 32]
  | .byteVector length | .bitvector length => 0 < length.toNat
  | .byteList limit => limit.toNat + 31 < 2 ^ 64
  | .bitlist limit => limit.toNat + 255 < 2 ^ 64
  | .vector element length =>
    0 < length.toNat ∧
      (holdsList element.subshapes = false → element.plainSize * length.toNat < 2 ^ 64)
  | .list element limit =>
    element.isBasic = true → limit.toNat * element.plainSize + 31 < 2 ^ 64
  | .boolean | .container _ => True

section Sizes

/-- A shape is one of the shapes inside it. -/
theorem Shape.mem_subshapes_self (shape : Shape) : shape ∈ shape.subshapes := by
  cases shape <;> simp [subshapes]

mutual

/-- A sound shape has sound shapes inside it. -/
theorem Shape.sound_of_mem_subshapes : {shape : Shape} → shape.Sound →
    ∀ part ∈ shape.subshapes, part.Sound
  | .vector element _, h => by
    rw [Shape.subshapes, List.forall_mem_cons]
    exact ⟨h, Shape.sound_of_mem_subshapes h.2.1⟩
  | .list element _, h => by
    rw [Shape.subshapes, List.forall_mem_cons]
    exact ⟨h, Shape.sound_of_mem_subshapes h.1⟩
  | .container schema, h => by
    rw [Shape.subshapes, List.forall_mem_cons]
    exact ⟨h, Schema.sound_of_mem_subshapes h⟩
  | .boolean, h | .uint _, h | .byteVector _, h | .byteList _, h | .bitvector _, h
  | .bitlist _, h => List.forall_mem_singleton.mpr h

/-- A sound container has sound shapes inside it. -/
theorem Schema.sound_of_mem_subshapes : {schema : Schema} → schema.Sound →
    ∀ part ∈ schema.subshapes, part.Sound
  | ⟨_, _, _, _, _⟩, ⟨_, _, hFields, _⟩ => Field.sound_of_mem_subshapes hFields

/-- Sound fields have sound shapes inside them. -/
theorem Field.sound_of_mem_subshapes : {fields : List Field} → Field.AllSound fields →
    ∀ part ∈ Field.subshapes fields, part.Sound
  | [], _ => nofun
  | ⟨_, _⟩ :: _, h => by
    rw [Field.subshapes, List.forall_mem_append]
    exact ⟨Shape.sound_of_mem_subshapes h.1, Field.sound_of_mem_subshapes h.2⟩

end

mutual

/-- A sound shape is of fixed size exactly when no list occurs in it. -/
theorem Shape.isFixed_eq : {shape : Shape} → shape.Sound →
    shape.isFixed = !holdsList shape.subshapes
  | .vector element _, h => by
    rw [Shape.isFixed, Shape.isFixed_eq h.2.1, Shape.subshapes, holdsList, holdsList,
      List.any_cons, Shape.isList, Bool.false_or]
    all_goals simp
  | .container schema, h => by
    rw [Shape.isFixed, Schema.isFixed_eq h, Shape.subshapes, holdsList, holdsList,
      List.any_cons, Shape.isList, Bool.false_or]
    all_goals simp
  | .boolean, _ | .uint _, _ | .byteVector _, _ | .bitvector _, _ | .byteList _, _
  | .bitlist _, _ | .list _ _, _ => by
    simp [Shape.isFixed, Shape.subshapes, holdsList, Shape.isList]

/-- A sound container is of fixed size exactly when no list occurs in it. -/
theorem Schema.isFixed_eq : {schema : Schema} → schema.Sound →
    schema.isFixed = !holdsList schema.subshapes
  | ⟨_, fields, _, isFixed, _⟩, ⟨_, _, hFields, _, _, hAll⟩ => by
    rw [Schema.subshapes, ← Field.all_isFixed_eq hFields]
    exact hAll

/-- Sound fields are all of fixed size exactly when no list occurs in them. -/
theorem Field.all_isFixed_eq : {fields : List Field} → Field.AllSound fields →
    fields.all (·.shape.isFixed) = !holdsList (Field.subshapes fields)
  | [], _ => rfl
  | ⟨_, _⟩ :: _, h => by
    rw [List.all_cons, Shape.isFixed_eq h.1, Field.all_isFixed_eq h.2, Field.subshapes,
      holdsList, holdsList, holdsList, List.any_append, Bool.not_or]

end

mutual

/-- The slot of a sound shape is counted without a bound. -/
theorem Shape.slotSize_eq_plainSize : {shape : Shape} → shape.Sound →
    shape.slotSize = shape.plainSize
  | .vector element length, h => by
    rw [Shape.slotSize, Shape.plainSize, Shape.isFixed_eq h.2.1,
      Shape.slotSize_eq_plainSize h.2.1]
    cases holdsList element.subshapes <;> rfl
  | .container schema, h => by
    rw [Shape.slotSize, Shape.plainSize, Schema.isFixed_eq h, Schema.fixedPart_eq_plainSize h]
    cases holdsList schema.subshapes <;> rfl
  | .boolean, _ | .uint _, _ | .byteVector _, _ | .bitvector _, _ | .byteList _, _
  | .bitlist _, _ | .list _ _, _ => rfl

/-- The fixed part of a sound container is counted without a bound. -/
theorem Schema.fixedPart_eq_plainSize : {schema : Schema} → schema.Sound →
    schema.fixedPart = schema.plainSize
  | ⟨_, _, _, _, _⟩, ⟨_, _, hFields, hPart, _, _⟩ => by
    rw [Schema.plainSize, ← Field.slotSum_eq_plainSize hFields]
    exact hPart

/-- The slots of sound fields are counted without a bound. -/
theorem Field.slotSum_eq_plainSize : {fields : List Field} → Field.AllSound fields →
    Field.slotSum fields = Field.plainSize fields
  | [], _ => rfl
  | ⟨_, _⟩ :: _, h => by
    rw [Field.slotSum_cons, Field.plainSize, Shape.slotSize_eq_plainSize h.1,
      Field.slotSum_eq_plainSize h.2]

end

/-- The outermost bound of a sound shape can be represented. -/
theorem Shape.representable_of_sound {shape : Shape} (h : shape.Sound) : shape.Representable := by
  cases shape with
  | boolean => trivial
  | uint width =>
    have hWidth : width = 1 ∨ width = 2 ∨ width = 4 ∨ width = 8 ∨ width = 16 ∨ width = 32 := by
      simpa [Sound, uintWidths] using h
    rcases hWidth with rfl | rfl | rfl | rfl | rfl | rfl <;> simp [Representable]
  | byteVector length => exact h
  | byteList limit => exact h
  | bitvector length => exact h.1
  | bitlist limit => exact h
  | vector element length =>
    obtain ⟨hLength, hElement, hSize⟩ := h
    refine ⟨hLength, fun hNoList => ?_⟩
    rw [← slotSize_eq_plainSize hElement]
    exact hSize (by rw [isFixed_eq hElement, hNoList]; rfl)
  | list element limit =>
    obtain ⟨hElement, hSize⟩ := h
    intro hBasic
    rw [← slotSize_eq_plainSize hElement]
    exact hSize hBasic
  | container schema => trivial

end Sizes

section Faults

/-- A length whose number is positive is not zero. -/
theorem ne_zero_of_toNat_pos {n : UInt64} (h : 0 < n.toNat) : n ≠ 0 := by
  intro hZero
  simp [hZero] at h

/-- A shape whose sizes fit has no flaw in them. -/
theorem Shape.sizeFlaw?_ne_some {shape : Shape} (h : shape.sizesFit = true) {flaw : Flaw} :
    shape.sizeFlaw? ≠ some flaw := by
  rw [sizeFlaw?_eq_none.mpr h]
  nofun

/-- If every flaw of the elements is met by a trap and the sizes around them fit, then every flaw
of the sequence is met by this trap. -/
theorem Shape.trap?_of_or {element shape : Shape} {trap : Trap} (hDrawn : element.Drawn)
    (hElement : ∀ flaw, element.flaw? = some flaw → flaw.trap? = some trap)
    (hFits : element.Sound → shape.sizesFit = true) {flaw : Flaw}
    (hFlaw : element.flaw?.or shape.sizeFlaw? = some flaw) : flaw.trap? = some trap := by
  rcases Option.or_eq_some_iff.mp hFlaw with hInside | ⟨hNone, hSizes⟩
  · exact hElement flaw hInside
  · exact absurd hSizes (Shape.sizeFlaw?_ne_some (hFits (Shape.sound_of_flaw? hDrawn hNone)))

/-- If all bounds in a shape can be represented, then the only flaw is a bit vector whose length
cannot be rounded up, and it traps. -/
theorem Shape.flaw?_of_representable : {shape : Shape} → shape.Drawn →
    (∀ part ∈ shape.subshapes, part.Representable) →
    ∀ flaw, shape.flaw? = some flaw → flaw.trap? = some .addOverflow
  | .boolean, _, _, _, hFlaw | .container _, _, _, _, hFlaw =>
    absurd hFlaw (Shape.sizeFlaw?_ne_some rfl)
  | .uint width, _, h, _, hFlaw => by
    have hWidth : width.toNat ∈ [1, 2, 4, 8, 16, 32] := h _ (Shape.mem_subshapes_self _)
    have hUsual : width ∈ uintWidths := by
      simpa [uintWidths, ← UInt64.toNat_inj] using hWidth
    rw [Shape.flaw?, if_pos hUsual] at hFlaw
    cases hFlaw
  | .byteVector length, _, h, _, hFlaw => by
    have hLength : 0 < length.toNat := h _ (Shape.mem_subshapes_self _)
    rw [Shape.flaw?, if_neg (ne_zero_of_toNat_pos hLength)] at hFlaw
    cases hFlaw
  | .byteList limit, _, h, _, hFlaw => by
    have hLimit : limit.toNat + 31 < 2 ^ 64 := h _ (Shape.mem_subshapes_self _)
    have hFits : (Shape.byteList limit).sizesFit = true := decide_eq_true hLimit
    exact absurd hFlaw (Shape.sizeFlaw?_ne_some hFits)
  | .bitlist limit, _, h, _, hFlaw => by
    have hLimit : limit.toNat + 255 < 2 ^ 64 := h _ (Shape.mem_subshapes_self _)
    have hFits : (Shape.bitlist limit).sizesFit = true := decide_eq_true hLimit
    exact absurd hFlaw (Shape.sizeFlaw?_ne_some hFits)
  | .bitvector length, _, h, flaw, hFlaw => by
    have hLength : 0 < length.toNat := h _ (Shape.mem_subshapes_self _)
    rw [Shape.flaw?, if_neg (ne_zero_of_toNat_pos hLength), Shape.sizeFlaw?] at hFlaw
    split at hFlaw
    · cases hFlaw
    · obtain rfl := Option.some.inj hFlaw
      rfl
  | .vector element length, hDrawn, h, flaw, hFlaw => by
    rw [Shape.Drawn] at hDrawn
    rw [Shape.subshapes, List.forall_mem_cons] at h
    obtain ⟨⟨hLength, hSize⟩, hInside⟩ := h
    rw [Shape.flaw?, if_neg (ne_zero_of_toNat_pos hLength)] at hFlaw
    refine Shape.trap?_of_or hDrawn (Shape.flaw?_of_representable hDrawn hInside) (fun hSound => ?_)
      hFlaw
    rw [Shape.sizesFit, Shape.isFixed_eq hSound, Shape.slotSize_eq_plainSize hSound]
    cases hNoList : holdsList element.subshapes with
    | true => rfl
    | false => exact decide_eq_true (hSize hNoList)
  | .list element limit, hDrawn, h, flaw, hFlaw => by
    rw [Shape.Drawn] at hDrawn
    rw [Shape.subshapes, List.forall_mem_cons] at h
    obtain ⟨hSize, hInside⟩ := h
    rw [Shape.flaw?] at hFlaw
    refine Shape.trap?_of_or hDrawn (Shape.flaw?_of_representable hDrawn hInside) (fun hSound => ?_)
      hFlaw
    rw [Shape.sizesFit, Shape.slotSize_eq_plainSize hSound]
    cases hBasic : element.isBasic with
    | false => rfl
    | true => exact decide_eq_true (hSize hBasic)

/-- If the names of fields are new and different and all bounds in the fields can be represented,
then the only fault is a bit vector whose length cannot be rounded up, and it traps. -/
theorem Field.fault?_of_representable : {fields : List Field} → {seen : List String} →
    Field.AllDrawn fields → (fields.map Field.name).Nodup →
    (∀ name ∈ fields.map Field.name, name ∉ seen) →
    (∀ part ∈ Field.subshapes fields, part.Representable) →
    ∀ fault, Field.fault? seen fields = some fault → fault.trap? = some .addOverflow
  | [], _, _, _, _, _, _, hFault => by cases hFault
  | ⟨name, shape⟩ :: fields, seen, ⟨hShape, hFields⟩, distinct, new, h, fault, hFault => by
    rw [List.map_cons, List.nodup_cons] at distinct
    rw [List.map_cons, List.forall_mem_cons] at new
    rw [Field.subshapes, List.forall_mem_append] at h
    rw [Field.fault?, if_neg new.1] at hFault
    cases hFlaw : shape.flaw? with
    | some flaw =>
      rw [hFlaw, Option.map_some, Option.some_or, Option.some_inj] at hFault
      rw [← hFault]
      exact Shape.flaw?_of_representable hShape h.1 flaw hFlaw
    | none =>
      rw [hFlaw, Option.map_none, Option.none_or] at hFault
      refine Field.fault?_of_representable hFields distinct.2 (fun other hOther => ?_) h.2 fault hFault
      rw [List.mem_cons, not_or]
      exact ⟨fun hSame => distinct.1 (hSame ▸ hOther), new.2 other hOther⟩

end Faults

namespace Schema

variable {edition : Nat} {name : String} {fields : List Field}

/-- If the fields are there, their names are different, all bounds in them can be represented and
so can their size, then the only fault is a bit vector whose length cannot be rounded up, and it
traps. -/
theorem fault?_of_representable (hDrawn : Field.AllDrawn fields) (nonempty : fields ≠ [])
    (distinct : (fields.map Field.name).Nodup)
    (h : ∀ part ∈ Field.subshapes fields, part.Representable)
    (hSize : Field.plainSize fields < 2 ^ 64) (fault : Fault)
    (hFault : fault? fields = some fault) : fault.trap? = some .addOverflow := by
  rw [fault?, if_neg (by simpa using nonempty)] at hFault
  cases hField : Field.fault? [] fields with
  | some other =>
    rw [hField, Option.some_or] at hFault
    exact Field.fault?_of_representable hDrawn distinct (fun _ _ => List.not_mem_nil) h fault
      (hField.trans hFault)
  | none =>
    have hSum : Field.slotSum fields < wordLimit := by
      rwa [Field.slotSum_eq_plainSize (Field.sound_of_fault? hDrawn hField)]
    rw [hField, Option.none_or, if_pos hSum] at hFault
    cases hFault

/-- What is true of a schema drawn up from drawn-up parts, with all sizes in unbounded numbers. -/
theorem representable_of_make_eq_ok (hDrawn : Field.AllDrawn fields) {schema : Schema}
    (hMake : make edition name fields = .ok schema) :
    Field.AllSound fields ∧ fields ≠ [] ∧ (fields.map Field.name).Nodup ∧
      schema.fixedPart = Field.plainSize fields ∧ Field.plainSize fields < 2 ^ 64 ∧
      schema.isFixed = !holdsList (Field.subshapes fields) := by
  obtain ⟨-, -, fixedPart, -, rfl⟩ := make_eq_ok.mp hMake
  have hSchema : Drawn ⟨name, fields, fixedPart, fields.all (·.shape.isFixed), edition⟩ :=
    ⟨hMake, hDrawn⟩
  obtain ⟨nonempty, distinct, hSound, hPart, hWord, -⟩ := sound_of_drawn hSchema
  rw [Field.slotSum_eq_plainSize hSound] at hPart
  exact ⟨hSound, nonempty, distinct, hPart, hPart ▸ hWord, Field.all_isFixed_eq hSound⟩

/-- Wherever drawing up a schema from drawn-up parts does not trap, it succeeds exactly if the
fields are there, their names are different, all bounds in them can be represented and so can the
size of their fixed part. The schema then has this size. It is of fixed size exactly if no list
occurs in it, and the size of every shape of fixed size in it is counted as it is, from one
byte on. -/
theorem make_eq_ok_iff_representable (hDrawn : Field.AllDrawn fields)
    (hReturns : Stop.TrapFree (make edition name fields)) :
    ((∃ schema, make edition name fields = .ok schema) ↔
      fields ≠ [] ∧ (fields.map Field.name).Nodup ∧
        (∀ part ∈ Field.subshapes fields, part.Representable) ∧
        Field.plainSize fields < 2 ^ 64) ∧
    ∀ schema, make edition name fields = .ok schema →
      schema.fixedPart = Field.plainSize fields ∧
      (schema.isFixed = true ↔ ∀ part ∈ Field.subshapes fields, part.isList = false) ∧
      ∀ part ∈ Field.subshapes fields, part.isFixed = true →
        part.slotLength = .ok part.plainSize ∧ 1 ≤ part.plainSize := by
  apply And.intro
  · apply Iff.intro
    · intro h
      obtain ⟨schema, hMake⟩ := h
      obtain ⟨hSound, nonempty, distinct, -, hSize, -⟩ := representable_of_make_eq_ok hDrawn hMake
      exact ⟨nonempty, distinct, fun part hPart =>
        Shape.representable_of_sound (Field.sound_of_mem_subshapes hSound part hPart), hSize⟩
    · intro h
      obtain ⟨nonempty, distinct, hBounds, hSize⟩ := h
      rw [make_eq hDrawn] at hReturns ⊢
      cases hFault : fault? fields with
      | none => exact ⟨_, rfl⟩
      | some fault =>
        have hTrap := fault?_of_representable hDrawn nonempty distinct hBounds hSize fault hFault
        rw [hFault, Option.map_some, Fault.stop, hTrap] at hReturns
        exact absurd rfl (hReturns .addOverflow)
  · intro schema hMake
    obtain ⟨hSound, -, -, hPart, -, hFixed⟩ := representable_of_make_eq_ok hDrawn hMake
    refine ⟨hPart, ?_, fun part hMem _ => ?_⟩
    · rw [hFixed, Bool.not_eq_true', holdsList, List.any_eq_false]
      simp only [Bool.not_eq_true]
    · have hPart := Field.sound_of_mem_subshapes hSound part hMem
      rw [← Shape.slotSize_eq_plainSize hPart]
      exact ⟨Shape.slotLength_eq hPart, Shape.slotSize_pos hPart⟩

/-- The fields of the example are representable, and make twelve bytes with a list in them. -/
theorem representable_outerExample :
    (∀ part ∈ Field.subshapes outerExample.fields, part.Representable) ∧
      Field.plainSize outerExample.fields = 12 ∧ outerExample.isFixed = false := by
  have hDrawn : Field.AllDrawn outerExample.fields := outerExample_drawn.2
  have hMake : make 1 "Outer" outerExample.fields = .ok outerExample := outerExample_drawn.1
  have hReturns : Stop.TrapFree (make 1 "Outer" outerExample.fields) := by
    rw [hMake]
    nofun
  obtain ⟨hAccepts, hSizes⟩ := make_eq_ok_iff_representable hDrawn hReturns
  exact ⟨(hAccepts.mp ⟨_, hMake⟩).2.2.1, (hSizes _ hMake).1.symm, rfl⟩

end Schema

end BeaconSsz

import BeaconSsz.Proofs.Schema.Sound

/-!
# Why fields are refused

Drawing up a schema looks through the fields in order, and through every shape from the inside
out, and ends at the first fault. Which fault that is can be said in unbounded numbers. It is
reported as an error, but for two flaws of shapes: a bit vector whose length cannot be rounded up
to whole bytes, and an empty vector whose text needs the width of an integer in bits when that
width is not a word. These two are met by unchecked arithmetic, which traps.
-/

namespace BeaconSsz

/-- What is wrong with a shape. -/
inductive Flaw where
  /-- An integer of an unusual width. -/
  | width (bytes : UInt64)
  /-- A shape of no length. -/
  | empty (shape : Shape)
  /-- A shape with a size that is not a word. -/
  | tooLarge (shape : Shape)

/-- What is wrong with the fields of a container. -/
inductive Schema.Fault where
  | noFields
  | repeated (field : String)
  | flawed (field : String) (flaw : Flaw)
  /-- The fields together, of which the last one is blamed. -/
  | tooLarge (last : String)

/-- The error that a flaw of a field calls for. -/
def Flaw.error (container field : String) : Flaw → SchemaError
  | .width bytes => .invalidUintWidth container field bytes
  | .empty shape => .zeroLength container field shape.text
  | .tooLarge shape => .boundNotRepresentable container field shape.text

/-- The trap that stands in the way of reporting a flaw. -/
def Flaw.trap? : Flaw → Option Trap
  | .tooLarge (.bitvector _) => some .addOverflow
  | .empty shape => if shape.hasWordWidths then none else some .multiplyOverflow
  | _ => none

/-- How a flaw ends the check of a field. -/
def Flaw.stop (container field : String) (flaw : Flaw) : Stop SchemaError :=
  match flaw.trap? with
  | some trap => .trapped trap
  | none => .refused (flaw.error container field)

namespace Schema.Fault

/-- The error that a fault of a container calls for. -/
def error (container : String) : Fault → SchemaError
  | noFields => .emptyContainer container
  | repeated field => .duplicateField container field
  | flawed field flaw => flaw.error container field
  | tooLarge last => .boundNotRepresentable container last container

/-- The trap that stands in the way of reporting a fault. -/
def trap? : Fault → Option Trap
  | flawed _ flaw => flaw.trap?
  | _ => none

/-- How a fault ends the drawing up of a schema. -/
def stop (container : String) (fault : Fault) : Stop SchemaError :=
  match fault.trap? with
  | some trap => .trapped trap
  | none => .refused (fault.error container)

end Schema.Fault

namespace Shape

/-- What is computed from the outermost bound of the shape is a word. -/
def sizesFit : Shape → Bool
  | byteList limit => limit.toNat + (bytesPerChunk - 1) < wordLimit
  | bitvector length => length.toNat + 7 < wordLimit
  | bitlist limit => limit.toNat + (bitsPerChunk - 1) < wordLimit
  | vector element length => !element.isFixed || element.slotSize * length.toNat < wordLimit
  | list element limit =>
    !element.isBasic || limit.toNat * element.slotSize + (bytesPerChunk - 1) < wordLimit
  | _ => true

/-- The flaw of a shape that is looked at only for its sizes. -/
def sizeFlaw? (shape : Shape) : Option Flaw :=
  if shape.sizesFit then none else some (.tooLarge shape)

/-- The first flaw of a shape, from the inside out. An empty vector is not looked into. -/
def flaw? : Shape → Option Flaw
  | uint width => if width ∈ uintWidths then none else some (.width width)
  | byteVector length => if length = 0 then some (.empty (byteVector length)) else none
  | bitvector length =>
    if length = 0 then some (.empty (bitvector length))
    else (bitvector length).sizeFlaw?
  | vector element length =>
    if length = 0 then some (.empty (vector element length))
    else element.flaw?.or (vector element length).sizeFlaw?
  | list element limit => element.flaw?.or (list element limit).sizeFlaw?
  | shape => shape.sizeFlaw?

end Shape

/-- The first fault of fields behind the names that were seen. -/
def Field.fault? : List String → List Field → Option Schema.Fault
  | _, [] => none
  | seen, field :: rest =>
    if field.name ∈ seen then some (.repeated field.name)
    else (field.shape.flaw?.map (.flawed field.name)).or (fault? (field.name :: seen) rest)

/-- The first fault of the fields of a container. -/
def Schema.fault? (fields : List Field) : Option Fault :=
  if fields.isEmpty then some .noFields
  else (Field.fault? [] fields).or
    (if Field.slotSum fields < wordLimit then none else some (.tooLarge (lastName fields)))

/-- A computation that ends well, unless there is a reason to stop it. -/
def unlessStopped {ε α : Type} (stop? : Option ε) (result : α) : Except ε α :=
  match stop? with
  | some stop => .error stop
  | none => .ok result

/-- Two reasons to stop are looked for one after the other. -/
theorem unlessStopped_or {ε α : Type} (first? next? : Option ε) (result : α) :
    unlessStopped (first?.or next?) result =
      (unlessStopped first? () >>= fun _ => unlessStopped next? result) := by
  cases first? <;> rfl

namespace Shape

variable {container field : String}

/-- Integers of the usual widths have a width in bits. -/
theorem hasWordWidths_of_sound : {shape : Shape} → shape.Sound → shape.hasWordWidths = true
  | .uint width, h => by
    have := (toNat_of_mem_uintWidths h).2
    rw [hasWordWidths, decide_eq_true_iff, wordLimit]
    omega
  | .vector element _, h => show element.hasWordWidths = true from hasWordWidths_of_sound h.2.1
  | .list element _, h => show element.hasWordWidths = true from hasWordWidths_of_sound h.1
  | .boolean, _ | .byteVector _, _ | .byteList _, _ | .bitvector _, _ | .bitlist _, _
  | .container _, _ => rfl

/-- The checked count of the slot of a sound shape succeeds with the exact one. -/
theorem exactSlotLength?_of_sound : {shape : Shape} → shape.Sound →
    shape.exactSlotLength? = .ok (some shape.slotSize)
  | .vector element length, h => by
    cases hFixed : element.isFixed with
    | true => exact exactSlotLength?_eq h hFixed
    | false =>
      rw [exactSlotLength?, exactSlotLength?_of_sound h.2.1, slotSize]
      simp [hFixed, Bind.bind, Except.bind, pure, Except.pure]
  | .list element _, h => by
    rw [exactSlotLength?, exactSlotLength?_of_sound h.1]
    rfl
  | .bitvector _, h => exactSlotLength?_eq h rfl
  | .boolean, _ | .uint _, _ | .byteVector _, _ | .byteList _, _ | .bitlist _, _
  | .container _, _ => rfl

/-- Where the sizes of a shape are counted and its text can be shown, it is refused if a size is
not a word. -/
theorem checkSizes_eq {shape : Shape} {slot limit : Option Nat}
    (hSlot : shape.exactSlotLength? = .ok slot) (hLimit : shape.roundableLimit? = .ok limit)
    (hFit : (slot.isSome && limit.isSome) = shape.sizesFit)
    (hWidths : shape.hasWordWidths = true) (hTrap : (Flaw.tooLarge shape).trap? = none) :
    checkSizes container field shape =
      unlessStopped (shape.sizeFlaw?.map (Flaw.stop container field)) () := by
  rw [checkSizes, hSlot, hLimit, render, if_pos hWidths, sizeFlaw?, ← hFit]
  cases slot <;> cases limit <;> simp [Flaw.stop, hTrap] <;> rfl

/-- Refusing an empty shape reports its flaw. -/
theorem refuseZero_eq (shape : Shape) :
    refuseZero container field shape = .error ((Flaw.empty shape).stop container field) := by
  unfold refuseZero render Flaw.stop Flaw.trap?
  cases h : shape.hasWordWidths <;> simp [h] <;> rfl

/-- A shape has no flaw in its sizes exactly when they are words. -/
theorem sizeFlaw?_eq_none {shape : Shape} : shape.sizeFlaw? = none ↔ shape.sizesFit = true := by
  simp [sizeFlaw?]

/-- A drawn-up shape without a flaw is sound. -/
theorem sound_of_flaw? : {shape : Shape} → shape.Drawn → shape.flaw? = none → shape.Sound
  | .boolean, _, _ => trivial
  | .uint width, _, h => by
    rw [flaw?, ite_eq_left_iff] at h
    by_contra hWidth
    exact absurd (h hWidth) (by simp)
  | .byteVector length, _, h => by
    exact toNat_pos_of_ne_zero (by simpa [flaw?] using h)
  | .byteList limit, _, h | .bitlist limit, _, h => by
    simpa [flaw?, sizeFlaw?, sizesFit, Sound] using h
  | .bitvector length, _, h => by
    rw [flaw?] at h
    split_ifs at h with hLength
    rw [sizeFlaw?_eq_none] at h
    exact ⟨toNat_pos_of_ne_zero hLength, by simpa [sizesFit] using h⟩
  | .vector element length, hDrawn, h => by
    rw [Drawn] at hDrawn
    rw [flaw?] at h
    split_ifs at h with hLength
    rw [Option.or_eq_none_iff, sizeFlaw?_eq_none] at h
    exact ⟨toNat_pos_of_ne_zero hLength, sound_of_flaw? hDrawn h.1,
      fun hFixed => by simpa [sizesFit, hFixed] using h.2⟩
  | .list element limit, hDrawn, h => by
    rw [Drawn] at hDrawn
    rw [flaw?, Option.or_eq_none_iff, sizeFlaw?_eq_none] at h
    exact ⟨sound_of_flaw? hDrawn h.1, fun hBasic => by simpa [sizesFit, hBasic] using h.2⟩
  | .container schema, hDrawn, _ => by
    rw [Drawn] at hDrawn
    exact Schema.sound_of_drawn hDrawn

/-- Rounding up the length of a bit vector traps if the sum is not a word. -/
theorem checkSizes_bitvector (length : UInt64) :
    checkSizes container field (bitvector length) =
      unlessStopped ((bitvector length).sizeFlaw?.map (Flaw.stop container field)) () := by
  unfold sizeFlaw? sizesFit
  by_cases h : length.toNat + 7 < wordLimit <;>
    simp [checkSizes, exactSlotLength?, slotLength, bytesForBits, Word.add, roundableLimit?, h] <;>
    rfl

/-- A sum is given exactly when it is a word. -/
theorem isSome_add? (a b : Nat) : (Word.add? a b).isSome = decide (a + b < wordLimit) := by
  unfold Word.add?
  split <;> simp_all

/-- A product is given exactly when it is a word. -/
theorem isSome_mul? (a b : Nat) : (Word.mul? a b).isSome = decide (a * b < wordLimit) := by
  unfold Word.mul?
  split <;> simp_all

/-- A product with something added to it is given exactly when the sum is a word. -/
theorem isSome_add?_mul? (a b c : Nat) :
    ((Word.mul? a b).bind (Word.add? · c)).isSome = decide (a * b + c < wordLimit) := by
  rw [Bool.eq_iff_iff, decide_eq_true_iff, Option.isSome_iff_exists]
  simp only [Option.bind_eq_some_iff, Word.mul?_eq_some, Word.add?_eq_some]
  apply Iff.intro
  · intro h
    obtain ⟨_, _, ⟨-, rfl⟩, h, -⟩ := h
    exact h
  · intro h
    exact ⟨_, _, ⟨Nat.lt_of_add_right_lt h, rfl⟩, h, rfl⟩

/-- Behind the check of its elements, a vector is looked at for its sizes. -/
theorem checkSizes_vector {element : Shape} (length : UInt64) (h : element.Sound) :
    checkSizes container field (vector element length) =
      unlessStopped ((vector element length).sizeFlaw?.map (Flaw.stop container field)) () := by
  have hWidths : (vector element length).hasWordWidths = true :=
    show element.hasWordWidths = true from hasWordWidths_of_sound h
  have hSlot : (vector element length).exactSlotLength? =
      .ok (if element.isFixed then Word.mul? element.slotSize length.toNat else some offsetLength) := by
    rw [exactSlotLength?, exactSlotLength?_of_sound h]
    rfl
  have hLimit : (vector element length).roundableLimit? = .ok (some 0) := by simp [roundableLimit?]
  refine checkSizes_eq hSlot hLimit ?_ hWidths rfl
  rw [sizesFit]
  cases element.isFixed with
  | true => simp [isSome_mul?]
  | false => simp

/-- Behind the check of its elements, a list is looked at for its sizes. -/
theorem checkSizes_list {element : Shape} (limit : UInt64) (h : element.Sound) :
    checkSizes container field (list element limit) =
      unlessStopped ((list element limit).sizeFlaw?.map (Flaw.stop container field)) () := by
  have hWidths : (list element limit).hasWordWidths = true :=
    show element.hasWordWidths = true from hasWordWidths_of_sound h
  have hSlot : (list element limit).exactSlotLength? = .ok (some offsetLength) := by
    rw [exactSlotLength?, exactSlotLength?_of_sound h]
    rfl
  cases hBasic : element.isBasic with
  | true =>
    have hLimit : (list element limit).roundableLimit? =
        .ok ((Word.mul? limit.toNat element.slotSize).bind (Word.add? · (bytesPerChunk - 1))) := by
      rw [roundableLimit?, if_pos hBasic, slotLength_eq h]
      rfl
    refine checkSizes_eq hSlot hLimit ?_ hWidths rfl
    rw [sizesFit, hBasic, Option.isSome_some, Bool.true_and, isSome_add?_mul?]
    rfl
  | false =>
    have hLimit : (list element limit).roundableLimit? = .ok (some 0) := by
      simp [roundableLimit?, hBasic]
    exact checkSizes_eq hSlot hLimit (by simp [sizesFit, hBasic]) hWidths rfl

/-- The check of a shape ends at its first flaw. -/
theorem check_eq : {shape : Shape} → shape.Drawn →
    shape.check container field =
      unlessStopped (shape.flaw?.map (Flaw.stop container field)) ()
  | .boolean, _ => rfl
  | .uint width, _ => by
    rw [check, flaw?]
    by_cases h : width ∈ uintWidths
    · rw [if_pos h, if_pos h]
      rfl
    · rw [if_neg h, if_neg h]
      rfl
  | .byteVector length, _ => by
    rw [check, flaw?]
    split
    · exact refuseZero_eq _
    · rfl
  | .byteList limit, _ | .bitlist limit, _ => by
    rw [check, flaw?]
    · exact checkSizes_eq rfl rfl (by simp [sizesFit, isSome_add?]) rfl rfl
    all_goals simp
  | .bitvector length, _ => by
    rw [check, flaw?]
    split
    · exact refuseZero_eq _
    · exact checkSizes_bitvector length
  | .vector element length, hDrawn => by
    rw [Drawn] at hDrawn
    rw [check, flaw?]
    split
    · exact refuseZero_eq _
    · rw [Option.map_or, unlessStopped_or, check_eq hDrawn]
      cases hFlaw : element.flaw? with
      | none => exact checkSizes_vector length (sound_of_flaw? hDrawn hFlaw)
      | some flaw => rfl
  | .list element limit, hDrawn => by
    rw [Drawn] at hDrawn
    rw [check, flaw?, Option.map_or, unlessStopped_or, check_eq hDrawn]
    cases hFlaw : element.flaw? with
    | none => exact checkSizes_list limit (sound_of_flaw? hDrawn hFlaw)
    | some flaw => rfl
  | .container _, _ => rfl

end Shape

variable {container name : String} {edition : Nat} {fields : List Field}

/-- Drawn-up fields without a fault are sound. -/
theorem Field.sound_of_fault? : {fields : List Field} → {seen : List String} →
    Field.AllDrawn fields → fault? seen fields = none → Field.AllSound fields
  | [], _, _, _ => trivial
  | ⟨name, shape⟩ :: fields, seen, ⟨hShape, hFields⟩, h => by
    rw [fault?] at h
    split_ifs at h
    rw [Option.or_eq_none_iff, Option.map_eq_none_iff] at h
    exact ⟨Shape.sound_of_flaw? hShape h.1, sound_of_fault? hFields h.2⟩

namespace Schema

/-- The check of fields ends at their first fault. -/
theorem checkFields_eq : {fields : List Field} → {seen : List String} → Field.AllDrawn fields →
    checkFields container seen fields =
      unlessStopped ((Field.fault? seen fields).map (Fault.stop container)) ()
  | [], _, _ => rfl
  | ⟨name, shape⟩ :: fields, seen, ⟨hShape, hFields⟩ => by
    rw [checkFields, Field.fault?]
    split
    · rfl
    · rw [Option.map_or, unlessStopped_or, Shape.check_eq hShape, checkFields_eq hFields,
        Option.map_map]
      rfl

/-- The slots of sound fields are added up if the sum is a word. -/
theorem sumSlots?_eq {fields : List Field} (sound : Field.AllSound fields) {sum : Nat}
    (hsum : sum < wordLimit) :
    sumSlots? sum fields =
      .ok (if sum + Field.slotSum fields < wordLimit then some (sum + Field.slotSum fields)
        else none) := by
  induction fields generalizing sum with
  | nil =>
    rw [sumSlots?, show Field.slotSum [] = 0 from rfl, Nat.add_zero, if_pos hsum]
  | cons field fields ih =>
    obtain ⟨name, shape⟩ := field
    rw [sumSlots?, Shape.slotLength_eq sound.1, Field.slotSum_cons, ← Nat.add_assoc]
    by_cases h : sum + shape.slotSize < wordLimit
    · simp only [Bind.bind, Except.bind, Word.add?, if_pos h]
      exact ih sound.2 h
    · have : ¬ sum + shape.slotSize + Field.slotSum fields < wordLimit := by omega
      simp only [Bind.bind, Except.bind, Word.add?, if_neg h, if_neg this]
      rfl

/-- Drawing up a schema from drawn-up parts ends at the first fault of the fields. -/
theorem make_eq (drawn : Field.AllDrawn fields) :
    make edition name fields =
      unlessStopped ((fault? fields).map (Fault.stop name))
        ⟨name, fields, Field.slotSum fields, fields.all (·.shape.isFixed), edition⟩ := by
  rw [make, fault?]
  cases hEmpty : fields.isEmpty with
  | true => rfl
  | false =>
    simp only [Bool.false_eq_true, ↓reduceIte]
    rw [Option.map_or, unlessStopped_or, checkFields_eq drawn]
    cases hFault : Field.fault? [] fields with
    | some fault => rfl
    | none =>
      rw [sumSlots?_eq (Field.sound_of_fault? drawn hFault) (by decide), Nat.zero_add]
      by_cases h : Field.slotSum fields < wordLimit <;> simp only [h, ↓reduceIte] <;> rfl

/-- The faults whose report is stopped by a trap. -/
theorem Fault.trap?_eq_some {fault : Fault} {trap : Trap} :
    fault.trap? = some trap ↔
      (∃ field length, fault = .flawed field (.tooLarge (.bitvector length)) ∧
        .addOverflow = trap) ∨
      ∃ field shape, fault = .flawed field (.empty shape) ∧ shape.hasWordWidths = false ∧
        .multiplyOverflow = trap := by
  cases fault with
  | flawed field flaw =>
    cases flaw with
    | width bytes => simp [trap?, Flaw.trap?]
    | empty shape => cases h : shape.hasWordWidths <;> simp [trap?, Flaw.trap?, h]
    | tooLarge shape => cases shape <;> simp [trap?, Flaw.trap?]
  | _ => simp [trap?]

/-- Drawing up a schema from drawn-up parts has three ends. The fields have no fault, and there is
a schema; or their first fault is reported, one of a size that is not a word as a bound that is
not representable; or it traps, and then the first fault is a bit vector whose rounded-up length
is not a word, or an empty shape whose text names an integer whose width in bits is not a word. -/
theorem make_ends (drawn : Field.AllDrawn fields) :
    (∀ schema, make edition name fields = .ok schema ↔
      fault? fields = none ∧
        ⟨name, fields, Field.slotSum fields, fields.all (·.shape.isFixed), edition⟩ = schema) ∧
    (∀ error, make edition name fields = .error (.refused error) ↔
      ∃ fault, fault? fields = some fault ∧ fault.trap? = none ∧ fault.error name = error) ∧
    (∀ trap, make edition name fields = .error (.trapped trap) ↔
      (∃ field length, fault? fields = some (.flawed field (.tooLarge (.bitvector length))) ∧
        .addOverflow = trap) ∨
      ∃ field shape, fault? fields = some (.flawed field (.empty shape)) ∧
        shape.hasWordWidths = false ∧ .multiplyOverflow = trap) := by
  rw [make_eq drawn]
  cases fault? fields with
  | none => simp [unlessStopped]
  | some fault =>
    simp only [Option.map_some, unlessStopped, Option.some.injEq, ← Fault.trap?_eq_some]
    cases hTrap : fault.trap? with
    | none => simp [Fault.stop, hTrap]
    | some trap => simp [Fault.stop, hTrap]

/-- The fields of the example have no fault; an overlong list of bytes inside a list is reported. -/
theorem make_outerExample :
    make 1 "Outer" outerExample.fields = .ok outerExample ∧
      make 0 "T" [⟨"notes", .list (.byteList 18446744073709551600) 4⟩] =
        .error (.refused
          (.boundNotRepresentable "T" "notes" "ByteList[18446744073709551600]")) := by
  have hOuter : Field.AllDrawn outerExample.fields := outerExample_drawn.2
  have hLong : Field.AllDrawn [⟨"notes", .list (.byteList 18446744073709551600) 4⟩] :=
    ⟨trivial, trivial⟩
  exact ⟨((make_ends hOuter).1 _).mpr ⟨rfl, rfl⟩,
    ((make_ends hLong).2.1 _).mpr ⟨_, rfl, rfl, rfl⟩⟩

/-- The longest bit vector is not reported as a bound that is not representable, and an empty
vector of integers of too many bits not as one of no length: both trap. -/
theorem make_overlongBits :
    Field.AllDrawn [⟨"x", .bitvector 18446744073709551615⟩] ∧
      make 0 "T" [⟨"x", .bitvector 18446744073709551615⟩] = .error (.trapped .addOverflow) ∧
      Field.AllDrawn [⟨"x", .vector (.uint 2305843009213693952) 0⟩] ∧
      make 0 "T" [⟨"x", .vector (.uint 2305843009213693952) 0⟩] =
        .error (.trapped .multiplyOverflow) :=
  ⟨⟨trivial, trivial⟩, rfl, ⟨trivial, trivial⟩, rfl⟩

end Schema

end BeaconSsz

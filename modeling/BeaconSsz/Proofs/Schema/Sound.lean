import BeaconSsz.Proofs.Result
import BeaconSsz.Schema.Make
import Mathlib.Tactic.Ring

/-!
# What drawing up a schema establishes

A drawn-up schema is sound: in unbounded numbers, its integers have the usual widths, nothing of
fixed length is empty, and the size of every fixed part and the rounded-up capacity of every list
of small units are words. All later arithmetic rests on this. The bytes that a shape takes in the
fixed part of its parent are counted without a bound here, and soundness makes the bounded counts
agree with it.
-/

namespace BeaconSsz

mutual

/-- Every schema inside the shape was drawn up. -/
def Shape.Drawn : Shape → Prop
  | .vector element _ => element.Drawn
  | .list element _ => element.Drawn
  | .container schema => schema.Drawn
  | _ => True

/-- The schema was drawn up from its name and fields, and so was every schema inside it. -/
def Schema.Drawn : Schema → Prop
  | ⟨name, fields, fixedPart, isFixed, edition⟩ =>
    Schema.make edition name fields = .ok ⟨name, fields, fixedPart, isFixed, edition⟩ ∧
      Field.AllDrawn fields

/-- Every schema inside the fields was drawn up. -/
def Field.AllDrawn : List Field → Prop
  | [] => True
  | ⟨_, shape⟩ :: fields => shape.Drawn ∧ Field.AllDrawn fields

end

/-- A container of fixed size, to stand inside another one. -/
def innerExample : Schema :=
  ⟨"Inner", [⟨"count", .uint 2⟩, ⟨"marks", .bitvector 3⟩], 3, true, 0⟩

/-- A container with fields of fixed and of variable size, at two depths. -/
def outerExample : Schema :=
  ⟨"Outer", [⟨"flag", .boolean⟩, ⟨"notes", .list (.byteList 8) 4⟩, ⟨"votes", .bitlist 10⟩,
    ⟨"inner", .container innerExample⟩], 12, false, 1⟩

/-- The example is drawn up. -/
theorem outerExample_drawn : outerExample.Drawn :=
  ⟨rfl, trivial, trivial, trivial, ⟨rfl, trivial, trivial, trivial⟩, trivial⟩

/-- The bytes that the shape takes in the fixed part of its parent. -/
def Shape.slotSize : Shape → Nat
  | .boolean => 1
  | .uint width => width.toNat
  | .byteVector length => length.toNat
  | .bitvector length => (length.toNat + 7) / 8
  | .vector element length =>
    if element.isFixed then element.slotSize * length.toNat else offsetLength
  | .container schema => if schema.isFixed then schema.fixedPart else offsetLength
  | .byteList _ | .bitlist _ | .list _ _ => offsetLength

/-- The bytes of the fixed part of a container. -/
def Field.slotSum (fields : List Field) : Nat :=
  (fields.map (·.shape.slotSize)).sum

mutual

/-- The bounds of a shape are not empty and not too large. -/
def Shape.Sound : Shape → Prop
  | .boolean => True
  | .uint width => width ∈ uintWidths
  | .byteVector length => 0 < length.toNat
  | .byteList limit => limit.toNat + (bytesPerChunk - 1) < wordLimit
  | .bitvector length => 0 < length.toNat ∧ length.toNat + 7 < wordLimit
  | .bitlist limit => limit.toNat + (bitsPerChunk - 1) < wordLimit
  | .vector element length =>
    0 < length.toNat ∧ element.Sound ∧
      (element.isFixed = true → element.slotSize * length.toNat < wordLimit)
  | .list element limit =>
    element.Sound ∧
      (element.isBasic = true →
        limit.toNat * element.slotSize + (bytesPerChunk - 1) < wordLimit)
  | .container schema => schema.Sound

/-- A container has fields of different names and sound shapes, and a fixed part whose size is a
word. -/
def Schema.Sound : Schema → Prop
  | ⟨_, fields, fixedPart, isFixed, _⟩ =>
    fields ≠ [] ∧ (fields.map Field.name).Nodup ∧ Field.AllSound fields ∧
      fixedPart = Field.slotSum fields ∧ fixedPart < wordLimit ∧
      isFixed = fields.all (·.shape.isFixed)

/-- All fields have sound shapes. -/
def Field.AllSound : List Field → Prop
  | [] => True
  | ⟨_, shape⟩ :: fields => shape.Sound ∧ Field.AllSound fields

end

/-- What soundness says of a container, by the names of its parts. -/
theorem Schema.sound_iff {schema : Schema} :
    schema.Sound ↔
      schema.fields ≠ [] ∧ (schema.fields.map Field.name).Nodup ∧ Field.AllSound schema.fields ∧
        schema.fixedPart = Field.slotSum schema.fields ∧ schema.fixedPart < wordLimit ∧
        schema.isFixed = schema.fields.all (·.shape.isFixed) := by
  cases schema
  exact Iff.rfl

/-- A field of sound fields has a sound shape. -/
theorem Field.AllSound.get {fields : List Field} (h : Field.AllSound fields) {index : Nat}
    {field : Field} (hfield : fields[index]? = some field) : field.shape.Sound := by
  induction fields generalizing index with
  | nil => simp at hfield
  | cons first fields ih =>
    obtain ⟨name, shape⟩ := first
    cases index with
    | zero =>
      cases hfield
      exact h.1
    | succ index => exact ih h.2 hfield

/-- Fields in front of a place are sound as all are. -/
theorem Field.AllSound.take {fields : List Field} (h : Field.AllSound fields) (count : Nat) :
    Field.AllSound (fields.take count) := by
  induction fields generalizing count with
  | nil => rwa [List.take_nil]
  | cons field fields ih =>
    obtain ⟨name, shape⟩ := field
    cases count with
    | zero => trivial
    | succ count => exact ⟨h.1, ih h.2 count⟩

/-- The bytes of a number of bits are counted if the bits rounded up are a word. -/
theorem bytesForBits_eq {bits : Nat} (h : bits + 7 < wordLimit) :
    bytesForBits bits = .ok ((bits + 7) / 8) := by
  rw [bytesForBits, Word.add, if_pos h]
  rfl

namespace Shape

/-- The slot of a sound shape is counted exactly. -/
theorem slotLength_eq : {shape : Shape} → shape.Sound → shape.slotLength = .ok shape.slotSize
  | .boolean, _ | .uint _, _ | .byteVector _, _ | .byteList _, _ | .bitlist _, _ | .list _ _, _
  | .container _, _ => rfl
  | .bitvector _, h => bytesForBits_eq h.2
  | .vector element length, h => by
    obtain ⟨-, hElement, hSize⟩ := h
    rw [slotLength, slotSize]
    split
    · next hFixed =>
      rw [slotLength_eq hElement, ← Word.saturatingMul_eq (hSize hFixed)]
      rfl
    · rfl

/-- The checked count of a sound shape of fixed size succeeds with the exact one. -/
theorem exactSlotLength?_eq : {shape : Shape} → shape.Sound → shape.isFixed = true →
    shape.exactSlotLength? = .ok (some shape.slotSize)
  | .vector element length, h, hFixed => by
    obtain ⟨-, hElement, hSize⟩ := h
    rw [isFixed] at hFixed
    rw [exactSlotLength?, exactSlotLength?_eq hElement hFixed, slotSize, if_pos hFixed]
    simp [Bind.bind, Except.bind, pure, Except.pure, hFixed, Word.mul?, hSize hFixed]
  | .boolean, h, _ | .uint _, h, _ | .byteVector _, h, _ | .bitvector _, h, _
  | .container _, h, _ => by
    rw [exactSlotLength?, slotLength_eq h]
    · rfl
    all_goals simp
  | .byteList _, _, h | .bitlist _, _, h | .list _ _, _, h => by simp [isFixed] at h

/-- The sizes of a shape pass exactly when both the slot and the rounded capacity are words. -/
theorem checkSizes_eq_ok {container field : String} {shape : Shape} :
    checkSizes container field shape = .ok () ↔
      (∃ slot, shape.exactSlotLength? = .ok (some slot)) ∧
        ∃ limit, shape.roundableLimit? = .ok (some limit) := by
  have refused (text : Except Trap String) :
      ¬ (Stop.orTrap text >>= fun text =>
        Stop.refuse (.boundNotRepresentable container field text) :
          Except (Stop SchemaError) Unit) = .ok () := by
    simp [Stop.refuse]
  unfold checkSizes
  simp only [bind_eq_ok, Stop.orTrap_eq_ok]
  apply Iff.intro
  · intro h
    obtain ⟨slot, hslot, h⟩ := h
    cases slot with
    | none => exact absurd h (refused _)
    | some slot =>
      obtain ⟨limit, hlimit, h⟩ := bind_eq_ok.mp h
      rw [Stop.orTrap_eq_ok] at hlimit
      cases limit with
      | none => exact absurd h (refused _)
      | some limit => exact ⟨⟨slot, hslot⟩, ⟨limit, hlimit⟩⟩
  · intro h
    obtain ⟨⟨slot, hslot⟩, ⟨limit, hlimit⟩⟩ := h
    exact ⟨_, hslot, bind_eq_ok.mpr ⟨_, Stop.orTrap_eq_ok.mpr hlimit, rfl⟩⟩

/-- Refusing a shape of no length is no success. -/
@[simp] theorem refuseZero_ne_ok {container field : String} {shape : Shape} :
    refuseZero container field shape = .ok () ↔ False := by
  simp [refuseZero, Stop.refuse]

end Shape

/-- A length that is not zero is positive. -/
theorem toNat_pos_of_ne_zero {n : UInt64} (h : n ≠ 0) : 0 < n.toNat := by
  rw [Nat.pos_iff_ne_zero, ← UInt64.toNat_zero]
  exact mt UInt64.toNat_inj.mp h

namespace Schema

/-- What drawing up a schema checks, and what it returns. -/
theorem make_eq_ok {edition : Nat} {name : String} {fields : List Field} {schema : Schema} :
    make edition name fields = .ok schema ↔
      fields ≠ [] ∧ checkFields name [] fields = .ok () ∧
        ∃ fixedPart, sumSlots? 0 fields = .ok (some fixedPart) ∧
          schema = ⟨name, fields, fixedPart, fields.all (·.shape.isFixed), edition⟩ := by
  unfold make
  cases fields with
  | nil => simp [Stop.refuse]
  | cons field fields =>
    simp only [List.isEmpty_cons, Bool.false_eq_true, ↓reduceIte, bind_eq_ok,
      Stop.orTrap_eq_ok, ne_eq, reduceCtorEq, not_false_eq_true, true_and]
    apply Iff.intro
    · intro h
      obtain ⟨⟨⟩, hcheck, sum, hsum, h⟩ := h
      cases sum with
      | none => simp [Stop.refuse] at h
      | some fixedPart => exact ⟨hcheck, fixedPart, hsum, (pure_eq_ok.mp h).symm⟩
    · intro h
      obtain ⟨hcheck, fixedPart, hsum, rfl⟩ := h
      exact ⟨(), hcheck, some fixedPart, hsum, rfl⟩

/-- The slots of sound fields are added up exactly, and their sum is a word. -/
theorem sumSlots?_eq_some {fields : List Field} (sound : Field.AllSound fields)
    {sum total : Nat} (hsum : sum < wordLimit)
    (h : sumSlots? sum fields = .ok (some total)) :
    total = sum + Field.slotSum fields ∧ total < wordLimit := by
  induction fields generalizing sum with
  | nil =>
    have : sum = total := by simpa [sumSlots?] using h
    subst this
    exact ⟨by simp [Field.slotSum], hsum⟩
  | cons field fields ih =>
    obtain ⟨name, shape⟩ := field
    obtain ⟨hField, hFields⟩ := sound
    simp only [sumSlots?, bind_eq_ok, Shape.slotLength_eq hField, Except.ok.injEq] at h
    obtain ⟨length, rfl, h⟩ := h
    split at h
    · next next hnext =>
      obtain ⟨hlt, rfl⟩ := Word.add?_eq_some.mp hnext
      obtain ⟨rfl, htotal⟩ := ih hFields hlt h
      refine ⟨?_, htotal⟩
      rw [Field.slotSum, Field.slotSum, List.map_cons, List.sum_cons, Nat.add_assoc]
    · simp at h

end Schema

mutual

/-- A shape that passes its check is sound. -/
theorem Shape.sound_of_check : {shape : Shape} → {container field : String} → shape.Drawn →
    shape.check container field = .ok () → shape.Sound
  | .boolean, _, _, _, _ => trivial
  | .uint width, _, _, _, h => by
    rw [Shape.check] at h
    split at h
    · next hWidth => exact hWidth
    · simp [Stop.refuse] at h
  | .byteVector length, _, _, _, h => by
    rw [Shape.check] at h
    split at h
    · simp at h
    · next hLength => exact toNat_pos_of_ne_zero hLength
  | .byteList limit, _, _, _, h => by
    rw [Shape.check, Shape.checkSizes_eq_ok] at h
    obtain ⟨-, room, hRoom⟩ := h
    exact (Word.add?_eq_some.mp (Except.ok.inj hRoom)).1
    all_goals simp
  | .bitvector length, _, _, _, h => by
    rw [Shape.check] at h
    split at h
    · simp at h
    · next hLength =>
      obtain ⟨⟨slot, hSlot⟩, -⟩ := Shape.checkSizes_eq_ok.mp h
      simp only [Shape.exactSlotLength?, Shape.slotLength, bytesForBits, bind_eq_ok,
        Word.add_eq_ok] at hSlot
      obtain ⟨_, ⟨_, ⟨hFits, -⟩, -⟩, -⟩ := hSlot
      exact ⟨toNat_pos_of_ne_zero hLength, hFits⟩
  | .bitlist limit, _, _, _, h => by
    rw [Shape.check, Shape.checkSizes_eq_ok] at h
    obtain ⟨-, room, hRoom⟩ := h
    exact (Word.add?_eq_some.mp (Except.ok.inj hRoom)).1
    all_goals simp
  | .vector element length, _, _, hDrawn, h => by
    rw [Shape.check] at h
    split at h
    · simp at h
    · next hLength =>
      obtain ⟨⟨⟩, hElement, hSizes⟩ := bind_eq_ok.mp h
      have sound := Shape.sound_of_check (by simpa [Shape.Drawn] using hDrawn) hElement
      refine ⟨toNat_pos_of_ne_zero hLength, sound, fun hFixed => ?_⟩
      obtain ⟨⟨slot, hSlot⟩, -⟩ := Shape.checkSizes_eq_ok.mp hSizes
      rw [Shape.exactSlotLength?, Shape.exactSlotLength?_eq sound hFixed] at hSlot
      have : Word.mul? element.slotSize length.toNat = some slot := by
        simpa [Bind.bind, Except.bind, hFixed] using hSlot
      exact (Word.mul?_eq_some.mp this).1
  | .list element limit, _, _, hDrawn, h => by
    rw [Shape.check] at h
    obtain ⟨⟨⟩, hElement, hSizes⟩ := bind_eq_ok.mp h
    have sound := Shape.sound_of_check (by simpa [Shape.Drawn] using hDrawn) hElement
    refine ⟨sound, fun hBasic => ?_⟩
    obtain ⟨-, room, hRoom⟩ := Shape.checkSizes_eq_ok.mp hSizes
    rw [Shape.roundableLimit?, if_pos hBasic, Shape.slotLength_eq sound] at hRoom
    have : (Word.mul? limit.toNat element.slotSize).bind (Word.add? · (bytesPerChunk - 1)) =
        some room := by
      simpa [Bind.bind, Except.bind] using hRoom
    obtain ⟨product, hProduct, hSum⟩ := Option.bind_eq_some_iff.mp this
    rw [(Word.mul?_eq_some.mp hProduct).2]
    exact (Word.add?_eq_some.mp hSum).1
  | .container schema, _, _, hDrawn, _ => by
    exact Schema.sound_of_drawn (by simpa [Shape.Drawn] using hDrawn)

/-- A drawn-up schema is sound. -/
theorem Schema.sound_of_drawn : {schema : Schema} → schema.Drawn → schema.Sound
  | ⟨name, fields, fixedPart, isFixed, edition⟩, ⟨hMake, hFields⟩ => by
    obtain ⟨nonempty, hCheck, sum, hSum, hSchema⟩ := Schema.make_eq_ok.mp hMake
    obtain ⟨sound, distinct, -⟩ := Field.sound_of_checkFields hFields hCheck
    obtain ⟨hTotal, hWord⟩ := Schema.sumSlots?_eq_some sound (by decide) hSum
    simp only [Schema.mk.injEq, true_and] at hSchema
    obtain ⟨rfl, rfl, -⟩ := hSchema
    exact ⟨nonempty, distinct, sound, by simpa using hTotal, hWord, rfl⟩

/-- Fields that pass their check have sound shapes, and names that are new and different. -/
theorem Field.sound_of_checkFields : {fields : List Field} → {container : String} →
    {seen : List String} → Field.AllDrawn fields →
    Schema.checkFields container seen fields = .ok () →
    Field.AllSound fields ∧ (fields.map Field.name).Nodup ∧
      ∀ name ∈ fields.map Field.name, name ∉ seen
  | [], _, _, _, _ => ⟨trivial, by simp⟩
  | ⟨name, shape⟩ :: fields, container, seen, ⟨hShape, hFields⟩, h => by
    rw [Schema.checkFields] at h
    split at h
    · simp [Stop.refuse] at h
    · next hNew =>
      obtain ⟨⟨⟩, hCheck, hRest⟩ := bind_eq_ok.mp h
      obtain ⟨sound, distinct, new⟩ := Field.sound_of_checkFields hFields hRest
      refine ⟨⟨Shape.sound_of_check hShape hCheck, sound⟩, ?_, ?_⟩
      · rw [List.map_cons, List.nodup_cons]
        exact ⟨fun h => new name h List.mem_cons_self, distinct⟩
      · rw [List.map_cons, List.forall_mem_cons]
        exact ⟨hNew, fun other h hSeen => new other h (List.mem_cons_of_mem _ hSeen)⟩

end

/-- The usual widths of integers are positive and at most 32. -/
theorem toNat_of_mem_uintWidths {width : UInt64} (h : width ∈ uintWidths) :
    0 < width.toNat ∧ width.toNat ≤ 32 := by
  have h : width = 1 ∨ width = 2 ∨ width = 4 ∨ width = 8 ∨ width = 16 ∨ width = 32 := by
    simpa [uintWidths] using h
  rcases h with rfl | rfl | rfl | rfl | rfl | rfl <;> decide

mutual

/-- A sound shape takes at least one byte. -/
theorem Shape.slotSize_pos : {shape : Shape} → shape.Sound → 0 < shape.slotSize
  | .boolean, _ => Nat.one_pos
  | .uint _, h => (toNat_of_mem_uintWidths h).1
  | .byteVector _, h => h
  | .bitvector length, h => by
    have : 0 < length.toNat := h.1
    rw [Shape.slotSize]
    omega
  | .byteList _, _ | .bitlist _, _ | .list _ _, _ => Nat.succ_pos 3
  | .vector element length, h => by
    obtain ⟨hLength, hElement, -⟩ := h
    rw [Shape.slotSize]
    split
    · exact Nat.mul_pos (Shape.slotSize_pos hElement) hLength
    · decide
  | .container schema, h => by
    rw [Shape.slotSize]
    split
    · exact Schema.fixedPart_pos h
    · decide

/-- A sound container has at least one byte in its fixed part. -/
theorem Schema.fixedPart_pos : {schema : Schema} → schema.Sound → 0 < schema.fixedPart
  | ⟨_, [], _, _, _⟩, h => absurd rfl h.1
  | ⟨_, ⟨_, shape⟩ :: fields, fixedPart, _, _⟩, h => by
    obtain ⟨-, -, ⟨hShape, -⟩, hPart, -⟩ := h
    have := Shape.slotSize_pos hShape
    simp only [hPart, Field.slotSum, List.map_cons, List.sum_cons]
    omega

end

/-- A basic shape takes at most 32 bytes. -/
theorem Shape.slotSize_le_of_isBasic {shape : Shape} (hSound : shape.Sound)
    (hBasic : shape.isBasic = true) : shape.slotSize ≤ 32 := by
  cases shape with
  | boolean => decide
  | uint width => exact (toNat_of_mem_uintWidths hSound).2
  | _ => simp [Shape.isBasic] at hBasic

/-- The slots of fields are counted one after the other. -/
theorem Field.slotSum_cons (name : String) (shape : Shape) (fields : List Field) :
    slotSum (⟨name, shape⟩ :: fields) = shape.slotSize + slotSum fields := by
  simp [slotSum]

/-- Every field has a slot of at least one byte. -/
theorem Field.length_le_slotSum : {fields : List Field} → Field.AllSound fields →
    fields.length ≤ Field.slotSum fields
  | [], _ => Nat.zero_le _
  | ⟨name, shape⟩ :: fields, ⟨hShape, hFields⟩ => by
    have := Shape.slotSize_pos hShape
    have := Field.length_le_slotSum hFields
    rw [Field.slotSum_cons, List.length_cons]
    omega

end BeaconSsz

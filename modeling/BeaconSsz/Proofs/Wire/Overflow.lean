import BeaconSsz.Proofs.Wire.Fit
import BeaconSsz.Proofs.Wire.Layout

/-!
# Writing makes the checks of validation

Validation and writing go through a value in the same order and make the same checks at the same
places. Writing has one check more: a container or a sequence with items of variable size is
refused when one of them starts where no offset can say. So writing ends as validation does, or it
ends with an overflow; and a value that passes validation overflows exactly if an item in it is
out of reach, which is said here with sizes that are counted without writing anything.
-/

namespace BeaconSsz

namespace Encoding

variable {α β : Type}

/-- Writing has ended because an offset does not have four bytes. -/
def Overflows (written : Encoding α) : Prop :=
  ∃ path offset, written = .error ⟨path, .offsetOverflow offset⟩

/-- Writing ends as a check does, unless it overflows. -/
def Follows (written : Encoding α) (checked : Encoding Unit) : Prop :=
  Overflows written ∨ written.map (fun _ => ()) = checked

/-- An overflow stays one if it is seen from further out. -/
theorem Overflows.within {written : Encoding α} (h : Overflows written) (step : Step) :
    Overflows (within step written) := by
  obtain ⟨path, offset, rfl⟩ := h
  exact ⟨step :: path, offset, rfl⟩

/-- An overflow ends what is made of several steps. -/
theorem Overflows.bind {written : Encoding α} (h : Overflows written) (next : α → Encoding β) :
    Overflows (written >>= next) := by
  obtain ⟨path, offset, rfl⟩ := h
  exact ⟨path, offset, rfl⟩

/-- An overflow is no answer. -/
theorem Overflows.ne_ok {written : Encoding α} (h : Overflows written) (a : α) :
    written ≠ .ok a := by
  obtain ⟨path, offset, rfl⟩ := h
  nofun

/-- Writing may answer anything where the check passes. -/
theorem follows_ok (a : α) : Follows (.ok a) (.ok ()) :=
  .inr rfl

/-- Both fail for the same cause. -/
theorem follows_fail (cause : EncodeCause) : Follows (fail cause : Encoding α) (fail cause) :=
  .inr rfl

/-- Both are seen from one level further out. -/
theorem Follows.within {written : Encoding α} {checked : Encoding Unit}
    (h : Follows written checked) (step : Step) :
    Follows (within step written) (Encoding.within step checked) := by
  cases h with
  | inl hOver => exact .inl (hOver.within step)
  | inr hSame =>
    obtain rfl := hSame
    cases written <;> exact .inr rfl

/-- Both make the same step first. -/
theorem Follows.after (first : Encoding β) {written : β → Encoding α}
    {checked : β → Encoding Unit} (h : ∀ b, Follows (written b) (checked b)) :
    Follows (first >>= written) (first >>= checked) := by
  cases first with
  | error error => exact .inr rfl
  | ok b => exact h b

/-- Each of two steps of writing follows its check. -/
theorem Follows.bind {written : Encoding α} {checked : Encoding Unit} {next : α → Encoding β}
    {check : Encoding Unit} (h : Follows written checked) (hNext : ∀ a, Follows (next a) check) :
    Follows (written >>= next) (checked >>= fun _ => check) := by
  cases h with
  | inl hOver => exact .inl (hOver.bind next)
  | inr hSame =>
    obtain rfl := hSame
    cases written with
    | error error => exact .inr rfl
    | ok a => exact hNext a

/-- A last step of writing may overflow, and has no check. -/
theorem Follows.finish {written : Encoding α} {checked : Encoding Unit} {next : α → Encoding β}
    (h : Follows written checked) (hNext : ∀ a, Follows (next a) (.ok ())) :
    Follows (written >>= next) checked := by
  have hUnit : (checked >>= fun _ => .ok ()) = checked := by cases checked <;> rfl
  exact hUnit ▸ h.bind hNext

/-- Writing each element follows checking each element. -/
theorem Follows.elements {f : α → Encoding β} {check : α → Encoding Unit} {xs : List α}
    (h : ∀ x ∈ xs, Follows (f x) (check x)) :
    Follows (mapElements f xs) (forElements check xs) := by
  -- The induction generalises the number of the first element.
  unfold mapElements forElements
  generalize 0 = start
  induction xs generalizing start with
  | nil => exact follows_ok []
  | cons x xs ih =>
    rw [List.forall_mem_cons] at h
    rw [List.zipIdx_cons, List.mapM_cons, List.forM_eq_forM, List.forM_cons]
    exact (h.1.within _).bind fun _ => (ih h.2 _).finish fun _ => follows_ok _

/-- A value that passes its check is written, or overflows. -/
theorem Follows.overflows_iff {written : Encoding α} (h : Follows written (.ok ())) :
    Overflows written ↔ ¬ ∃ a, written = .ok a := by
  apply Iff.intro
  · intro hOver hAnswer
    obtain ⟨a, ha⟩ := hAnswer
    exact hOver.ne_ok a ha
  · intro hNone
    cases h with
    | inl hOver => exact hOver
    | inr hSame =>
      obtain ⟨a, ha, -⟩ := map_eq_ok.mp hSame
      exact absurd ⟨a, ha⟩ hNone

end Encoding

open Encoding (Follows Overflows follows_ok follows_fail)

section Checks

/-- Writing an offset can only overflow. -/
theorem follows_encodeOffset (offset : Nat) : Follows (encodeOffset offset) (.ok ()) := by
  unfold encodeOffset
  split
  · exact follows_ok _
  · exact .inl ⟨[], offset, rfl⟩

/-- Writing the slots can only overflow. -/
theorem follows_writeHead (offset : Nat) (bodies written : List Bytes)
    (parts : List (Option Bytes)) : Follows (writeHead offset bodies written parts) (.ok ()) := by
  induction parts generalizing offset bodies written with
  | nil => exact follows_ok _
  | cons part parts ih =>
    cases part with
    | some part => exact ih _ _ _
    | none => exact (follows_encodeOffset offset).finish fun _ => ih _ _ _

/-- Joining items can only overflow. -/
theorem follows_joinItems (parts : List (Option Bytes)) (bodies : List Bytes) :
    Follows (joinItems parts bodies) (.ok ()) :=
  (follows_writeHead _ bodies [] parts).finish fun _ => follows_ok _

/-- Joining elements can only overflow. -/
theorem follows_joinElements (isFixed : Bool) (items : List Bytes) :
    Follows (joinElements isFixed items) (.ok ()) := by
  rw [joinElements_eq_joinItems]
  exact follows_joinItems _ _

/-- Writing behind a check follows the check. -/
theorem follows_check (checked : Encoding Unit) (bytes : Bytes) :
    Follows (checked >>= fun _ => pure bytes) checked := by
  cases checked <;> exact .inr rfl

mutual

/-- Writing a value follows its validation. -/
theorem Shape.encode_follows : (shape : Shape) → (value : Value) →
    Follows (shape.encode value) (shape.validate value)
  | .boolean, value => by
    cases value <;> first | exact follows_ok _ | exact follows_fail _
  | .uint width, value => by
    cases value with
    | uint n =>
      rw [Shape.encode, Shape.validate]
      split
      · exact follows_check _ _
      · exact follows_fail _
    | big n =>
      rw [Shape.encode, Shape.validate]
      split
      · exact follows_check _ _
      · exact follows_fail _
    | _ => exact follows_fail _
  | .byteVector _, value | .byteList _, value | .bitvector _, value | .bitlist _, value => by
    cases value <;> first | exact follows_check _ _ | exact follows_fail _
  | .vector element _, value | .list element _, value => by
    cases value with
    | sequence elements =>
      have ih (part : Value) : Follows (element.encode part) (element.validate part) :=
        Shape.encode_follows element part
      rw [Shape.encode, Shape.validate]
      exact .after _ fun _ =>
        (Follows.elements fun part _ => ih part).finish fun _ => follows_joinElements _ _
    | _ => exact follows_fail _
  | .container schema, value => by
    rw [Shape.encode, Shape.validate]
    exact Schema.encodeFields_follows schema value

/-- Writing a container follows its validation. -/
theorem Schema.encodeFields_follows : (schema : Schema) → (value : Value) →
    Follows (schema.encodeFields value) (schema.validateFields value)
  | ⟨_, fields, _, _, _⟩, value => by
    rw [Schema.encodeFields, Schema.validateFields]
    exact .after _ fun values =>
      (Field.encodeAll_follows fields values).finish fun _ => follows_joinItems _ _

/-- Writing values through fields follows their validation. -/
theorem Field.encodeAll_follows : (fields : List Field) → (values : List Value) →
    Follows (Field.encodeAll fields values) (Field.validateAll fields values)
  | [], _ => follows_ok _
  | ⟨_, _⟩ :: _, [] => follows_ok _
  | ⟨_, shape⟩ :: fields, value :: values => by
    -- The result of writing the field is kept until the end, where checking has nothing to keep.
    rw [Field.encodeAll, Field.validateAll]
    exact ((Shape.encode_follows shape value).within _).bind fun _ =>
      (Field.encodeAll_follows fields values).finish fun _ => follows_ok _

end

end Checks

section Sizes

mutual

/-- The bytes that a value makes, counted without writing it. -/
def Shape.writtenSize : Shape → Value → Nat
  | .boolean, _ => 1
  | .uint width, _ => width.toNat
  | .byteVector _, .bytes content | .byteList _, .bytes content => content.length
  | .bitvector _, .bits content => (content.length + 7) / 8
  | .bitlist _, .bits content => content.length / 8 + 1
  | .vector element _, .sequence elements | .list element _, .sequence elements =>
    Item.total (Item.ofElements element.isFixed element.writtenSize elements)
  | .container schema, value => Item.total (schema.items value)
  | _, _ => 0

/-- The items that the fields of a container are. -/
def Schema.items : Schema → Value → List Item
  | ⟨_, fields, _, _, _⟩, .container values => Field.items fields values
  | _, _ => []

/-- The items that values are under fields. -/
def Field.items : List Field → List Value → List Item
  | ⟨_, shape⟩ :: fields, value :: values =>
    ⟨shape.isFixed, shape.writtenSize value⟩ :: Field.items fields values
  | _, _ => []

end

mutual

/-- In a container or a sequence inside the value, or in the value itself, an item of variable
size starts where no offset can say. -/
def Shape.OutOfReach : Shape → Value → Prop
  | .vector element _, .sequence elements | .list element _, .sequence elements =>
    Item.OutOfReach (Item.ofElements element.isFixed element.writtenSize elements) ∨
      ∃ value ∈ elements, element.OutOfReach value
  | .container schema, value => schema.OutOfReach value
  | _, _ => False

/-- In the container, or inside its fields, an item of variable size starts where no offset can
say. -/
def Schema.OutOfReach : Schema → Value → Prop
  | ⟨_, fields, _, _, _⟩, .container values =>
    Item.OutOfReach (Field.items fields values) ∨ Field.AnyOutOfReach fields values
  | _, _ => False

/-- Inside one of the values under fields, an item of variable size starts where no offset can
say. -/
def Field.AnyOutOfReach : List Field → List Value → Prop
  | ⟨_, shape⟩ :: fields, value :: values =>
    shape.OutOfReach value ∨ Field.AnyOutOfReach fields values
  | _, _ => False

end

/-- Elements that were written are items of their counted sizes. -/
theorem Shape.ofEncoding_of_writes {element : Shape}
    (hSize : ∀ bytes value, element.Writes bytes value → bytes.length = element.writtenSize value)
    {items : List Bytes} {elements : List Value}
    (h : List.Forall₂ element.Writes items elements) :
    (items.map (element.isFixed, ·)).map Item.ofEncoding =
      Item.ofElements element.isFixed element.writtenSize elements := by
  induction h with
  | nil => rfl
  | cons hValue _ ih =>
    rw [List.map_cons, List.map_cons, ih, Item.ofEncoding, hSize _ _ hValue]
    rfl

/-- Elements that were joined take the bytes counted for them. -/
theorem Shape.length_of_joinElements {element : Shape}
    (hSize : ∀ bytes value, element.Writes bytes value → bytes.length = element.writtenSize value)
    {items : List Bytes} {elements : List Value} {bytes : Bytes}
    (h : List.Forall₂ element.Writes items elements)
    (hJoin : joinElements element.isFixed items = .ok bytes) :
    bytes.length = Item.total (Item.ofElements element.isFixed element.writtenSize elements) := by
  rw [joinElements_eq_joinItems] at hJoin
  rw [length_of_joinItems hJoin, Shape.ofEncoding_of_writes hSize h]

mutual

/-- What is written for a value takes the bytes counted for it. -/
theorem Shape.length_of_writes : {shape : Shape} → {value : Value} → {bytes : Bytes} →
    shape.Writes bytes value → bytes.length = shape.writtenSize value
  | .boolean, _, _, h => by
    obtain ⟨b, -, rfl⟩ := Shape.encode_boolean_eq_ok.mp h
    rfl
  | .uint _, _, _, h => by
    rcases Shape.encode_uint_eq_ok.mp h with ⟨-, n, -, -, rfl⟩ | ⟨-, n, -, -, rfl⟩ <;>
      exact Bytes.length_littleEndian _ _
  | .byteVector _, _, _, h => by
    obtain ⟨rfl, -⟩ := Shape.encode_byteVector_eq_ok.mp h
    rfl
  | .byteList _, _, _, h => by
    obtain ⟨rfl, -⟩ := Shape.encode_byteList_eq_ok.mp h
    rfl
  | .bitvector _, _, _, h => by
    obtain ⟨bits, rfl, -, rfl⟩ := Shape.encode_bitvector_eq_ok.mp h
    exact Bits.length_pack bits
  | .bitlist _, _, _, h => by
    obtain ⟨bits, rfl, -, rfl⟩ := Shape.encode_bitlist_eq_ok.mp h
    rw [Bits.packDelimited, Bits.length_pack, List.length_append, List.length_singleton,
      Shape.writtenSize]
    omega
  | .vector element _, _, _, h => by
    obtain ⟨elements, items, rfl, -, hItems, hJoin⟩ := Shape.encode_vector_eq_ok.mp h
    exact Shape.length_of_joinElements (fun _ _ => Shape.length_of_writes) hItems hJoin
  | .list element _, _, _, h => by
    obtain ⟨elements, items, rfl, -, hItems, hJoin⟩ := Shape.encode_list_eq_ok.mp h
    exact Shape.length_of_joinElements (fun _ _ => Shape.length_of_writes) hItems hJoin
  | .container schema, _, _, h => by
    rw [Shape.writtenSize]
    exact Schema.length_of_encodeFields_eq_ok (Shape.encode_container .. ▸ h)

/-- What is written for a container takes the bytes counted for it. -/
theorem Schema.length_of_encodeFields_eq_ok : {schema : Schema} → {value : Value} →
    {bytes : Bytes} → schema.encodeFields value = .ok bytes →
    bytes.length = Item.total (schema.items value)
  | ⟨_, fields, _, _, _⟩, _, _, h => by
    obtain ⟨values, slices, rfl, hEach, hJoin⟩ := Schema.encodeFields_eq_ok.mp h
    rw [length_of_joinItems hJoin, Field.ofEncoding_of_each hEach, Schema.items]

/-- Fields that were written are items of their counted sizes. -/
theorem Field.ofEncoding_of_each : {fields : List Field} → {slices : List Bytes} →
    {values : List Value} → Field.Each Shape.Writes fields slices values →
    (tagged (Field.shapes fields) slices).map Item.ofEncoding = Field.items fields values
  | [], [], [], _ => rfl
  | ⟨_, shape⟩ :: fields, slice :: slices, value :: values, ⟨hValue, hEach⟩ => by
    rw [Field.items, ← Field.ofEncoding_of_each hEach, ← Shape.length_of_writes hValue]
    rfl

end

end Sizes

section Room

/-- Elements that fit can be written and joined exactly if all are within reach. -/
theorem Shape.exists_joinElements_iff {element : Shape} {elements : List Value}
    (ih : ∀ value ∈ elements,
      (∃ bytes, element.encode value = .ok bytes) ↔ ¬ element.OutOfReach value) :
    (∃ bytes items, List.Forall₂ element.Writes items elements ∧
        joinElements element.isFixed items = .ok bytes) ↔
      ¬ (Item.OutOfReach (Item.ofElements element.isFixed element.writtenSize elements) ∨
        ∃ value ∈ elements, element.OutOfReach value) := by
  have hSize (bytes : Bytes) (value : Value) :
      element.Writes bytes value → bytes.length = element.writtenSize value :=
    Shape.length_of_writes
  rw [not_or, not_exists]
  apply Iff.intro
  · intro h
    obtain ⟨bytes, items, hItems, hJoin⟩ := h
    rw [joinElements_eq_joinItems] at hJoin
    rw [← Shape.ofEncoding_of_writes hSize hItems]
    refine ⟨exists_joinItems_iff.mp ⟨bytes, hJoin⟩, fun value hValue => ?_⟩
    obtain ⟨hMem, hReach⟩ := hValue
    obtain ⟨item, -, hItem⟩ := exists_of_forall₂ hItems hMem
    exact (ih value hMem).mp ⟨item, hItem⟩ hReach
  · intro h
    obtain ⟨hItems, hInside⟩ := h
    have hWritten : ∃ items, List.Forall₂ (fun value item => element.Writes item value)
        elements items :=
      exists_forall₂.mpr fun value hMem =>
        (ih value hMem).mpr fun hReach => hInside value ⟨hMem, hReach⟩
    obtain ⟨items, hWritten⟩ := hWritten
    rw [← Shape.ofEncoding_of_writes hSize hWritten.flip, ← exists_joinItems_iff,
      ← joinElements_eq_joinItems] at hItems
    obtain ⟨bytes, hJoin⟩ := hItems
    exact ⟨bytes, items, hWritten.flip, hJoin⟩

mutual

/-- A value that fits can be written exactly if all of its items are within reach. -/
theorem Shape.exists_encode_iff : {shape : Shape} → shape.Sound → {value : Value} →
    shape.Fits value → ((∃ bytes, shape.encode value = .ok bytes) ↔ ¬ shape.OutOfReach value)
  | .boolean, _, value, hFits => by
    cases value with
    | boolean b => exact iff_of_true ⟨_, rfl⟩ id
    | _ => exact False.elim hFits
  | .uint width, hSound, value, hFits => by
    have hmax := (toNat_of_mem_uintWidths hSound).2
    cases value with
    | uint n =>
      have hCheck := (checkUint_eq_ok hmax (n.toNat_lt.trans_le (by decide))).mpr hFits.2
      exact iff_of_true ⟨_, Shape.encode_uint_eq_ok.mpr (.inl ⟨hFits.1, n, rfl, hCheck, rfl⟩)⟩ id
    | big n =>
      have hCheck := (checkUint_eq_ok hmax (n.isLt.trans_le (by decide))).mpr hFits.2
      exact iff_of_true ⟨_, Shape.encode_uint_eq_ok.mpr (.inr ⟨hFits.1, n, rfl, hCheck, rfl⟩)⟩ id
    | _ => exact False.elim hFits
  | .byteVector length, _, value, hFits => by
    cases value with
    | bytes content =>
      exact iff_of_true ⟨_, Shape.encode_byteVector_eq_ok.mpr ⟨rfl, hFits⟩⟩ id
    | _ => exact False.elim hFits
  | .byteList limit, _, value, hFits => by
    cases value with
    | bytes content => exact iff_of_true ⟨_, Shape.encode_byteList_eq_ok.mpr ⟨rfl, hFits⟩⟩ id
    | _ => exact False.elim hFits
  | .bitvector length, _, value, hFits => by
    cases value with
    | bits content =>
      exact iff_of_true ⟨_, Shape.encode_bitvector_eq_ok.mpr ⟨content, rfl, hFits, rfl⟩⟩ id
    | _ => exact False.elim hFits
  | .bitlist limit, _, value, hFits => by
    cases value with
    | bits content =>
      exact iff_of_true ⟨_, Shape.encode_bitlist_eq_ok.mpr ⟨content, rfl, hFits, rfl⟩⟩ id
    | _ => exact False.elim hFits
  | .vector element length, hSound, value, hFits => by
    cases value with
    | sequence elements =>
      rw [Shape.Fits] at hFits
      rw [Shape.OutOfReach, ← Shape.exists_joinElements_iff fun part hPart =>
        Shape.exists_encode_iff hSound.2.1 (hFits.2 part hPart)]
      simp [Shape.encode_vector_eq_ok, hFits.1]
    | _ => exact False.elim hFits
  | .list element limit, hSound, value, hFits => by
    cases value with
    | sequence elements =>
      rw [Shape.Fits] at hFits
      rw [Shape.OutOfReach, ← Shape.exists_joinElements_iff fun part hPart =>
        Shape.exists_encode_iff hSound.1 (hFits.2 part hPart)]
      simp [Shape.encode_list_eq_ok, hFits.1]
    | _ => exact False.elim hFits
  | .container schema, hSound, value, hFits => by
    rw [Shape.Fits] at hFits
    rw [Shape.OutOfReach]
    simp only [Shape.encode_container]
    exact Schema.exists_encodeFields_iff hSound hFits

/-- A container that fits can be written exactly if all of its items are within reach. -/
theorem Schema.exists_encodeFields_iff : {schema : Schema} → schema.Sound → {value : Value} →
    schema.Fits value →
    ((∃ bytes, schema.encodeFields value = .ok bytes) ↔ ¬ schema.OutOfReach value)
  | ⟨_, fields, _, _, _⟩, ⟨_, _, hFields, _⟩, value, hFits => by
    cases value with
    | container values =>
      rw [Schema.OutOfReach, not_or, ← Field.exists_each_iff hFields hFits]
      simp only [Schema.encodeFields_eq_ok, Value.container.injEq]
      apply Iff.intro
      · intro h
        obtain ⟨bytes, _, slices, rfl, hEach, hJoin⟩ := h
        rw [← Field.ofEncoding_of_each hEach]
        exact ⟨exists_joinItems_iff.mp ⟨bytes, hJoin⟩, slices, hEach⟩
      · intro h
        obtain ⟨hReach, slices, hEach⟩ := h
        rw [← Field.ofEncoding_of_each hEach, ← exists_joinItems_iff] at hReach
        obtain ⟨bytes, hJoin⟩ := hReach
        exact ⟨bytes, values, slices, rfl, hEach, hJoin⟩
    | _ => exact False.elim hFits

/-- Values that fit fields can be written one by one exactly if everything inside them is within
reach. -/
theorem Field.exists_each_iff : {fields : List Field} → Field.AllSound fields →
    {values : List Value} → Field.AllFit fields values →
    ((∃ slices, Field.Each Shape.Writes fields slices values) ↔
      ¬ Field.AnyOutOfReach fields values)
  | [], _, [], _ => iff_of_true ⟨[], trivial⟩ id
  | ⟨_, _⟩ :: _, ⟨hShape, hFields⟩, value :: values, ⟨hFit, hFits⟩ => by
    rw [Field.AnyOutOfReach, not_or, ← Shape.exists_encode_iff hShape hFit,
      ← Field.exists_each_iff hFields hFits]
    apply Iff.intro
    · intro h
      obtain ⟨slices, hEach⟩ := h
      cases slices with
      | nil => exact hEach.elim
      | cons slice slices => exact ⟨⟨slice, hEach.1⟩, slices, hEach.2⟩
    · intro h
      obtain ⟨⟨slice, hSlice⟩, slices, hEach⟩ := h
      exact ⟨slice :: slices, hSlice, hEach⟩

end

end Room

namespace Schema

/-- Writing a value through a drawn-up schema makes the checks of validation. A value that is
refused by validation is refused by writing with the same error, at the same place, or writing
overflows before. A value that passes is written, unless in a container or a sequence inside it an
item of variable size starts 2³² bytes behind the start or later; exactly then writing
overflows. -/
theorem serialize_follows_validate {schema : Schema} (hDrawn : schema.Drawn) (value : Value) :
    (∀ error, schema.validate value = .error error →
      schema.serialize value = .error error ∨ Overflows (schema.serialize value)) ∧
    (schema.validate value = .ok () →
      ((∃ bytes, schema.serialize value = .ok bytes) ↔ ¬ schema.OutOfReach value) ∧
      (Overflows (schema.serialize value) ↔ schema.OutOfReach value)) := by
  have hFollows : Follows (schema.serialize value) (schema.validate value) :=
    (encodeFields_follows schema value).within (.field schema.name)
  refine ⟨fun error hError => ?_, fun hPass => ?_⟩
  · rw [hError] at hFollows
    exact hFollows.elim .inr fun hSame => .inl (map_eq_error.mp hSame)
  · have hRoom := exists_encodeFields_iff (sound_of_drawn hDrawn) ((validate_eq_ok hDrawn).mp hPass)
    have hWritten : (∃ bytes, schema.serialize value = .ok bytes) ↔ ¬ schema.OutOfReach value := by
      simpa only [serialize, Encoding.within_eq_ok] using hRoom
    rw [hPass] at hFollows
    exact ⟨hWritten, by rw [hFollows.overflows_iff, hWritten, not_not]⟩

/-- Two lists of bytes, of which the first may be long. -/
def longExample : Schema :=
  ⟨"Long", [⟨"first", .byteList 4294967296⟩, ⟨"second", .byteList 1⟩], 8, false, 0⟩

/-- The example of a container is written. Behind 2³² bytes, not even an empty list has an
offset. -/
theorem overflows_longExample :
    (∃ bytes, outerExample.serialize outerValue = .ok bytes) ∧
      longExample.Drawn ∧
      Overflows (longExample.serialize
        (.container [.bytes (Bytes.zeros 4294967296), .bytes []])) := by
  have hDrawn : longExample.Drawn := ⟨rfl, trivial, trivial, trivial⟩
  have hLength : (Bytes.zeros 4294967296).length = 4294967296 := List.length_replicate
  -- The bytes must not be unfolded; only their number matters.
  generalize Bytes.zeros 4294967296 = content at hLength ⊢
  have hFits : longExample.Fits (.container [.bytes content, .bytes []]) :=
    ⟨hLength.le, Nat.zero_le _, trivial⟩
  have hReach : longExample.OutOfReach (.container [.bytes content, .bytes []]) := by
    have hFront : Item.bodies [⟨false, content.length⟩] = 2 ^ 32 := by
      rw [hLength]
      rfl
    refine .inl ⟨[⟨false, content.length⟩], ⟨false, 0⟩, [], rfl, rfl, ?_⟩
    rw [hFront]
    exact Nat.le_add_left _ _
  have hPass := (validate_eq_ok hDrawn).mpr hFits
  exact ⟨⟨_, rfl⟩, hDrawn, ((serialize_follows_validate hDrawn _).2 hPass).2.mpr hReach⟩

end Schema

end BeaconSsz

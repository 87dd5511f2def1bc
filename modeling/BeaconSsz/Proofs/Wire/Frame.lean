import BeaconSsz.Proofs.Wire.RoundTrip

/-!
# What an update of one field touches

The slots of a container are where the schema puts them, whatever the value. What the other fields
have to do with a field of variable size is how far it pushes back what stands behind it. So when
one field is written anew, the others keep their bytes, and at most the offsets behind it move.
-/

namespace BeaconSsz

/-- The offset in the four bytes at a position. -/
def offsetAt (bytes : Bytes) (position : Nat) : Nat :=
  Bytes.toNatLittleEndian (bytes.extract position (position + offsetLength))

/-- The offset in the first open place from a position on, or the end of the bytes if no place is
open any more. -/
def nextOffset (bytes : Bytes) : Nat → List Shape → Nat
  | _, [] => bytes.length
  | position, shape :: shapes =>
    if shape.isFixed then nextOffset bytes (position + shape.slotSize) shapes
    else offsetAt bytes position

namespace Schema

/-- Where the slot of a field starts: behind the slots of the fields in front of it. -/
def slotStart (schema : Schema) (index : Nat) : Nat :=
  Field.slotSum (schema.fields.take index)

/-- The bytes in the slot of a field. -/
def slotAt (schema : Schema) (bytes : Bytes) (index : Nat) : Bytes :=
  bytes.extract (schema.slotStart index) (schema.slotStart (index + 1))

/-- The offset in the slot of a field. -/
def offsetOf (schema : Schema) (bytes : Bytes) (index : Nat) : Nat :=
  offsetAt bytes (schema.slotStart index)

/-- The bytes from the offset in the slot of a field up to the next offset. -/
def contentAt (schema : Schema) (bytes : Bytes) (index : Nat) : Bytes :=
  bytes.extract (schema.offsetOf bytes index)
    (nextOffset bytes (schema.slotStart (index + 1))
      ((Field.shapes schema.fields).drop (index + 1)))

/-- The contents of the fields of variable size stand in the order of the fields. -/
def InOrder (schema : Schema) (bytes : Bytes) : Prop :=
  ∀ {index later : Nat} {field laterField : Field}, schema.fields[index]? = some field →
    field.shape.isFixed = false → schema.fields[later]? = some laterField →
    laterField.shape.isFixed = false → index < later →
    schema.offsetOf bytes index + (schema.contentAt bytes index).length ≤
      schema.offsetOf bytes later

/-- The bytes differ by the content of the field alone, and by what its size does to the offsets
behind it. -/
structure MovedBehind (schema : Schema) (index : Nat) (bytes others : Bytes) : Prop where
  slotAt_eq {other : Nat} {field : Field} (hfield : schema.fields[other]? = some field)
    (hfixed : field.shape.isFixed = true) : schema.slotAt others other = schema.slotAt bytes other
  offsetOf_eq {other : Nat} {field : Field} (hfield : schema.fields[other]? = some field)
    (hvariable : field.shape.isFixed = false) (hother : other ≤ index) :
    schema.offsetOf others other = schema.offsetOf bytes other
  offsetOf_add_eq {other : Nat} {field : Field} (hfield : schema.fields[other]? = some field)
    (hvariable : field.shape.isFixed = false) (hother : index < other) :
    schema.offsetOf others other + (schema.contentAt bytes index).length =
      schema.offsetOf bytes other + (schema.contentAt others index).length
  contentAt_eq {other : Nat} {field : Field} (hfield : schema.fields[other]? = some field)
    (hvariable : field.shape.isFixed = false) (hother : other ≠ index) :
    schema.contentAt others other = schema.contentAt bytes other

end Schema

/-- The part of a container at a position. -/
def Value.partAt? : Value → Nat → Option Value
  | .container parts, index => parts[index]?
  | _, _ => none

/-- The bytes of the bodies of slices. -/
def bodySum (shapes : List Shape) (slices : List Bytes) : Nat :=
  (bodiesOf shapes slices).flatten.length

/-- The bodies are counted one after the other. -/
theorem bodySum_cons (shape : Shape) (shapes : List Shape) (slice : Bytes) (slices : List Bytes) :
    bodySum (shape :: shapes) (slice :: slices) =
      (if shape.isFixed then 0 else slice.length) + bodySum shapes slices := by
  cases h : shape.isFixed with
  | true => rw [bodySum, bodiesOf_cons_fixed h, bodySum, if_pos rfl, Nat.zero_add]
  | false =>
    rw [bodySum, bodiesOf_cons_variable h, List.flatten_cons, List.length_append, bodySum]
    rfl

/-- What lies at a position is cut out by its length. -/
theorem extract_eq {bytes part : Bytes} {start stop : Nat} (h : part <+: bytes.drop start)
    (hstop : stop = start + part.length) : bytes.extract start stop = part := by
  rw [List.extract_eq_take_drop, hstop, Nat.add_sub_cancel_left]
  exact (List.prefix_iff_eq_take.mp h).symm

/-- An offset that lies at a position is read there. -/
theorem offsetAt_eq {bytes : Bytes} {position offset : Nat} (hlt : offset < offsetLimit)
    (h : Bytes.littleEndian offsetLength offset <+: bytes.drop position) :
    offsetAt bytes position = offset := by
  rw [offsetAt, extract_eq h (by rw [Bytes.length_littleEndian]),
    Bytes.toNatLittleEndian_littleEndian]
  exact Nat.mod_eq_of_lt hlt

/-- What stands between the same strings does not show in front of it and behind it. -/
theorem getElem?_append_middle {α : Type} {front xs ys behind : List α}
    (hlength : ys.length = xs.length) {position : Nat}
    (h : position < front.length ∨ front.length + xs.length ≤ position) :
    (front ++ (ys ++ behind))[position]? = (front ++ (xs ++ behind))[position]? := by
  rcases h with h | h
  · rw [List.getElem?_append_left h, List.getElem?_append_left h]
  · rw [List.getElem?_append_right (by omega), List.getElem?_append_right (by omega),
      List.getElem?_append_right (by omega), List.getElem?_append_right (by omega), hlength]

section At

variable {store : Bytes} {start origin index : Nat} {shapes : List Shape} {slices : List Bytes}
  {shape : Shape} {slice : Bytes}

/-- A slice of fixed size lies where the slots in front of it end. -/
theorem PartsAt.get (h : PartsAt store start shapes slices) (hshape : shapes[index]? = some shape)
    (hslice : slices[index]? = some slice) (hfixed : shape.isFixed = true) :
    slice.length = shape.slotSize ∧
      slice <+: store.drop (start + slotSum (shapes.take index)) := by
  induction shapes generalizing start index slices with
  | nil => simp at hshape
  | cons first shapes ih =>
    cases slices with
    | nil => exact h.elim
    | cons firstSlice slices =>
      cases index with
      | zero =>
        cases hshape
        cases hslice
        simpa [slotSum] using h.1 hfixed
      | succ index =>
        rw [List.take_succ_cons, slotSum_cons, ← Nat.add_assoc]
        exact ih h.2 hshape hslice

/-- The next offset is the first of the offsets in the open places. -/
theorem OffsetsAt.nextOffset_eq {offsets : List Nat} (h : OffsetsAt store start shapes offsets) :
    nextOffset store start shapes = offsets.headD store.length := by
  induction shapes generalizing start with
  | nil =>
    obtain rfl : offsets = [] := h
    rfl
  | cons shape shapes ih =>
    rw [OffsetsAt] at h
    rw [nextOffset]
    cases hfixed : shape.isFixed with
    | true =>
      rw [if_pos hfixed] at h
      rw [if_pos rfl]
      exact ih h
    | false =>
      rw [if_neg (by simp [hfixed])] at h
      rw [if_neg (by simp)]
      obtain ⟨offset, later, rfl, hlt, hslot, -⟩ := h
      exact offsetAt_eq hlt hslot

/-- A slice of variable size lies behind the bodies in front of it. The place left open for it
says where it starts, and the next open place where it ends. -/
theorem OffsetsAt.get (hoffsets : OffsetsAt store start shapes
      (runningOffsets origin (bodiesOf shapes slices)))
    (hbodies : BodiesAt store (runningOffsets origin (bodiesOf shapes slices))
      (bodiesOf shapes slices))
    (hshape : shapes[index]? = some shape) (hslice : slices[index]? = some slice)
    (hvariable : shape.isFixed = false) {place : Nat}
    (hplace : origin + bodySum (shapes.take index) (slices.take index) = place) :
    offsetAt store (start + slotSum (shapes.take index)) = place ∧
      nextOffset store (start + slotSum (shapes.take (index + 1))) (shapes.drop (index + 1)) =
        place + slice.length ∧
      slice <+: store.drop place := by
  -- The induction goes along the slots; the origin moves on only past an open one.
  induction shapes generalizing start origin index slices with
  | nil => simp at hshape
  | cons first shapes ih =>
    cases slices with
    | nil => simp at hslice
    | cons firstSlice slices =>
      rw [OffsetsAt] at hoffsets
      cases index with
      | zero =>
        cases hshape
        cases hslice
        rw [if_neg (by simp [hvariable])] at hoffsets
        rw [bodiesOf_cons_variable hvariable] at hoffsets hbodies
        obtain ⟨offset, later, heq, hlt, hslot, hoffsets⟩ := hoffsets
        obtain ⟨rfl, rfl⟩ := List.cons.inj heq
        obtain rfl : origin = place := hplace
        obtain ⟨hnext, -, hfront, -⟩ := hbodies
        have hsum : slotSum (List.take 1 (shape :: shapes)) = shape.slotSize := by simp [slotSum]
        rw [hsum, List.drop_succ_cons, List.drop_zero, hoffsets.nextOffset_eq]
        exact ⟨offsetAt_eq hlt hslot, hnext.symm, hfront⟩
      | succ index =>
        rw [List.take_succ_cons, List.take_succ_cons, bodySum_cons, ← Nat.add_assoc] at hplace
        rw [List.take_succ_cons, List.take_succ_cons, List.drop_succ_cons, slotSum_cons,
          slotSum_cons, ← Nat.add_assoc, ← Nat.add_assoc]
        cases hfixed : first.isFixed with
        | true =>
          rw [if_pos hfixed] at hoffsets hplace
          rw [bodiesOf_cons_fixed hfixed] at hoffsets hbodies
          exact ih hoffsets hbodies hshape hslice hplace
        | false =>
          rw [if_neg (by simp [hfixed])] at hoffsets hplace
          rw [bodiesOf_cons_variable hfixed] at hoffsets hbodies
          obtain ⟨offset, later, heq, -, -, hoffsets⟩ := hoffsets
          obtain ⟨rfl, rfl⟩ := List.cons.inj heq
          exact ih hoffsets hbodies.2.2.2 hshape hslice hplace

/-- The slices in front of one, the slice, and the slices behind it. -/
theorem tagged_eq_append (hshape : shapes[index]? = some shape)
    (hslice : slices[index]? = some slice) :
    tagged shapes slices = tagged (shapes.take index) (slices.take index) ++
      (shape.isFixed, slice) :: tagged (shapes.drop (index + 1)) (slices.drop (index + 1)) := by
  have hget : (tagged shapes slices)[index]? = some (shape.isFixed, slice) := by
    rw [tagged, List.getElem?_zipWith, hshape, hslice]
  obtain ⟨hlt, hget⟩ := List.getElem?_eq_some_iff.mp hget
  calc
    tagged shapes slices =
        (tagged shapes slices).take index ++ (tagged shapes slices).drop index :=
      (List.take_append_drop index _).symm
    _ = _ := by
      rw [List.drop_eq_getElem_cons hlt, hget, tagged, List.take_zipWith, List.drop_zipWith]
      rfl

/-- What all bodies take is what the bodies in front of one take, the body and the others. -/
theorem bodySum_eq_add (hshape : shapes[index]? = some shape)
    (hslice : slices[index]? = some slice) (hvariable : shape.isFixed = false) :
    bodySum shapes slices = bodySum (shapes.take index) (slices.take index) +
      (slice.length + bodySum (shapes.drop (index + 1)) (slices.drop (index + 1))) := by
  have hbody : bodyOf? (shape.isFixed, slice) = some slice := by rw [bodyOf?, hvariable]; rfl
  rw [bodySum, bodiesOf, tagged_eq_append hshape hslice, List.filterMap_append,
    List.filterMap_cons, hbody, List.flatten_append, List.length_append, List.flatten_cons,
    List.length_append]
  rfl

/-- Another slice stands in the place of the slice. -/
theorem getElem?_set_of_getElem? (hslice : slices[index]? = some slice) (other : Bytes) :
    (slices.set index other)[index]? = some other :=
  List.getElem?_set_self (List.getElem?_eq_some_iff.mp hslice).1

/-- Another body of another size changes what all bodies take by as much. -/
theorem bodySum_set (hshape : shapes[index]? = some shape) (hslice : slices[index]? = some slice)
    (hvariable : shape.isFixed = false) (other : Bytes) :
    bodySum shapes (slices.set index other) + slice.length =
      bodySum shapes slices + other.length := by
  rw [bodySum_eq_add hshape hslice hvariable,
    bodySum_eq_add hshape (getElem?_set_of_getElem? hslice other) hvariable,
    List.take_set_of_le le_rfl, List.drop_set_of_lt (Nat.lt_add_one index)]
  omega

/-- A body ends before the bodies behind it start. -/
theorem bodySum_take_add_le (hshape : shapes[index]? = some shape)
    (hslice : slices[index]? = some slice) (hvariable : shape.isFixed = false) {later : Nat}
    (hlater : index < later) :
    bodySum (shapes.take index) (slices.take index) + slice.length ≤
      bodySum (shapes.take later) (slices.take later) := by
  have hshape : (shapes.take later)[index]? = some shape := by
    rw [List.getElem?_take_of_lt hlater, hshape]
  have hslice : (slices.take later)[index]? = some slice := by
    rw [List.getElem?_take_of_lt hlater, hslice]
  rw [bodySum_eq_add hshape hslice hvariable, List.take_take, List.take_take,
    Nat.min_eq_left hlater.le]
  omega

/-- Another slice of fixed size leaves the bodies alone. -/
theorem bodiesOf_set (hshape : shapes[index]? = some shape) (hslice : slices[index]? = some slice)
    (hfixed : shape.isFixed = true) (other : Bytes) :
    bodiesOf shapes (slices.set index other) = bodiesOf shapes slices := by
  have hbody (part : Bytes) : bodyOf? (shape.isFixed, part) = none := by rw [bodyOf?, hfixed]; rfl
  rw [bodiesOf, bodiesOf, tagged_eq_append hshape hslice,
    tagged_eq_append hshape (getElem?_set_of_getElem? hslice other),
    List.take_set_of_le le_rfl, List.drop_set_of_lt (Nat.lt_add_one index)]
  simp only [List.filterMap_append, List.filterMap_cons, hbody]

/-- The parts behind others are filled with the offsets behind theirs. -/
theorem fillHead_append (parts others : List (Option Bytes)) (offsets : List Nat) :
    fillHead (parts ++ others) offsets =
      fillHead parts offsets ++ fillHead others (offsets.drop (openCount parts)) := by
  induction parts generalizing offsets with
  | nil => rfl
  | cons part parts ih =>
    cases part with
    | some part =>
      have hcount : openCount (some part :: parts) = openCount parts := by simp [openCount]
      rw [List.cons_append, fillHead, fillHead, ih, hcount, List.append_assoc]
    | none =>
      have hcount : openCount (none :: parts) = openCount parts + 1 := by simp [openCount]
      rw [List.cons_append, fillHead, fillHead, ih, hcount, List.append_assoc, List.drop_tail]

/-- A slice of fixed size has the size of its slot. -/
theorem Sized.get (h : Sized shapes slices) (hshape : shapes[index]? = some shape)
    (hslice : slices[index]? = some slice) (hfixed : shape.isFixed = true) :
    slice.length = shape.slotSize := by
  obtain ⟨hlt, rfl⟩ := List.getElem?_eq_some_iff.mp hshape
  obtain ⟨hlt', rfl⟩ := List.getElem?_eq_some_iff.mp hslice
  exact List.Forall₂.get h hlt hlt' hfixed

/-- A slice of fixed size stands in the head as it is. -/
theorem fillHead_partsOf_eq (hshape : shapes[index]? = some shape)
    (hslice : slices[index]? = some slice) (hfixed : shape.isFixed = true) (offsets : List Nat) :
    fillHead (partsOf shapes slices) offsets =
      fillHead (partsOf (shapes.take index) (slices.take index)) offsets ++
        (slice ++ fillHead (partsOf (shapes.drop (index + 1)) (slices.drop (index + 1)))
          (offsets.drop (openCount (partsOf (shapes.take index) (slices.take index))))) := by
  have hpart : fixedPartOf (shape.isFixed, slice) = some slice := by rw [fixedPartOf, hfixed]; rfl
  rw [partsOf, tagged_eq_append hshape hslice, List.map_append, List.map_cons, hpart,
    fillHead_append, fillHead]
  rfl

end At

namespace Field

variable {fields : List Field} {slices : List Bytes} {values : List Value}

/-- If the values differ in one field alone, so do the slices. -/
theorem Each.eq_set {slices' : List Bytes} {values' : List Value} {index : Nat} {slice' : Bytes}
    (h : Each Shape.Writes fields slices values) (h' : Each Shape.Writes fields slices' values')
    (hagree : ∀ other ≠ index, values'[other]? = values[other]?)
    (hslice' : slices'[index]? = some slice') : slices' = slices.set index slice' := by
  apply List.ext_getElem?
  intro other
  rcases eq_or_ne other index with rfl | hne
  · obtain ⟨hlt', -⟩ := List.getElem?_eq_some_iff.mp hslice'
    rw [hslice', List.getElem?_set_self (by rwa [h.length_slices, ← h'.length_slices])]
  · rw [List.getElem?_set_ne hne.symm]
    cases hfield : fields[other]? with
    | none =>
      rw [List.getElem?_eq_none_iff] at hfield
      rw [List.getElem?_eq_none (h'.length_slices ▸ hfield),
        List.getElem?_eq_none (h.length_slices ▸ hfield)]
    | some field =>
      obtain ⟨slice, value, hslice, hvalue, hwrites⟩ := h.get hfield
      obtain ⟨slice', value', hslice', hvalue', hwrites'⟩ := h'.get hfield
      rw [hagree other hne, hvalue, Option.some.injEq] at hvalue'
      rw [← hvalue', Shape.Writes, hwrites, Except.ok.injEq] at hwrites'
      rw [hslice, hslice', hwrites']

end Field

namespace Schema

/-- The slices of the fields lie where the layout of the container puts them. -/
structure Laid (schema : Schema) (slices : List Bytes) (bytes : Bytes) : Prop where
  length_eq : slices.length = schema.fields.length
  slotAt_eq {index : Nat} {field : Field} {slice : Bytes}
    (hfield : schema.fields[index]? = some field) (hslice : slices[index]? = some slice)
    (hfixed : field.shape.isFixed = true) : schema.slotAt bytes index = slice
  offsetOf_eq {index : Nat} {field : Field} {slice : Bytes}
    (hfield : schema.fields[index]? = some field) (hslice : slices[index]? = some slice)
    (hvariable : field.shape.isFixed = false) : schema.offsetOf bytes index = schema.fixedPart +
      bodySum ((Field.shapes schema.fields).take index) (slices.take index)
  contentAt_eq {index : Nat} {field : Field} {slice : Bytes}
    (hfield : schema.fields[index]? = some field) (hslice : slices[index]? = some slice)
    (hvariable : field.shape.isFixed = false) : schema.contentAt bytes index = slice

/-- The slot of a field ends where the next one starts. -/
theorem slotStart_succ {schema : Schema} {index : Nat} {field : Field}
    (hfield : schema.fields[index]? = some field) :
    schema.slotStart (index + 1) = schema.slotStart index + field.shape.slotSize := by
  simp [slotStart, Field.slotSum, List.take_add_one, hfield]

/-- The slots in front of a field are those of the shapes in front of it. -/
theorem slotStart_eq (schema : Schema) (index : Nat) :
    schema.slotStart index = BeaconSsz.slotSum ((Field.shapes schema.fields).take index) := by
  rw [slotStart, ← Field.slotSum_shapes, Field.shapes, Field.shapes, List.map_take]

/-- Joined slices are laid out by their sizes alone. -/
theorem laid_of_joinItems {schema : Schema} (hPart : schema.fixedPart = Field.slotSum schema.fields)
    {slices : List Bytes} {bytes : Bytes} (hsized : Sized (Field.shapes schema.fields) slices)
    (hjoin : joinItems (partsOf (Field.shapes schema.fields) slices)
      (bodiesOf (Field.shapes schema.fields) slices) = .ok bytes) : schema.Laid slices bytes := by
  obtain ⟨-, ⟨hoffsets, hparts⟩, hbodies⟩ := at_of_joinItems hsized hjoin
  rw [Field.slotSum_shapes, ← hPart] at hoffsets hbodies
  constructor
  · rw [← hsized.length_eq, Field.shapes, List.length_map]
  · intro index field slice hfield hslice hfixed
    obtain ⟨hsize, hprefix⟩ := hparts.get (Field.getElem?_shapes hfield) hslice hfixed
    rw [Nat.zero_add, ← slotStart_eq] at hprefix
    exact extract_eq hprefix (by rw [slotStart_succ hfield, hsize])
  · intro index field slice hfield hslice hvariable
    obtain ⟨hoffset, -, -⟩ :=
      hoffsets.get hbodies (Field.getElem?_shapes hfield) hslice hvariable rfl
    rwa [Nat.zero_add, ← slotStart_eq] at hoffset
  · intro index field slice hfield hslice hvariable
    obtain ⟨hoffset, hnext, hprefix⟩ :=
      hoffsets.get hbodies (Field.getElem?_shapes hfield) hslice hvariable rfl
    rw [Nat.zero_add, ← slotStart_eq] at hoffset hnext
    rw [contentAt, offsetOf, hoffset]
    exact extract_eq hprefix hnext

/-- There is a slice for each field. -/
theorem Laid.exists_slice {schema : Schema} {slices : List Bytes} {bytes : Bytes}
    (h : schema.Laid slices bytes) {index : Nat} {field : Field}
    (hfield : schema.fields[index]? = some field) : ∃ slice, slices[index]? = some slice := by
  obtain ⟨hlt, -⟩ := List.getElem?_eq_some_iff.mp hfield
  exact ⟨_, List.getElem?_eq_getElem (h.length_eq.symm ▸ hlt)⟩

/-- Slices that are laid out have their contents in order. -/
theorem Laid.inOrder {schema : Schema} {slices : List Bytes} {bytes : Bytes}
    (h : schema.Laid slices bytes) : schema.InOrder bytes := by
  intro index later field laterField hfield hvariable hlater hlaterVariable hlt
  obtain ⟨slice, hslice⟩ := h.exists_slice hfield
  obtain ⟨laterSlice, hlaterSlice⟩ := h.exists_slice hlater
  rw [h.offsetOf_eq hfield hslice hvariable, h.contentAt_eq hfield hslice hvariable,
    h.offsetOf_eq hlater hlaterSlice hlaterVariable, Nat.add_assoc]
  exact Nat.add_le_add_left
    (bodySum_take_add_le (Field.getElem?_shapes hfield) hslice hvariable hlt) _

/-- Another slice of a field of variable size moves what lies behind it. -/
theorem Laid.movedBehind {schema : Schema} {slices : List Bytes} {bytes others : Bytes}
    {index : Nat} {own : Field} {slice : Bytes} (h : schema.Laid slices bytes)
    (h' : schema.Laid (slices.set index slice) others) (hown : schema.fields[index]? = some own)
    (hopen : own.shape.isFixed = false) : schema.MovedBehind index bytes others := by
  obtain ⟨ownSlice, hownSlice⟩ := h.exists_slice hown
  have hset := getElem?_set_of_getElem? hownSlice slice
  have hkept {other : Nat} {kept : Bytes} (hkept : slices[other]? = some kept)
      (hne : other ≠ index) : (slices.set index slice)[other]? = some kept := by
    rw [List.getElem?_set_ne hne.symm, hkept]
  constructor
  · intro other field hfield hfixed
    obtain ⟨kept, hslice⟩ := h.exists_slice hfield
    have hne : other ≠ index := by
      rintro rfl
      cases hown.symm.trans hfield
      exact Bool.false_ne_true (hopen.symm.trans hfixed)
    rw [h.slotAt_eq hfield hslice hfixed, h'.slotAt_eq hfield (hkept hslice hne) hfixed]
  · intro other field hfield hvariable hle
    obtain ⟨kept, hslice⟩ := h.exists_slice hfield
    obtain ⟨kept', hslice'⟩ := h'.exists_slice hfield
    rw [h.offsetOf_eq hfield hslice hvariable, h'.offsetOf_eq hfield hslice' hvariable,
      List.take_set_of_le hle]
  · intro other field hfield hvariable hlt
    -- The field is among those in front, so that its body counts for the offset.
    obtain ⟨kept, hslice⟩ := h.exists_slice hfield
    obtain ⟨kept', hslice'⟩ := h'.exists_slice hfield
    rw [h.offsetOf_eq hfield hslice hvariable, h'.offsetOf_eq hfield hslice' hvariable,
      h.contentAt_eq hown hownSlice hopen, h'.contentAt_eq hown hset hopen, Nat.add_assoc,
      Nat.add_assoc, List.take_set]
    have hshape : ((Field.shapes schema.fields).take other)[index]? = some own.shape := by
      rw [List.getElem?_take_of_lt hlt, Field.getElem?_shapes hown]
    rw [bodySum_set hshape (by rw [List.getElem?_take_of_lt hlt, hownSlice]) hopen]
  · intro other field hfield hvariable hne
    obtain ⟨kept, hslice⟩ := h.exists_slice hfield
    rw [h.contentAt_eq hfield hslice hvariable, h'.contentAt_eq hfield (hkept hslice hne) hvariable]

/-- Another slice of a field of fixed size changes the bytes of its slot alone. -/
theorem getElem?_of_joinItems {schema : Schema} {slices : List Bytes} {bytes others : Bytes}
    {index : Nat} {field : Field} {own slice : Bytes}
    (hfield : schema.fields[index]? = some field) (hfixed : field.shape.isFixed = true)
    (hown : slices[index]? = some own) (hsized : Sized (Field.shapes schema.fields) slices)
    (hsized' : Sized (Field.shapes schema.fields) (slices.set index slice))
    (hjoin : joinItems (partsOf (Field.shapes schema.fields) slices)
      (bodiesOf (Field.shapes schema.fields) slices) = .ok bytes)
    (hjoin' : joinItems (partsOf (Field.shapes schema.fields) (slices.set index slice))
      (bodiesOf (Field.shapes schema.fields) (slices.set index slice)) = .ok others) :
    others.length = bytes.length ∧ ∀ position,
      position < schema.slotStart index ∨
          schema.slotStart index + field.shape.slotSize ≤ position →
        others[position]? = bytes[position]? := by
  have hshape := Field.getElem?_shapes hfield
  have hslice := getElem?_set_of_getElem? hown slice
  have hsize : own.length = field.shape.slotSize := hsized.get hshape hown hfixed
  have hsize' : slice.length = own.length := (hsized'.get hshape hslice hfixed).trans hsize.symm
  have hfront (offsets : List Nat) : (fillHead (partsOf ((Field.shapes schema.fields).take index)
      (slices.take index)) offsets).length = schema.slotStart index := by
    rw [length_fillHead, headSize_partsOf (List.forall₂_take index hsized), slotStart_eq]
  obtain ⟨-, rfl⟩ := (joinItems_eq_ok (openCount_partsOf _ _)).mp hjoin
  obtain ⟨-, rfl⟩ := (joinItems_eq_ok (openCount_partsOf _ _)).mp hjoin'
  rw [bodiesOf_set hshape hown hfixed, headSize_partsOf hsized, headSize_partsOf hsized',
    fillHead_partsOf_eq hshape hown hfixed, fillHead_partsOf_eq hshape hslice hfixed,
    List.take_set_of_le le_rfl, List.drop_set_of_lt (Nat.lt_add_one index)]
  refine ⟨by simp [hsize'], fun position hposition => ?_⟩
  simp only [List.append_assoc]
  exact getElem?_append_middle hsize' (by rwa [hfront, hsize])

/-- An update touches only its own bytes. Of two written values that differ in one field alone,
the bytes agree outside the slot of the field if it is of fixed size. If it is of variable size,
they differ by its content and by the offsets behind it, all of which move as far as the content
has grown. -/
theorem serialize_update {schema : Schema} (hDrawn : schema.Drawn) {index : Nat} {field : Field}
    (hfield : schema.fields[index]? = some field) {value other : Value}
    (hagree : ∀ position ≠ index, other.partAt? position = value.partAt? position)
    {bytes otherBytes : Bytes} (h : schema.serialize value = .ok bytes)
    (h' : schema.serialize other = .ok otherBytes) :
    (∀ field ∈ schema.fields, field.shape.slotLength = .ok field.shape.slotSize) ∧
      (field.shape.isFixed = true →
        otherBytes.length = bytes.length ∧ ∀ position,
          position < schema.slotStart index ∨
              schema.slotStart index + field.shape.slotSize ≤ position →
            otherBytes[position]? = bytes[position]?) ∧
      (field.shape.isFixed = false →
        schema.MovedBehind index bytes otherBytes ∧
          schema.InOrder bytes ∧ schema.InOrder otherBytes ∧
          ∃ part otherPart, value.partAt? index = some part ∧
            other.partAt? index = some otherPart ∧
            field.shape.encode part = .ok (schema.contentAt bytes index) ∧
            field.shape.encode otherPart = .ok (schema.contentAt otherBytes index)) := by
  have hSound := sound_of_drawn hDrawn
  rw [serialize, Encoding.within_eq_ok, encodeFields_eq_ok] at h h'
  obtain ⟨values, slices, rfl, heach, hjoin⟩ := h
  obtain ⟨others, slices', rfl, heach', hjoin'⟩ := h'
  obtain ⟨hFields, hPart⟩ : Field.AllSound schema.fields ∧
      schema.fixedPart = Field.slotSum schema.fields := by
    obtain ⟨name, fields, fixedPart, isFixed, edition⟩ := schema
    exact ⟨hSound.2.2.1, hSound.2.2.2.1⟩
  have hsized := Field.sized_of_each hFields heach
  have hsized' := Field.sized_of_each hFields heach'
  obtain ⟨slice, part, hslice, hpart, hwrites⟩ := heach.get hfield
  obtain ⟨slice', part', hslice', hpart', hwrites'⟩ := heach'.get hfield
  obtain rfl := heach.eq_set heach' hagree hslice'
  refine ⟨fun field hfield => ?_, fun hfixed => ?_, fun hvariable => ?_⟩
  · exact Field.counted_shapes hFields _ (List.mem_map_of_mem hfield)
  · exact getElem?_of_joinItems hfield hfixed hslice hsized hsized' hjoin hjoin'
  · have hlaid := laid_of_joinItems hPart hsized hjoin
    have hlaid' := laid_of_joinItems hPart hsized' hjoin'
    refine ⟨hlaid.movedBehind hlaid' hfield hvariable, hlaid.inOrder, hlaid'.inOrder,
      part, part', hpart, hpart', ?_, ?_⟩
    · rw [hlaid.contentAt_eq hfield hslice hvariable]
      exact hwrites
    · rw [hlaid'.contentAt_eq hfield hslice' hvariable]
      exact hwrites'

/-- The value of the example with other notes. -/
def notedValue : Value :=
  .container [.boolean true, .sequence [.bytes [9]], .bits [true, false, true],
    .container [.uint 258, .bits [true, true, false]]]

/-- The bytes of the value with other notes. -/
def notedBytes : Bytes :=
  [1, 12, 0, 0, 0, 17, 0, 0, 0, 2, 1, 3, 4, 0, 0, 0, 9, 13]

/-- Other notes move the votes behind them. -/
theorem serialize_notedValue :
    outerExample.serialize outerValue = .ok outerBytes ∧
      outerExample.serialize notedValue = .ok notedBytes ∧
      outerExample.MovedBehind 1 outerBytes notedBytes := by
  have hagree : ∀ position ≠ 1, notedValue.partAt? position = outerValue.partAt? position := by
    intro position hne
    rcases position with _ | _ | position
    · rfl
    · exact absurd rfl hne
    · rfl
  have h : outerExample.serialize outerValue = .ok outerBytes := by decide +kernel
  have h' : outerExample.serialize notedValue = .ok notedBytes := by decide +kernel
  obtain ⟨-, -, hmoved⟩ := serialize_update outerExample_drawn rfl hagree h h'
  exact ⟨h, h', (hmoved rfl).1⟩

end Schema

end BeaconSsz

import BeaconSsz.Wire.Reader
import BeaconSsz.Wire.Encode
import BeaconSsz.Proofs.Schema.Sound
import BeaconSsz.Proofs.Wire.Table

/-!
# Reading the parts of a container

The two passes over the fixed part each check one half of what joining items writes. Registering
finds the offsets in the open places, in order. Taking finds the given parts in their places and
the bodies between the offsets. Together they succeed exactly on the bytes that joining the taken
parts gives.

Only the size of each slot matters here, so the statements ask of the shapes no more than that
their slots can be counted.
-/

namespace BeaconSsz

/-- The bytes of the slots of shapes. -/
def slotSum (shapes : List Shape) : Nat :=
  (shapes.map Shape.slotSize).sum

/-- The slots are counted one after the other. -/
theorem slotSum_cons (shape : Shape) (shapes : List Shape) :
    slotSum (shape :: shapes) = shape.slotSize + slotSum shapes := by
  simp [slotSum]

/-- The slots of shapes can be counted one by one. -/
def Counted (shapes : List Shape) : Prop :=
  ∀ shape ∈ shapes, shape.slotLength = .ok shape.slotSize

/-- Slices, each with whether its shape is of fixed size. -/
def tagged (shapes : List Shape) (slices : List Bytes) : List (Bool × Bytes) :=
  List.zipWith (fun shape slice => (shape.isFixed, slice)) shapes slices

/-- The slices of fixed size in their places, and open places for the others. -/
def partsOf (shapes : List Shape) (slices : List Bytes) : List (Option Bytes) :=
  (tagged shapes slices).map fixedPartOf

/-- The slices of variable size. -/
def bodiesOf (shapes : List Shape) (slices : List Bytes) : List Bytes :=
  (tagged shapes slices).filterMap bodyOf?

/-- There is a slice for each shape, and those of fixed size have the size of their slot. -/
def Sized (shapes : List Shape) (slices : List Bytes) : Prop :=
  List.Forall₂ (fun shape slice => shape.isFixed = true → slice.length = shape.slotSize)
    shapes slices

/-- A slice of fixed size is given in its place. -/
theorem partsOf_cons_fixed {shape : Shape} (h : shape.isFixed = true) (shapes : List Shape)
    (slice : Bytes) (slices : List Bytes) :
    partsOf (shape :: shapes) (slice :: slices) = some slice :: partsOf shapes slices := by
  simp [partsOf, tagged, fixedPartOf, h]

/-- A slice of variable size leaves its place open. -/
theorem partsOf_cons_variable {shape : Shape} (h : shape.isFixed = false) (shapes : List Shape)
    (slice : Bytes) (slices : List Bytes) :
    partsOf (shape :: shapes) (slice :: slices) = none :: partsOf shapes slices := by
  simp [partsOf, tagged, fixedPartOf, h]

/-- A slice of fixed size is no body. -/
theorem bodiesOf_cons_fixed {shape : Shape} (h : shape.isFixed = true) (shapes : List Shape)
    (slice : Bytes) (slices : List Bytes) :
    bodiesOf (shape :: shapes) (slice :: slices) = bodiesOf shapes slices := by
  simp [bodiesOf, tagged, bodyOf?, h]

/-- A slice of variable size is a body. -/
theorem bodiesOf_cons_variable {shape : Shape} (h : shape.isFixed = false) (shapes : List Shape)
    (slice : Bytes) (slices : List Bytes) :
    bodiesOf (shape :: shapes) (slice :: slices) = slice :: bodiesOf shapes slices := by
  simp [bodiesOf, tagged, bodyOf?, h]

/-- There is an open place for each encoding of variable size. -/
theorem openCount_fixedPartOf (encoded : List (Bool × Bytes)) :
    openCount (encoded.map fixedPartOf) = (encoded.filterMap bodyOf?).length := by
  unfold openCount
  induction encoded with
  | nil => rfl
  | cons item items ih =>
    obtain ⟨isFixed, slice⟩ := item
    cases isFixed <;> simp_all [fixedPartOf, bodyOf?]

/-- There is an open place for each body. -/
theorem openCount_partsOf (shapes : List Shape) (slices : List Bytes) :
    openCount (partsOf shapes slices) = (bodiesOf shapes slices).length :=
  openCount_fixedPartOf _

/-- The slot of a shape of variable size holds an offset. -/
theorem Shape.slotSize_of_variable {shape : Shape} (h : shape.isFixed = false) :
    shape.slotSize = offsetLength := by
  cases shape <;> simp_all [Shape.isFixed, Shape.slotSize]

/-- Slices of the right sizes fill the slots. -/
theorem headSize_partsOf {shapes : List Shape} {slices : List Bytes} (h : Sized shapes slices) :
    headSize (partsOf shapes slices) = slotSum shapes := by
  induction h with
  | nil => rfl
  | @cons shape slice shapes slices hslice _ ih =>
    cases hfixed : shape.isFixed with
    | true =>
      rw [partsOf_cons_fixed hfixed, headSize, ih, slotSize, hslice hfixed, slotSum_cons]
    | false =>
      rw [partsOf_cons_variable hfixed, headSize, ih, slotSize, slotSum_cons,
        Shape.slotSize_of_variable hfixed]

/-- If all shapes are of fixed size, there are no bodies. -/
theorem bodiesOf_of_all_fixed {shapes : List Shape} (h : ∀ shape ∈ shapes, shape.isFixed = true)
    (slices : List Bytes) : bodiesOf shapes slices = [] := by
  induction shapes generalizing slices with
  | nil => simp [bodiesOf, tagged]
  | cons shape shapes ih =>
    rw [List.forall_mem_cons] at h
    cases slices with
    | nil => simp [bodiesOf, tagged]
    | cons slice slices => rw [bodiesOf_cons_fixed h.1, ih h.2]

/-- If there are no bodies, all shapes are of fixed size. -/
theorem all_fixed_of_bodiesOf {shapes : List Shape} {slices : List Bytes}
    (hlength : shapes.length = slices.length) (h : bodiesOf shapes slices = []) :
    ∀ shape ∈ shapes, shape.isFixed = true := by
  induction shapes generalizing slices with
  | nil => simp
  | cons shape shapes ih =>
    cases slices with
    | nil => simp at hlength
    | cons slice slices =>
      cases hfixed : shape.isFixed with
      | true =>
        rw [bodiesOf_cons_fixed hfixed] at h
        exact List.forall_mem_cons.mpr ⟨hfixed, ih (by simpa using hlength) h⟩
      | false =>
        rw [bodiesOf_cons_variable hfixed] at h
        simp at h

/-- The offsets lie in the open places from a position on. -/
def OffsetsAt (store : Bytes) : Nat → List Shape → List Nat → Prop
  | _, [], offsets => offsets = []
  | start, shape :: shapes, offsets =>
    if shape.isFixed then OffsetsAt store (start + shape.slotSize) shapes offsets
    else ∃ offset later, offsets = offset :: later ∧ offset < offsetLimit ∧
      Bytes.littleEndian offsetLength offset <+: store.drop start ∧
      OffsetsAt store (start + shape.slotSize) shapes later

/-- The slices of fixed size lie in their places from a position on. -/
def PartsAt (store : Bytes) : Nat → List Shape → List Bytes → Prop
  | _, [], slices => slices = []
  | _, _ :: _, [] => False
  | start, shape :: shapes, slice :: slices =>
    (shape.isFixed = true → slice.length = shape.slotSize ∧ slice <+: store.drop start) ∧
      PartsAt store (start + shape.slotSize) shapes slices

/-- Each body reaches from its offset to the next one, and the last one to the end. -/
def BodiesAt (store : Bytes) : List Nat → List Bytes → Prop
  | offsets, [] => offsets = []
  | [], _ :: _ => False
  | offset :: later, body :: bodies =>
    offset + body.length = later.headD store.length ∧ offset + body.length ≤ store.length ∧
      body <+: store.drop offset ∧ BodiesAt store later bodies

/-- The first offset is the end of the fixed part, and each further one lies between the one
before it and the end of the bytes. -/
def Ordered (fixedPart size : Nat) : Option Nat → List Nat → Prop
  | _, [] => True
  | none, offset :: later => offset = fixedPart ∧ Ordered fixedPart size (some offset) later
  | some previous, offset :: later =>
    previous ≤ offset ∧ offset ≤ size ∧ Ordered fixedPart size (some offset) later

/-- Offsets are in order exactly when the first one is and the others are behind it. -/
theorem ordered_cons {fixedPart size : Nat} {previous : Option Nat} {offset : Nat}
    {later : List Nat} :
    Ordered fixedPart size previous (offset :: later) ↔
      Ordered fixedPart size previous [offset] ∧ Ordered fixedPart size (some offset) later := by
  cases previous <;> simp [Ordered, and_assoc]

/-- Offsets in the open places and slices in the others are the filled parts. -/
theorem offsetsAt_and_partsAt_iff {store : Bytes} {start : Nat} {shapes : List Shape}
    {offsets : List Nat} {slices : List Bytes} :
    OffsetsAt store start shapes offsets ∧ PartsAt store start shapes slices ↔
      Sized shapes slices ∧ offsets.length = (bodiesOf shapes slices).length ∧
        (∀ offset ∈ offsets, offset < offsetLimit) ∧
        fillHead (partsOf shapes slices) offsets <+: store.drop start := by
  induction shapes generalizing start offsets slices with
  | nil =>
    simp only [OffsetsAt, PartsAt, Sized, List.forall₂_nil_left_iff]
    apply Iff.intro
    · intro h
      obtain ⟨rfl, rfl⟩ := h
      simp [bodiesOf, tagged, partsOf, fillHead]
    · intro h
      obtain ⟨rfl, hlength, -, -⟩ := h
      exact ⟨List.length_eq_zero_iff.mp (by simpa [bodiesOf, tagged] using hlength), rfl⟩
  | cons shape shapes ih =>
    cases slices with
    | nil => simp [PartsAt, Sized]
    | cons slice slices =>
      rw [Sized, List.forall₂_cons, ← Sized, PartsAt]
      cases hfixed : shape.isFixed with
      | true =>
        rw [OffsetsAt, if_pos hfixed, partsOf_cons_fixed hfixed, bodiesOf_cons_fixed hfixed,
          fillHead, append_prefix_drop_iff]
        apply Iff.intro
        · intro h
          obtain ⟨hoffsets, hslice, hparts⟩ := h
          obtain ⟨hlength, hfront⟩ := hslice rfl
          obtain ⟨hsized, hcount, hlt, hhead⟩ := ih.mp ⟨hoffsets, hparts⟩
          exact ⟨⟨fun _ => hlength, hsized⟩, hcount, hlt, hfront, hlength ▸ hhead⟩
        · intro h
          obtain ⟨⟨hlength, hsized⟩, hcount, hlt, hfront, hhead⟩ := h
          obtain ⟨hoffsets, hparts⟩ := ih.mpr ⟨hsized, hcount, hlt, hlength rfl ▸ hhead⟩
          exact ⟨hoffsets, fun _ => ⟨hlength rfl, hfront⟩, hparts⟩
      | false =>
        rw [OffsetsAt, if_neg (by simp [hfixed]), partsOf_cons_variable hfixed,
          bodiesOf_cons_variable hfixed, fillHead, append_prefix_drop_iff,
          Bytes.length_littleEndian, Shape.slotSize_of_variable hfixed]
        simp only [Bool.false_eq_true, false_implies, true_and]
        apply Iff.intro
        · intro h
          obtain ⟨⟨offset, later, rfl, hlt, hslot, hoffsets⟩, hparts⟩ := h
          obtain ⟨hsized, hcount, hlts, hhead⟩ := ih.mp ⟨hoffsets, hparts⟩
          exact ⟨hsized, by simpa using hcount, List.forall_mem_cons.mpr ⟨hlt, hlts⟩, hslot, hhead⟩
        · intro h
          obtain ⟨hsized, hcount, hlt, hslot, hhead⟩ := h
          obtain ⟨offset, later, rfl⟩ := List.exists_cons_of_length_eq_add_one hcount
          rw [List.forall_mem_cons] at hlt
          obtain ⟨hoffsets, hparts⟩ := ih.mpr ⟨hsized, by simpa using hcount, hlt.2, hhead⟩
          exact ⟨⟨offset, later, rfl, hlt.1, hslot, hoffsets⟩, hparts⟩

/-- Bodies between offsets make up the rest of the bytes, and the offsets are those of bodies in a
row. -/
theorem BodiesAt.eq_runningOffsets {store : Bytes} {offset : Nat} {later : List Nat}
    {bodies : List Bytes} (h : BodiesAt store (offset :: later) bodies) :
    offset :: later = runningOffsets offset bodies ∧ bodies.flatten = store.drop offset := by
  induction bodies generalizing offset later with
  | nil => simp [BodiesAt] at h
  | cons body bodies ih =>
    obtain ⟨hnext, hsize, hfront, hbodies⟩ := h
    rw [runningOffsets, List.flatten_cons, append_eq_drop_iff]
    cases later with
    | nil =>
      obtain rfl : bodies = [] := by cases bodies <;> simp_all [BodiesAt]
      rw [List.headD_nil] at hnext
      refine ⟨rfl, hfront, ?_⟩
      rw [List.drop_eq_nil_of_le (by omega), List.flatten_nil]
    | cons next later =>
      obtain rfl : offset + body.length = next := hnext
      obtain ⟨hoffsets, hflat⟩ := ih hbodies
      exact ⟨by rw [hoffsets], hfront, hflat⟩

/-- Bodies in a row up to the end lie between their offsets. -/
theorem bodiesAt_runningOffsets {store : Bytes} {start : Nat} {bodies : List Bytes}
    (hstart : start ≤ store.length) (h : bodies ≠ [] → bodies.flatten = store.drop start) :
    BodiesAt store (runningOffsets start bodies) bodies := by
  induction bodies generalizing start with
  | nil => rfl
  | cons body bodies ih =>
    have hflat := h (List.cons_ne_nil _ _)
    have hlength := congrArg List.length hflat
    rw [List.flatten_cons, List.length_append, List.length_drop] at hlength
    rw [List.flatten_cons, append_eq_drop_iff] at hflat
    rw [runningOffsets]
    refine ⟨?_, by omega, hflat.1, ih (by omega) fun _ => hflat.2⟩
    cases bodies with
    | nil =>
      rw [List.flatten_nil, List.length_nil] at hlength
      simp only [runningOffsets, List.headD_nil]
      omega
    | cons next bodies => rfl

/-- Offsets of bodies in a row up to the end are in order behind an earlier offset. -/
theorem ordered_some_runningOffsets {fixedPart size previous start : Nat} {bodies : List Bytes}
    (hprevious : previous ≤ start) (h : start + bodies.flatten.length ≤ size) :
    Ordered fixedPart size (some previous) (runningOffsets start bodies) := by
  induction bodies generalizing previous start with
  | nil => trivial
  | cons body bodies ih =>
    rw [List.flatten_cons, List.length_append] at h
    exact ⟨hprevious, by omega, ih (Nat.le_add_right _ _) (by omega)⟩

/-- Offsets of bodies in a row from the end of the fixed part up to the end are in order. -/
theorem ordered_runningOffsets {fixedPart size : Nat} {bodies : List Bytes}
    (h : fixedPart + bodies.flatten.length ≤ size) :
    Ordered fixedPart size none (runningOffsets fixedPart bodies) := by
  cases bodies with
  | nil => trivial
  | cons body bodies =>
    rw [List.flatten_cons, List.length_append] at h
    exact ⟨rfl, ordered_some_runningOffsets (Nat.le_add_right _ _) (by omega)⟩

/-- Joined slices fill the slots and follow them. The offsets lie in the open places, the slices of
fixed size in the others, and the bodies between the offsets. -/
theorem at_of_joinItems {shapes : List Shape} {slices : List Bytes} {bytes : Bytes}
    (hsized : Sized shapes slices)
    (hjoin : joinItems (partsOf shapes slices) (bodiesOf shapes slices) = .ok bytes) :
    slotSum shapes + (bodiesOf shapes slices).flatten.length = bytes.length ∧
      (OffsetsAt bytes 0 shapes (runningOffsets (slotSum shapes) (bodiesOf shapes slices)) ∧
        PartsAt bytes 0 shapes slices) ∧
      BodiesAt bytes (runningOffsets (slotSum shapes) (bodiesOf shapes slices))
        (bodiesOf shapes slices) := by
  obtain ⟨hlt, hbytes⟩ := (joinItems_eq_ok (openCount_partsOf _ _)).mp hjoin
  rw [headSize_partsOf hsized] at hlt hbytes
  have hlength := congrArg List.length hbytes
  rw [List.length_append, length_fillHead, headSize_partsOf hsized] at hlength
  rw [append_eq_iff, length_fillHead, headSize_partsOf hsized] at hbytes
  refine ⟨hlength, ?_, bodiesAt_runningOffsets (by omega) fun _ => hbytes.2⟩
  rw [offsetsAt_and_partsAt_iff, List.drop_zero]
  exact ⟨hsized, length_runningOffsets _ _, hlt, hbytes.1⟩

namespace Reader

/-- Registers parts in order. -/
def registerAll : List Shape → Reader → Decoding Reader
  | [], reader => .ok reader
  | shape :: shapes, reader => do
    let reader ← reader.register shape
    registerAll shapes reader

/-- Takes the bytes of parts in order. -/
def takeAll : List Shape → Reader → Decoding (List Bytes)
  | [], _ => .ok []
  | shape :: shapes, reader => do
    let (slice, reader) ← reader.next shape
    let slices ← takeAll shapes reader
    return slice :: slices

/-- Registers the parts of a container and then takes their bytes. -/
def readAll (shapes : List Shape) (fixedPart : Nat) (bytes : Bytes) : Decoding (List Bytes) := do
  let reader ← start bytes fixedPart
  let reader ← registerAll shapes reader
  takeAll shapes reader

/-- The offsets that have not been taken yet. -/
def remaining (reader : Reader) : List Nat :=
  reader.offsets.toList.drop reader.takenOffsets

/-- Reading can start exactly if the fixed part is there. -/
theorem start_eq_ok {bytes : Bytes} {fixedPart : Nat} {reader : Reader} :
    start bytes fixedPart = .ok reader ↔
      fixedPart ≤ bytes.length ∧ reader = ⟨bytes.toArray, fixedPart, 0, 0, #[], 0⟩ := by
  unfold start
  simp only [List.size_toArray]
  split
  · next h => simp [Nat.not_le.mpr h]
  · next h => simp [Nat.not_lt.mp h, eq_comm]

/-- Reading an offset of a part puts it behind the others, if it is in order. -/
theorem registerOffset_eq_ok {reader reader' : Reader} :
    reader.registerOffset = .ok reader' ↔
      ∃ offset, readOffset reader.store reader.registered = .ok offset ∧
        Ordered reader.fixedPart reader.store.size reader.offsets.back? [offset] ∧
        { reader with offsets := reader.offsets.push offset } = reader' := by
  simp only [registerOffset, bind_eq_ok]
  refine exists_congr fun offset => and_congr_right fun _ => ?_
  cases reader.offsets.back? with
  | none =>
    simp only [Ordered, and_true]
    split <;> simp_all
  | some previous =>
    simp only [Ordered, and_true, bind_eq_ok, pure_eq_ok, checkOffset_eq_ok]
    apply Iff.intro
    · intro h
      obtain ⟨_, ⟨hprevious, hsize, rfl⟩, rfl⟩ := h
      exact ⟨⟨hprevious, hsize⟩, rfl⟩
    · intro h
      obtain ⟨⟨hprevious, hsize⟩, rfl⟩ := h
      exact ⟨_, ⟨hprevious, hsize, rfl⟩, rfl⟩

/-- A part of fixed size is registered by passing over its slot. -/
theorem register_fixed_eq_ok {reader reader' : Reader} {shape : Shape}
    (hslot : shape.slotLength = .ok shape.slotSize) (hfixed : shape.isFixed = true)
    (hword : reader.registered + shape.slotSize < wordLimit) :
    reader.register shape = .ok reader' ↔
      { reader with registered := reader.registered + shape.slotSize } = reader' := by
  simp only [register, hfixed, ↓reduceIte, bind_eq_ok, Stop.orTrap_eq_ok, hslot,
    Except.ok.injEq, Word.add_eq_ok, pure_eq_ok]
  apply Iff.intro
  · intro h
    obtain ⟨_, rfl, _, rfl, _, ⟨-, rfl⟩, rfl⟩ := h
    rfl
  · intro heq
    obtain rfl := heq
    exact ⟨_, rfl, _, rfl, _, ⟨hword, rfl⟩, rfl⟩

/-- A part of variable size is registered by reading its offset and passing over its slot. -/
theorem register_variable_eq_ok {reader reader' : Reader} {shape : Shape}
    (hslot : shape.slotLength = .ok shape.slotSize) (hfixed : shape.isFixed = false)
    (hword : reader.registered + shape.slotSize < wordLimit) :
    reader.register shape = .ok reader' ↔
      ∃ offset, readOffset reader.store reader.registered = .ok offset ∧
        Ordered reader.fixedPart reader.store.size reader.offsets.back? [offset] ∧
        { reader with
          registered := reader.registered + shape.slotSize
          offsets := reader.offsets.push offset } = reader' := by
  simp only [register, hfixed, Bool.false_eq_true, ↓reduceIte, bind_eq_ok, registerOffset_eq_ok,
    Stop.orTrap_eq_ok, hslot, Except.ok.injEq, Word.add_eq_ok, pure_eq_ok]
  apply Iff.intro
  · intro h
    obtain ⟨_, ⟨offset, hread, hordered, rfl⟩, _, rfl, _, ⟨-, rfl⟩, rfl⟩ := h
    exact ⟨offset, hread, hordered, rfl⟩
  · intro h
    obtain ⟨offset, hread, hordered, rfl⟩ := h
    exact ⟨_, ⟨offset, hread, hordered, rfl⟩, _, rfl, _, ⟨hword, rfl⟩, rfl⟩

/-- Registering finds the offsets in the open places, in order, and puts them behind those that
were found before. -/
theorem registerAll_eq_ok {shapes : List Shape} (hslots : Counted shapes)
    {reader reader' : Reader}
    (hword : reader.registered + slotSum shapes < wordLimit)
    (hroom : reader.registered + slotSum shapes ≤ reader.store.size) :
    registerAll shapes reader = .ok reader' ↔
      ∃ offsets, OffsetsAt reader.store.toList reader.registered shapes offsets ∧
        Ordered reader.fixedPart reader.store.size reader.offsets.back? offsets ∧
        { reader with
          registered := reader.registered + slotSum shapes
          offsets := reader.offsets ++ offsets } = reader' := by
  induction shapes generalizing reader with
  | nil =>
    simp only [registerAll, Except.ok.injEq, OffsetsAt]
    apply Iff.intro
    · intro heq
      obtain rfl := heq
      exact ⟨[], rfl, trivial, by simp [slotSum]⟩
    · intro h
      obtain ⟨_, rfl, -, rfl⟩ := h
      simp [slotSum]
  | cons shape shapes ih =>
    obtain ⟨hslot, hslots⟩ := List.forall_mem_cons.mp hslots
    have hsum := slotSum_cons shape shapes
    rw [hsum] at hword hroom
    have hhead : reader.registered + shape.slotSize < wordLimit := by omega
    rw [registerAll, bind_eq_ok]
    cases hfixed : shape.isFixed with
    | true =>
      simp only [register_fixed_eq_ok hslot hfixed hhead, exists_eq_left']
      rw [ih hslots (by simpa only [Nat.add_assoc] using hword)
        (by simpa only [Nat.add_assoc] using hroom)]
      simp only [OffsetsAt, hfixed, ↓reduceIte, hsum, Nat.add_assoc]
    | false =>
      have hfour := Shape.slotSize_of_variable hfixed
      simp only [register_variable_eq_ok hslot hfixed hhead, readOffset_eq_ok]
      apply Iff.intro
      · intro h
        obtain ⟨_, ⟨offset, ⟨-, -, hlt, hfront⟩, hordered, rfl⟩, h⟩ := h
        rw [ih hslots (by simpa only [Nat.add_assoc] using hword)
          (by simpa only [Nat.add_assoc] using hroom)] at h
        obtain ⟨later, hoffsets, horder, rfl⟩ := h
        rw [Array.back?_push] at horder
        refine ⟨offset :: later, ?_, ordered_cons.mpr ⟨hordered, horder⟩, ?_⟩
        · rw [OffsetsAt, if_neg (by simp [hfixed])]
          exact ⟨offset, later, rfl, hlt, hfront, hoffsets⟩
        · simp [hsum, Nat.add_assoc]
      · intro h
        obtain ⟨offsets, hoffsets, hordered, rfl⟩ := h
        rw [OffsetsAt, if_neg (by simp [hfixed])] at hoffsets
        obtain ⟨offset, later, rfl, hlt, hfront, hoffsets⟩ := hoffsets
        obtain ⟨hfirst, hlater⟩ := ordered_cons.mp hordered
        refine ⟨_, ⟨offset, ⟨by omega, by omega, hlt, hfront⟩, hfirst, rfl⟩, ?_⟩
        rw [ih hslots (by simpa only [Nat.add_assoc] using hword)
          (by simpa only [Nat.add_assoc] using hroom)]
        refine ⟨later, hoffsets, by rwa [Array.back?_push], ?_⟩
        simp [hsum, Nat.add_assoc]

/-- The next part is the slice at its span. -/
theorem next_eq_ok {reader reader' : Reader} {shape : Shape} {slice : Bytes}
    (hslot : shape.slotLength = .ok shape.slotSize)
    (hword : reader.taken + shape.slotSize < wordLimit) :
    reader.next shape = .ok (slice, reader') ↔
      ∃ start stop, reader.span shape = .ok (start, stop) ∧
        slice? reader.store start stop = some slice ∧
        { reader with
          taken := reader.taken + shape.slotSize
          takenOffsets :=
            if shape.isFixed then reader.takenOffsets else reader.takenOffsets + 1 } = reader' := by
  simp only [next, bind_eq_ok, Prod.exists]
  refine exists_congr fun start => exists_congr fun stop => and_congr_right fun _ => ?_
  cases slice? reader.store start stop with
  | none => simp
  | some part =>
    simp only [bind_eq_ok, Stop.orTrap_eq_ok, hslot, Except.ok.injEq, Word.add_eq_ok,
      pure_eq_ok, Prod.mk.injEq, Option.some.injEq]
    apply Iff.intro
    · intro h
      obtain ⟨_, rfl, _, ⟨-, rfl⟩, rfl, rfl⟩ := h
      exact ⟨rfl, rfl⟩
    · intro h
      obtain ⟨rfl, rfl⟩ := h
      exact ⟨_, rfl, _, ⟨hword, rfl⟩, rfl, rfl⟩

/-- A part of fixed size is taken from its place. -/
theorem next_fixed_eq_ok {reader reader' : Reader} {shape : Shape} {slice : Bytes}
    (hslot : shape.slotLength = .ok shape.slotSize) (hfixed : shape.isFixed = true)
    (hword : reader.taken + shape.slotSize < wordLimit)
    (hroom : reader.taken + shape.slotSize ≤ reader.store.size) :
    reader.next shape = .ok (slice, reader') ↔
      (slice.length = shape.slotSize ∧ slice <+: reader.store.toList.drop reader.taken) ∧
        { reader with taken := reader.taken + shape.slotSize } = reader' := by
  have hspan : reader.span shape = .ok (reader.taken, reader.taken + shape.slotSize) := by
    simp only [span, hfixed, ↓reduceIte, hslot, bind_eq_ok, Stop.orTrap_eq_ok,
      Except.ok.injEq, Word.add_eq_ok, pure_eq_ok]
    exact ⟨_, rfl, _, ⟨hword, rfl⟩, rfl⟩
  simp only [next_eq_ok hslot hword, hspan, Except.ok.injEq, Prod.mk.injEq, slice?_eq_some,
    hfixed, ↓reduceIte]
  apply Iff.intro
  · intro h
    obtain ⟨_, _, ⟨rfl, rfl⟩, ⟨hlength, -, hfront⟩, rfl⟩ := h
    exact ⟨⟨by omega, hfront⟩, rfl⟩
  · intro h
    obtain ⟨⟨hlength, hfront⟩, rfl⟩ := h
    exact ⟨_, _, ⟨rfl, rfl⟩, ⟨by omega, hroom, hfront⟩, rfl⟩

/-- What remains is the next offset and those behind it. -/
theorem remaining_eq_cons {reader : Reader} {offset : Nat} {later : List Nat} :
    reader.remaining = offset :: later ↔
      reader.offsets[reader.takenOffsets]? = some offset ∧
        reader.offsets.toList.drop (reader.takenOffsets + 1) = later := by
  rw [remaining, ← Array.getElem?_toList]
  apply Iff.intro
  · intro h
    refine ⟨?_, ?_⟩
    · rw [← List.head?_drop, h, List.head?_cons]
    · rw [← List.tail_drop, h, List.tail_cons]
  · intro h
    obtain ⟨hget, rfl⟩ := h
    obtain ⟨hlt, rfl⟩ := List.getElem?_eq_some_iff.mp hget
    exact List.drop_eq_getElem_cons hlt

/-- A part of variable size is taken from its offset up to the next one. -/
theorem next_variable_eq_ok {reader reader' : Reader} {shape : Shape} {slice : Bytes}
    (hslot : shape.slotLength = .ok shape.slotSize) (hfixed : shape.isFixed = false)
    (hword : reader.taken + shape.slotSize < wordLimit) :
    reader.next shape = .ok (slice, reader') ↔
      ∃ offset later, reader.remaining = offset :: later ∧
        (offset + slice.length = later.headD reader.store.size ∧
          offset + slice.length ≤ reader.store.size ∧
          slice <+: reader.store.toList.drop offset) ∧
        { reader with
          taken := reader.taken + shape.slotSize
          takenOffsets := reader.takenOffsets + 1 } = reader' := by
  simp only [next_eq_ok hslot hword, remaining_eq_cons, slice?_eq_some, hfixed,
    Bool.false_eq_true, ↓reduceIte]
  have hspan (start stop : Nat) : reader.span shape = .ok (start, stop) ↔
      reader.offsets[reader.takenOffsets]? = some start ∧
        (reader.offsets.toList.drop (reader.takenOffsets + 1)).headD reader.store.size = stop := by
    simp only [span, hfixed, Bool.false_eq_true, ↓reduceIte]
    rw [List.headD_eq_head?_getD, List.head?_drop, Array.getElem?_toList]
    cases reader.offsets[reader.takenOffsets]? with
    | none => simp
    | some offset => simp
  simp only [hspan]
  apply Iff.intro
  · intro h
    obtain ⟨start, _, ⟨hget, rfl⟩, ⟨hstop, hsize, hfront⟩, rfl⟩ := h
    exact ⟨start, _, ⟨hget, rfl⟩, ⟨hstop, by omega, hfront⟩, rfl⟩
  · intro h
    obtain ⟨offset, _, ⟨hget, rfl⟩, ⟨hstop, hsize, hfront⟩, rfl⟩ := h
    exact ⟨offset, _, ⟨hget, rfl⟩, ⟨hstop, by omega, hfront⟩, rfl⟩

/-- The number of shapes of variable size. -/
def variableCount (shapes : List Shape) : Nat :=
  shapes.countP (!·.isFixed)

/-- Taking finds the slices of fixed size in their places, and the bodies between the offsets. -/
theorem takeAll_eq_ok {shapes : List Shape} (hslots : Counted shapes) {reader : Reader}
    {slices : List Bytes} (hword : reader.taken + slotSum shapes < wordLimit)
    (hroom : reader.taken + slotSum shapes ≤ reader.store.size)
    (hcount : reader.remaining.length = variableCount shapes) :
    takeAll shapes reader = .ok slices ↔
      PartsAt reader.store.toList reader.taken shapes slices ∧
        BodiesAt reader.store.toList reader.remaining (bodiesOf shapes slices) := by
  induction shapes generalizing reader slices with
  | nil =>
    have hnone : reader.remaining = [] := List.length_eq_zero_iff.mp hcount
    cases slices <;> simp [takeAll, PartsAt, bodiesOf, tagged, BodiesAt, hnone]
  | cons shape shapes ih =>
    obtain ⟨hslot, hslots⟩ := List.forall_mem_cons.mp hslots
    have hsum := slotSum_cons shape shapes
    rw [hsum] at hword hroom
    have hhead : reader.taken + shape.slotSize < wordLimit := by omega
    cases slices with
    | nil =>
      simp only [takeAll, bind_eq_ok, pure_eq_ok, reduceCtorEq, and_false, exists_false, PartsAt,
        false_and]
    | cons slice slices =>
      simp only [takeAll, bind_eq_ok, pure_eq_ok, Prod.exists, List.cons.injEq]
      cases hfixed : shape.isFixed with
      | true =>
        simp only [next_fixed_eq_ok hslot hfixed hhead (by omega), PartsAt, hfixed, true_implies,
          bodiesOf_cons_fixed hfixed]
        have hcount : reader.remaining.length = variableCount shapes := by
          simpa [variableCount, hfixed] using hcount
        have ih (slices : List Bytes) := @ih hslots
          { reader with taken := reader.taken + shape.slotSize } slices
          (by simpa only [Nat.add_assoc] using hword) (by simpa only [Nat.add_assoc] using hroom)
          hcount
        apply Iff.intro
        · intro h
          obtain ⟨_, _, ⟨hslice, rfl⟩, _, h, rfl, rfl⟩ := h
          exact ⟨⟨hslice, ((ih _).mp h).1⟩, ((ih _).mp h).2⟩
        · intro h
          obtain ⟨⟨hslice, hparts⟩, hbodies⟩ := h
          exact ⟨_, _, ⟨hslice, rfl⟩, _, (ih _).mpr ⟨hparts, hbodies⟩, rfl, rfl⟩
      | false =>
        simp only [next_variable_eq_ok hslot hfixed hhead, PartsAt, hfixed, Bool.false_eq_true,
          false_implies, true_and, bodiesOf_cons_variable hfixed]
        have hcount : reader.remaining.length = variableCount shapes + 1 := by
          simpa [variableCount, hfixed] using hcount
        obtain ⟨offset, later, hremaining⟩ := List.exists_cons_of_length_eq_add_one hcount
        have hlater : remaining { reader with
            taken := reader.taken + shape.slotSize
            takenOffsets := reader.takenOffsets + 1 } = later :=
          (remaining_eq_cons.mp hremaining).2
        have ih (slices : List Bytes) := @ih hslots
          { reader with
            taken := reader.taken + shape.slotSize
            takenOffsets := reader.takenOffsets + 1 } slices
          (by simpa only [Nat.add_assoc] using hword) (by simpa only [Nat.add_assoc] using hroom)
          (by rw [hlater]; simpa [hremaining] using hcount)
        rw [hlater] at ih
        simp only [hremaining, List.cons.injEq, BodiesAt, Array.length_toList]
        apply Iff.intro
        · intro h
          obtain ⟨_, _, ⟨_, _, ⟨rfl, rfl⟩, ⟨hnext, hsize, hfront⟩, rfl⟩, _, h, rfl, rfl⟩ := h
          exact ⟨((ih _).mp h).1, hnext, hsize, hfront, ((ih _).mp h).2⟩
        · intro h
          obtain ⟨hparts, hnext, hsize, hfront, hbodies⟩ := h
          exact ⟨_, _, ⟨_, _, ⟨rfl, rfl⟩, ⟨hnext, hsize, hfront⟩, rfl⟩, _,
            (ih _).mpr ⟨hparts, hbodies⟩, rfl, rfl⟩

/-- There is an offset for each shape of variable size. -/
theorem length_of_offsetsAt {store : Bytes} {start : Nat} {shapes : List Shape}
    {offsets : List Nat} (h : OffsetsAt store start shapes offsets) :
    offsets.length = variableCount shapes := by
  induction shapes generalizing start offsets with
  | nil => exact congrArg List.length h
  | cons shape shapes ih =>
    rw [OffsetsAt] at h
    cases hfixed : shape.isFixed with
    | true =>
      rw [if_pos hfixed] at h
      simpa [variableCount, hfixed] using ih h
    | false =>
      rw [if_neg (by simp [hfixed])] at h
      obtain ⟨offset, later, rfl, -, -, h⟩ := h
      simpa [variableCount, hfixed] using ih h

/-- Reading succeeds exactly if the offsets lie in the open places, in order, and the slices in
the others and between the offsets. -/
theorem readAll_eq_ok_iff_at {shapes : List Shape} (hslots : Counted shapes)
    (hword : slotSum shapes < wordLimit) {bytes : Bytes} {slices : List Bytes} :
    readAll shapes (slotSum shapes) bytes = .ok slices ↔
      slotSum shapes ≤ bytes.length ∧ ∃ offsets,
        Ordered (slotSum shapes) bytes.length none offsets ∧
        (OffsetsAt bytes 0 shapes offsets ∧ PartsAt bytes 0 shapes slices) ∧
        BodiesAt bytes offsets (bodiesOf shapes slices) := by
  simp only [readAll, bind_eq_ok, start_eq_ok]
  apply Iff.intro
  · intro h
    obtain ⟨_, ⟨hsize, rfl⟩, _, hregister, htake⟩ := h
    rw [registerAll_eq_ok hslots (by simpa using hword) (by simpa using hsize)] at hregister
    obtain ⟨offsets, hoffsets, hordered, rfl⟩ := hregister
    rw [takeAll_eq_ok hslots (by simpa using hword) (by simpa using hsize)
      (by simpa [remaining] using length_of_offsetsAt hoffsets)] at htake
    refine ⟨hsize, offsets, by simpa using hordered, ⟨hoffsets, htake.1⟩, ?_⟩
    simpa [remaining] using htake.2
  · intro h
    obtain ⟨hsize, offsets, hordered, ⟨hoffsets, hparts⟩, hbodies⟩ := h
    refine ⟨_, ⟨hsize, rfl⟩, _, (registerAll_eq_ok hslots (by simpa using hword)
      (by simpa using hsize)).mpr ⟨offsets, hoffsets, by simpa using hordered, rfl⟩, ?_⟩
    rw [takeAll_eq_ok hslots (by simpa using hword) (by simpa using hsize)
      (by simpa [remaining] using length_of_offsetsAt hoffsets)]
    exact ⟨hparts, by simpa [remaining] using hbodies⟩

/-- Reading the parts of a container undoes joining them, and nothing else can be read. If all
parts are of fixed size, nothing may follow them. -/
theorem readAll_eq_ok {shapes : List Shape} (hslots : Counted shapes)
    (hword : slotSum shapes < wordLimit) {bytes : Bytes} {slices : List Bytes}
    (hfixed : (∀ shape ∈ shapes, shape.isFixed = true) → bytes.length = slotSum shapes) :
    readAll shapes (slotSum shapes) bytes = .ok slices ↔
      Sized shapes slices ∧
        joinItems (partsOf shapes slices) (bodiesOf shapes slices) = .ok bytes := by
  rw [readAll_eq_ok_iff_at hslots hword]
  apply Iff.intro
  · intro h
    obtain ⟨hsize, offsets, hordered, hat, hbodies⟩ := h
    rw [offsetsAt_and_partsAt_iff, List.drop_zero] at hat
    obtain ⟨hsized, hcount, hlt, hhead⟩ := hat
    have hparts := headSize_partsOf hsized
    refine ⟨hsized, ?_⟩
    rw [joinItems_eq_ok (openCount_partsOf shapes slices), hparts]
    cases offsets with
    | nil =>
      have hnone : bodiesOf shapes slices = [] := List.length_eq_zero_iff.mp hcount.symm
      have hlength := hfixed (all_fixed_of_bodiesOf hsized.length_eq hnone)
      rw [hnone, runningOffsets, List.flatten_nil, List.append_nil]
      refine ⟨by simp, hhead.eq_of_length ?_⟩
      rw [length_fillHead, hparts, hlength]
    | cons offset later =>
      obtain ⟨hoffsets, hflat⟩ := hbodies.eq_runningOffsets
      obtain rfl : offset = slotSum shapes := hordered.1
      rw [← hoffsets]
      refine ⟨hlt, ?_⟩
      rw [append_eq_iff, length_fillHead, hparts]
      exact ⟨hhead, hflat⟩
  · intro h
    obtain ⟨hsized, hjoin⟩ := h
    obtain ⟨hlength, hat, hbodies⟩ := at_of_joinItems hsized hjoin
    exact ⟨by omega, _, ordered_runningOffsets (by omega), hat, hbodies⟩

end Reader

end BeaconSsz

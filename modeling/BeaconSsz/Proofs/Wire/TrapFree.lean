import BeaconSsz.Proofs.Wire.RoundTrip

/-!
# Reading never traps

Under a sound shape, bytes of any content are read or refused: every position that is computed is
a word, every slice is taken between positions in order, and nothing is divided by zero. Sound
sizes keep the walk over the fixed part in range, and every offset that a slice is taken at was
checked before.

Strings shorter than `2 ^ 61` bytes have a number of bits that is a word. What is read at a deeper
level is a slice of the bytes, and so it is not longer than these.
-/

namespace BeaconSsz

open Stop (TrapFree)

/-- Bytes up to this length have a number of bits that is a word. -/
def readableLength : Nat := 0x2000000000000000

/-- A wrong length is refused. -/
@[simp] theorem trapFree_checkByteLength {bytes : Bytes} {expected : Nat} :
    TrapFree (checkByteLength bytes expected) := by
  unfold checkByteLength
  split <;> simp

/-- A byte that is no boolean is refused. -/
theorem trapFree_decodeBoolean (bytes : Bytes) : TrapFree (decodeBoolean bytes) := by
  refine trapFree_checkByteLength.bind fun _ hlength => ?_
  obtain ⟨byte, rfl⟩ := List.length_eq_one_iff.mp (checkByteLength_eq_ok.mp hlength)
  split
  · exact Stop.trapFree_pure
  · exact Stop.trapFree_pure
  · exact Stop.trapFree_fail
  · next heq => simp at heq

/-- An integer of a usual width is not too wide. -/
theorem trapFree_decodeUint {width : UInt64} (hwidth : width ∈ uintWidths) (bytes : Bytes) :
    TrapFree (decodeUint bytes width) := by
  refine trapFree_checkByteLength.bind fun _ hlength => ?_
  have hmax := (toNat_of_mem_uintWidths hwidth).2
  rw [if_neg (by rw [checkByteLength_eq_ok.mp hlength]; omega)]
  exact Stop.trapFree_pure

/-- A bit string of given length has a last byte if its bits do not fill whole bytes, and it has as
many bits as are unpacked. -/
theorem trapFree_decodeBitvector {length : Nat} (hlength : length + 7 < wordLimit)
    (bytes : Bytes) : TrapFree (decodeBitvector bytes length) := by
  unfold decodeBitvector
  rw [bytesForBits_eq hlength]
  refine trapFree_checkByteLength.bind fun _ hbytes => ?_
  rw [checkByteLength_eq_ok] at hbytes
  have hunpack : TrapFree (Stop.orTrap (Bits.unpack bytes length) : Decoding (List Bool)) :=
    Stop.trapFree_orTrap (Bits.unpack_eq_ok.mpr ⟨by omega, rfl⟩)
  dsimp only
  split
  · exact hunpack
  · split
    · split
      · exact hunpack
      · exact Stop.trapFree_fail
    · next hused hnone =>
      rw [List.getLast?_eq_none_iff.mp hnone, List.length_nil] at hbytes
      omega

/-- The bits in front of the delimiter are a word in number, and they are there. -/
theorem trapFree_decodeBitlist {bytes : Bytes} (hbytes : bytes.length < readableLength)
    (limit : Nat) : TrapFree (decodeBitlist bytes limit) := by
  have hreadable : readableLength * 8 = wordLimit := rfl
  unfold decodeBitlist
  split
  · exact Stop.trapFree_fail
  · next last hlast =>
    split
    · exact Stop.trapFree_fail
    have hplace : last.toNat.log2 ≤ 7 := by
      by_cases hzero : last.toNat = 0
      · simp [hzero]
      · exact Nat.le_of_lt_succ ((Nat.log2_lt hzero).mpr last.toNat_lt)
    have hpos : 0 < bytes.length :=
      List.length_pos_iff.mpr fun h => by simp [h] at hlast
    refine (Stop.trapFree_mul (by omega)).bind fun whole hwhole => ?_
    obtain ⟨-, rfl⟩ := Word.mul_eq_ok.mp (Stop.orTrap_eq_ok.mp hwhole)
    refine (Stop.trapFree_add (by omega)).bind fun length hlength => ?_
    obtain ⟨-, rfl⟩ := Word.add_eq_ok.mp (Stop.orTrap_eq_ok.mp hlength)
    split
    · exact Stop.trapFree_fail
    · exact Stop.trapFree_orTrap (Bits.unpack_eq_ok.mpr ⟨by omega, rfl⟩)

/-- Elements that have bytes can be cut. -/
theorem trapFree_cutElements {length : Nat} (hlength : 0 < length) (bytes : Bytes) (limit : Nat) :
    TrapFree (cutElements bytes length limit) := by
  unfold cutElements
  rw [if_neg (by omega)]
  split
  · exact Stop.trapFree_fail
  · dsimp only
    split
    · exact Stop.trapFree_fail
    · exact Stop.trapFree_pure

/-- An offset at a position whose end is a word is read or refused. -/
theorem trapFree_readOffset {position : Nat} (h : position + offsetLength < wordLimit)
    (store : Array UInt8) : TrapFree (readOffset store position) := by
  refine (Stop.trapFree_add h).bind fun stop _ => ?_
  split
  · unfold decodeOffset
    split <;> simp
  · exact Stop.trapFree_fail

/-- An offset out of order is refused. -/
theorem trapFree_checkOffset (offset previous length : Nat) :
    TrapFree (checkOffset offset previous length) := by
  unfold checkOffset
  split_ifs <;> simp

/-- Every slice of a sequence is taken between an offset and a later one that was checked. -/
theorem trapFree_splitFrom {store : Array UInt8} {count position previous : Nat}
    (hprevious : previous ≤ store.size) (hposition : (position + count) * offsetLength < wordLimit)
    (items : List Bytes) : TrapFree (splitFrom store count position previous items) := by
  induction count generalizing position previous items with
  | zero => exact Stop.trapFree_ok
  | succ count ih =>
    have hnext : (position + 1) * offsetLength ≤ (position + (count + 1)) * offsetLength :=
      Nat.mul_le_mul_right _ (by omega)
    have hfour : (position + 1) * offsetLength = position * offsetLength + offsetLength := by ring
    have hrest (next : Nat) (hlow : previous ≤ next) (hhigh : next ≤ store.size) :
        TrapFree (do
          let item ← Stop.orTrap (slice store previous next)
          splitFrom store count (position + 1) next (item :: items)) := by
      rw [slice, if_neg (by omega), if_neg (by omega)]
      exact ih hhigh (by rwa [Nat.add_assoc, Nat.add_comm 1 count]) _
    rw [splitFrom]
    split
    · exact hrest store.size hprevious le_rfl
    · refine TrapFree.bind
        (TrapFree.within ((Stop.trapFree_mul (by omega)).bind fun start hstart => ?_))
        fun next hstop => ?_
      · obtain ⟨-, rfl⟩ := Word.mul_eq_ok.mp (Stop.orTrap_eq_ok.mp hstart)
        exact (trapFree_readOffset (by omega) _).bind fun _ _ => trapFree_checkOffset _ _ _
      · simp only [Decoding.within_eq_ok, bind_eq_ok, checkOffset_eq_ok] at hstop
        obtain ⟨_, -, _, -, hlow, hhigh, rfl⟩ := hstop
        exact hrest _ hlow hhigh

/-- A sequence of items of variable size is split or refused. -/
theorem trapFree_splitItems (bytes : Bytes) (limit : Nat) : TrapFree (splitItems bytes limit) := by
  have hlimits : offsetLimit + offsetLength < wordLimit := by decide
  unfold splitItems
  split
  · exact Stop.trapFree_pure
  · refine (trapFree_readOffset (by decide) _).bind fun first hfirst => ?_
    obtain ⟨-, -, hlt, -⟩ := readOffset_eq_ok.mp hfirst
    split
    · exact Stop.trapFree_fail
    split
    · exact Stop.trapFree_fail
    dsimp only
    split
    · exact Stop.trapFree_fail
    · refine trapFree_splitFrom (by omega) ?_ []
      have : first / offsetLength * offsetLength ≤ first := Nat.div_mul_le_self _ _
      rw [Nat.add_mul, Nat.one_mul]
      omega

namespace Reader

variable {reader : Reader} {shape : Shape}

/-- A part is registered or refused if the end of its slot is a word. -/
theorem trapFree_register (hslot : shape.slotLength = .ok shape.slotSize)
    (hword : reader.registered + shape.slotSize < wordLimit) :
    TrapFree (reader.register shape) := by
  have hpass (next : Reader) (h : next.registered = reader.registered) :
      TrapFree (do
        let length ← Stop.orTrap shape.slotLength
        let registered ← Stop.orTrap (Word.add next.registered length)
        return { next with registered } : Decoding Reader) := by
    rw [hslot]
    exact (Stop.trapFree_add (by rwa [h])).bind fun _ _ => Stop.trapFree_pure
  unfold register
  split
  · exact hpass reader rfl
  · next hvariable =>
    have hfour := Shape.slotSize_of_variable (by simpa using hvariable)
    refine TrapFree.bind ?_ fun next hnext => hpass next ?_
    · unfold registerOffset
      refine (trapFree_readOffset (by omega) _).bind fun offset _ => ?_
      split
      · split
        · exact Stop.trapFree_pure
        · exact Stop.trapFree_fail
      · exact (trapFree_checkOffset _ _ _).bind fun _ _ => Stop.trapFree_pure
    · obtain ⟨offset, -, -, rfl⟩ := registerOffset_eq_ok.mp hnext
      rfl

/-- Registering a part passes over its slot. -/
theorem registered_of_register {reader' : Reader}
    (hslot : shape.slotLength = .ok shape.slotSize)
    (hword : reader.registered + shape.slotSize < wordLimit)
    (h : reader.register shape = .ok reader') :
    reader'.registered = reader.registered + shape.slotSize := by
  cases hfixed : shape.isFixed with
  | true =>
    obtain rfl := (register_fixed_eq_ok hslot hfixed hword).mp h
    rfl
  | false =>
    obtain ⟨offset, -, -, rfl⟩ := (register_variable_eq_ok hslot hfixed hword).mp h
    rfl

/-- The bytes of a part are taken or refused if the end of its slot is a word. -/
theorem trapFree_next (hslot : shape.slotLength = .ok shape.slotSize)
    (hword : reader.taken + shape.slotSize < wordLimit) : TrapFree (reader.next shape) := by
  unfold next
  refine TrapFree.bind ?_ fun (start, stop) _ => ?_
  · unfold span
    rw [hslot]
    split
    · exact (Stop.trapFree_add hword).bind fun _ _ => Stop.trapFree_pure
    · split <;> simp
  · dsimp only
    rw [hslot]
    split
    · exact (Stop.trapFree_add hword).bind fun _ _ => Stop.trapFree_pure
    · exact Stop.trapFree_fail

/-- What is taken lies in the store, which stays as it is, and the slot is passed over. -/
theorem taken_of_next {reader' : Reader} {slice : Bytes}
    (hslot : shape.slotLength = .ok shape.slotSize)
    (hword : reader.taken + shape.slotSize < wordLimit)
    (h : reader.next shape = .ok (slice, reader')) :
    slice.length ≤ reader.store.size ∧ reader'.store = reader.store ∧
      reader'.taken = reader.taken + shape.slotSize := by
  obtain ⟨start, stop, -, hslice, rfl⟩ := (next_eq_ok hslot hword).mp h
  obtain ⟨hlength, hstop, -⟩ := slice?_eq_some.mp hslice
  exact ⟨by omega, rfl, rfl⟩

end Reader

/-- Fields are registered or refused if the end of their slots is a word. -/
theorem Field.trapFree_registerAll {fields : List Field} (hSound : AllSound fields)
    {reader : Reader} (hword : reader.registered + slotSum fields < wordLimit) :
    TrapFree (registerAll fields reader) := by
  induction fields generalizing reader with
  | nil => exact Stop.trapFree_ok
  | cons field fields ih =>
    obtain ⟨name, shape⟩ := field
    obtain ⟨hShape, hFields⟩ := hSound
    have hslot := Shape.slotLength_eq hShape
    rw [slotSum_cons] at hword
    refine (Reader.trapFree_register hslot (by omega)).within.bind fun next hnext => ?_
    have := Reader.registered_of_register hslot (by omega) (Decoding.within_eq_ok.mp hnext)
    exact ih hFields (by omega)

namespace Shape

variable {element : Shape} {items : List Bytes} {bytes : Bytes} {limit : Nat}

/-- The items of joined elements are not longer than the bytes. -/
theorem length_le_of_joins (h : element.Joins items bytes) :
    ∀ item ∈ items, item.length ≤ bytes.length := by
  intro item hitem
  have hflat := (List.sublist_flatten_of_mem hitem).length_le
  obtain ⟨-, hjoin⟩ := h
  cases hFixed : element.isFixed with
  | true =>
    rw [hFixed, joinElements_fixed, Except.ok.injEq] at hjoin
    exact hjoin ▸ hflat
  | false =>
    rw [hFixed, joinElements_variable] at hjoin
    obtain ⟨-, rfl⟩ := (joinItems_eq_ok (openCount_open items)).mp hjoin
    rw [List.length_append]
    omega

/-- Elements of fixed size that are cut apart make up the bytes. -/
theorem joins_of_cutElements (hSound : element.Sound) (hFixed : element.isFixed = true)
    (h : cutElements bytes element.slotSize limit = .ok items) : element.Joins items bytes := by
  obtain ⟨-, hfull, hflat⟩ := (cutElements_eq_ok (slotSize_pos hSound)).mp h
  refine ⟨fun _ => hfull, ?_⟩
  rw [hFixed, joinElements_fixed, hflat]

/-- Elements of variable size that are split apart make up the bytes. -/
theorem joins_of_splitItems (hVariable : ¬element.isFixed = true)
    (h : splitItems bytes limit = .ok items) : element.Joins items bytes := by
  obtain ⟨-, hjoin⟩ := splitItems_eq_ok.mp h
  refine ⟨fun hFixed => absurd hFixed hVariable, ?_⟩
  rw [Bool.eq_false_iff.mpr hVariable, joinElements_variable, hjoin]

/-- Elements are read or refused if every string that is not longer than all of them is. -/
theorem trapFree_mapElements
    (ih : ∀ item : Bytes, item.length ≤ bytes.length → TrapFree (element.decode item))
    (hitems : element.Joins items bytes) :
    TrapFree (do
      let elements ← Decoding.mapElements element.decode items
      return .sequence elements : Decoding Value) := by
  have hlength := length_le_of_joins hitems
  exact (TrapFree.mapElements fun item hitem => ih item (hlength item hitem)).bind fun _ _ =>
    Stop.trapFree_pure

end Shape

mutual

/-- Bytes are read or refused under a sound shape. -/
theorem Shape.trapFree_decode : {shape : Shape} → shape.Sound → {bytes : Bytes} →
    bytes.length < readableLength → TrapFree (shape.decode bytes)
  | .boolean, _, _, _ => by
    rw [Shape.decode]
    exact (trapFree_decodeBoolean _).bind fun _ _ => Stop.trapFree_pure
  | .uint _, hSound, _, _ => by
    rw [Shape.decode]
    exact trapFree_decodeUint hSound _
  | .byteVector _, _, _, _ => by
    rw [Shape.decode]
    exact trapFree_checkByteLength.bind fun _ _ => Stop.trapFree_pure
  | .byteList _, _, _, _ => by
    rw [Shape.decode]
    split
    · exact Stop.trapFree_fail
    · exact Stop.trapFree_ok
  | .bitvector _, hSound, _, _ => by
    rw [Shape.decode]
    exact (trapFree_decodeBitvector hSound.2 _).bind fun _ _ => Stop.trapFree_pure
  | .bitlist _, _, _, hbytes => by
    rw [Shape.decode]
    exact (trapFree_decodeBitlist hbytes _).bind fun _ _ => Stop.trapFree_pure
  | .vector element _, hSound, bytes, hbytes => by
    have hElement : element.Sound := hSound.2.1
    have ih (item : Bytes) (h : item.length ≤ bytes.length) : TrapFree (element.decode item) :=
      Shape.trapFree_decode hElement (h.trans_lt hbytes)
    rw [Shape.decode]
    split
    · next hFixed =>
      rw [Shape.slotLength_eq hElement]
      refine trapFree_checkByteLength.bind fun _ _ => ?_
      refine (trapFree_cutElements (Shape.slotSize_pos hElement) _ _).bind fun items h => ?_
      exact Shape.trapFree_mapElements ih (Shape.joins_of_cutElements hElement hFixed h)
    · next hVariable =>
      refine (trapFree_splitItems _ _).bind fun items h => ?_
      split
      · exact Shape.trapFree_mapElements ih (Shape.joins_of_splitItems hVariable h)
      · exact Stop.trapFree_fail
  | .list element _, hSound, bytes, hbytes => by
    have hElement : element.Sound := hSound.1
    have ih (item : Bytes) (h : item.length ≤ bytes.length) : TrapFree (element.decode item) :=
      Shape.trapFree_decode hElement (h.trans_lt hbytes)
    rw [Shape.decode]
    split
    · next hFixed =>
      rw [Shape.slotLength_eq hElement]
      refine (trapFree_cutElements (Shape.slotSize_pos hElement) _ _).bind fun items h => ?_
      exact Shape.trapFree_mapElements ih (Shape.joins_of_cutElements hElement hFixed h)
    · next hVariable =>
      refine (trapFree_splitItems _ _).bind fun items h => ?_
      exact Shape.trapFree_mapElements ih (Shape.joins_of_splitItems hVariable h)
  | .container schema, hSound, _, hbytes => by
    rw [Shape.decode_container]
    exact Schema.trapFree_decodeFields hSound hbytes

/-- Bytes are read or refused under a sound schema. -/
theorem Schema.trapFree_decodeFields : {schema : Schema} → schema.Sound → {bytes : Bytes} →
    bytes.length < readableLength → TrapFree (schema.decodeFields bytes)
  | ⟨_, fields, fixedPart, isFixed, _⟩, ⟨_, _, hFields, hPart, hWord, _⟩, bytes, hbytes => by
    have hrest : TrapFree (do
        let reader ← Reader.start bytes fixedPart
        let reader ← Field.registerAll fields reader
        let values ← Field.decodeAll fields reader
        return .container values : Decoding Value) := by
      refine TrapFree.bind ?_ fun start hstart => ?_
      · unfold Reader.start
        dsimp only
        split <;> simp
      obtain ⟨hsize, rfl⟩ := Reader.start_eq_ok.mp hstart
      have hsum : 0 + Field.slotSum fields < wordLimit := by omega
      refine (Field.trapFree_registerAll hFields hsum).bind fun reader hreader => ?_
      rw [Field.registerAll_eq_ok, Reader.registerAll_eq_ok (Field.counted_shapes hFields)
        (by rw [Field.slotSum_shapes]; exact hsum)
        (by
          rw [Field.slotSum_shapes, List.size_toArray]
          exact (by omega : 0 + Field.slotSum fields ≤ bytes.length))] at hreader
      obtain ⟨offsets, -, -, rfl⟩ := hreader
      exact (Field.trapFree_decodeAll hFields (by simpa using hbytes) hsum).bind fun _ _ =>
        Stop.trapFree_pure
    rw [Schema.decodeFields]
    cases isFixed with
    | true => exact trapFree_checkByteLength.bind fun _ _ => hrest
    | false => exact hrest

/-- Fields are read or refused if the end of their slots is a word. -/
theorem Field.trapFree_decodeAll : {fields : List Field} → Field.AllSound fields →
    {reader : Reader} → reader.store.size < readableLength →
    reader.taken + Field.slotSum fields < wordLimit → TrapFree (Field.decodeAll fields reader)
  | [], _, _, _, _ => by
    rw [Field.decodeAll]
    exact Stop.trapFree_ok
  | ⟨name, shape⟩ :: fields, ⟨hShape, hFields⟩, reader, hstore, hword => by
    have hslot := Shape.slotLength_eq hShape
    rw [Field.slotSum_cons] at hword
    rw [Field.decodeAll]
    refine TrapFree.bind (TrapFree.within ?_) fun (value, next) hvalue => ?_
    · refine (Reader.trapFree_next hslot (by omega)).bind fun (slice, next) hnext => ?_
      obtain ⟨hlength, -, -⟩ := Reader.taken_of_next hslot (by omega) hnext
      exact (Shape.trapFree_decode hShape (by omega)).bind fun _ _ => Stop.trapFree_pure
    · simp only [Decoding.within_eq_ok, bind_eq_ok, pure_eq_ok, Prod.exists,
        Prod.mk.injEq] at hvalue
      obtain ⟨slice, _, hnext, _, -, rfl, rfl⟩ := hvalue
      obtain ⟨-, hsame, htaken⟩ := Reader.taken_of_next hslot (by omega) hnext
      exact (Field.trapFree_decodeAll hFields (hsame ▸ hstore) (by omega)).bind fun _ _ =>
        Stop.trapFree_pure

end

/-- Reading through a drawn-up schema ends with a value or a refusal, whatever the bytes are. -/
theorem Schema.trapFree_deserialize {schema : Schema} (hDrawn : schema.Drawn) {bytes : Bytes}
    (hbytes : bytes.length < 2 ^ 61) :
    (∃ value, schema.deserialize bytes = .ok value) ∨
      ∃ error, schema.deserialize bytes = .error (.refused error) := by
  have h : TrapFree (schema.deserialize bytes) :=
    (Schema.trapFree_decodeFields (Schema.sound_of_drawn hDrawn) hbytes).within
  exact h.ok_or_refused

/-- Bytes whose second offset lies in front of the first are refused or read, as all others. -/
theorem Schema.trapFree_deserialize_reversed :
    (∃ value, outerExample.deserialize [1, 12, 0, 0, 0, 3, 0, 0, 0, 2, 1, 3] = .ok value) ∨
      ∃ error, outerExample.deserialize [1, 12, 0, 0, 0, 3, 0, 0, 0, 2, 1, 3] =
        .error (.refused error) :=
  Schema.trapFree_deserialize outerExample_drawn (by decide)

end BeaconSsz

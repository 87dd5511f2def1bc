import BeaconSsz.Root
import BeaconSsz.Proofs.Hash.Packing
import BeaconSsz.Proofs.Hash.Padded
import BeaconSsz.Proofs.Wire.Fit

/-!
# The plain definition of roots

The reference for the root of a value follows the shape with nothing precomputed: basic values and
strings are packed by place, the elements of other sequences and the fields of containers are one
leaf each, and every tree is padded in full and hashed from the bottom up.

The computed root agrees with it wherever the number of chunks of a capacity can be computed. The
one step of that computation that leaves the words is the sum of a capacity and the size of a
chunk, before one is taken off. Schemas are drawn up with room for the rounded capacity only, which
is one less, so the greatest capacities of byte lists, bit lists and lists of basic values pass and
then trap.
-/

namespace BeaconSsz

/-- The bytes of a basic value. -/
def basicDigits : Shape → Value → Bytes
  | .boolean, .boolean b => [if b then 1 else 0]
  | .uint width, .uint n => digits width.toNat n.toNat
  | .uint width, .big n => digits width.toNat n.toNat
  | _, _ => []

mutual

/-- The root of a value that fits its shape, by the plain definition. -/
def Shape.plainRoot (combine : Chunk → Chunk → Chunk) : Shape → Value → Chunk
  | .boolean, value => paddedRoot combine (chunksOf (basicDigits .boolean value)) 1
  | .uint width, value => paddedRoot combine (chunksOf (basicDigits (.uint width) value)) 1
  | .byteVector length, .bytes content =>
    paddedRoot combine (chunksOf content) (length.toNat ⌈/⌉ 32)
  | .byteList limit, .bytes content =>
    combine (paddedRoot combine (chunksOf content) (limit.toNat ⌈/⌉ 32))
      (lengthChunk content.length)
  | .bitvector length, .bits content =>
    paddedRoot combine (chunksOf (bitBytes content)) (length.toNat ⌈/⌉ 256)
  | .bitlist limit, .bits content =>
    combine (paddedRoot combine (chunksOf (bitBytes content)) (limit.toNat ⌈/⌉ 256))
      (lengthChunk content.length)
  | .vector element length, .sequence elements =>
    if element.isBasic then
      paddedRoot combine (chunksOf (elements.flatMap (basicDigits element)))
        (length.toNat * element.slotSize ⌈/⌉ 32)
    else paddedRoot combine (elements.map (element.plainRoot combine)) length.toNat
  | .list element limit, .sequence elements =>
    combine
      (if element.isBasic then
        paddedRoot combine (chunksOf (elements.flatMap (basicDigits element)))
          (limit.toNat * element.slotSize ⌈/⌉ 32)
      else paddedRoot combine (elements.map (element.plainRoot combine)) limit.toNat)
      (lengthChunk elements.length)
  | .container schema, value => schema.plainRoot combine value
  | _, _ => Chunk.zero

/-- The root of a container that fits its schema, by the plain definition. -/
def Schema.plainRoot (combine : Chunk → Chunk → Chunk) : Schema → Value → Chunk
  | ⟨_, fields, _, _, _⟩, .container values =>
    paddedRoot combine (Field.plainRoots combine fields values) fields.length
  | _, _ => Chunk.zero

/-- The roots of the fields of a container, by the plain definition. -/
def Field.plainRoots (combine : Chunk → Chunk → Chunk) : List Field → List Value → List Chunk
  | ⟨_, shape⟩ :: fields, value :: values =>
    shape.plainRoot combine value :: Field.plainRoots combine fields values
  | _, _ => []

end

mutual

/-- The value reaches a shape whose capacity and one chunk more are no word together. -/
def Shape.overruns : Shape → Value → Bool
  | .byteList limit, _ => wordLimit ≤ limit.toNat + 32
  | .bitlist limit, _ => wordLimit ≤ limit.toNat + 256
  | .vector element _, .sequence elements => elements.any element.overruns
  | .list element limit, .sequence elements =>
    if element.isBasic then wordLimit ≤ limit.toNat * element.slotSize + 32
    else elements.any element.overruns
  | .container schema, value => schema.overruns value
  | .boolean, _ | .uint _, _ | .byteVector _, _ | .bitvector _, _ => false
  | .vector _ _, _ | .list _ _, _ => false

/-- The container reaches such a shape. -/
def Schema.overruns : Schema → Value → Bool
  | ⟨_, fields, _, _, _⟩, .container values => Field.anyOverruns fields values
  | _, _ => false

/-- A field reaches such a shape. -/
def Field.anyOverruns : List Field → List Value → Bool
  | ⟨_, shape⟩ :: fields, value :: values =>
    shape.overruns value || Field.anyOverruns fields values
  | _, _ => false

end

mutual

/-- All strings in the value are shorter than `2 ^ 63`, and all sequences than `2 ^ 58`. -/
def Value.Storable : Value → Prop
  | .bytes content => content.length < 2 ^ 63
  | .bits content => content.length < 2 ^ 63
  | .sequence elements => elements.length < 2 ^ 58 ∧ Value.AllStorable elements
  | .container fields => Value.AllStorable fields
  | _ => True

/-- So they are in all the values. -/
def Value.AllStorable : List Value → Prop
  | [] => True
  | value :: values => value.Storable ∧ Value.AllStorable values

end

/-- An answer, unless a capacity overruns the words. -/
def unlessOverrun {α : Type} (overruns : Bool) (answer : α) : Except Trap α :=
  if overruns then .error .addOverflow else .ok answer

section Overrun

variable {α β : Type}

/-- A step behind an answer is not reached by an overrun. -/
theorem unlessOverrun_bind (overruns : Bool) (answer : α) (f : α → Except Trap β) :
    unlessOverrun overruns answer >>= f =
      if overruns then .error .addOverflow else f answer := by
  cases overruns <;> rfl

/-- Going through a list overruns if an element does. -/
theorem mapM_eq_unlessOverrun {f : α → Except Trap β} {overruns : α → Bool} {g : α → β}
    {xs : List α} (h : ∀ x ∈ xs, f x = unlessOverrun (overruns x) (g x)) :
    xs.mapM f = unlessOverrun (xs.any overruns) (xs.map g) := by
  induction xs with
  | nil => rfl
  | cons x xs ih =>
    rw [List.forall_mem_cons] at h
    rw [List.mapM_cons, h.1, ih h.2, unlessOverrun_bind, unlessOverrun_bind, List.any_cons,
      List.map_cons]
    cases overruns x <;> cases xs.any overruns <;> rfl

end Overrun

/-- Capacities are rounded up to chunks, unless one chunk more is no word. -/
theorem chunkCount_eq (length perChunk : Nat) :
    chunkCount length perChunk =
      unlessOverrun (wordLimit ≤ length + perChunk) (length ⌈/⌉ perChunk) := by
  unfold chunkCount unlessOverrun Word.add
  by_cases h : length + perChunk < wordLimit
  · rw [if_pos h, if_neg (by simpa using h), Nat.ceilDiv_eq_add_pred_div]
    rfl
  · rw [if_neg h, if_pos (by simpa using h)]
    rfl

/-- Packed bytes have the root of the padded tree of their chunks, unless the capacity overruns. -/
theorem packedRoot_eq (H : TreeHash) {bytes : Bytes} {length perChunk : Nat}
    (hword : length ⌈/⌉ perChunk < wordLimit)
    (hroom : bytes.length ⌈/⌉ 32 ≤ length ⌈/⌉ perChunk) :
    packedRoot H bytes length perChunk =
      unlessOverrun (wordLimit ≤ length + perChunk)
        (paddedRoot H.combine (chunksOf bytes) (length ⌈/⌉ perChunk)) := by
  have hchunks : (chunksOf bytes).length ≤ max (length ⌈/⌉ perChunk) 1 := by
    rw [length_chunksOf]
    omega
  rw [packedRoot, chunkCount_eq, unlessOverrun_bind, pack_eq_chunksOf,
    merkleize_eq_ok H hword hchunks]
  rfl

/-- A value that fits a basic shape has the bytes of its digits, as many as its slot has. -/
theorem basicBytes_eq_ok : {shape : Shape} → shape.Sound → shape.isBasic = true →
    {value : Value} → shape.Fits value →
    basicBytes shape value = .ok (basicDigits shape value) ∧
      (basicDigits shape value).length = shape.slotSize
  | .boolean, _, _, value, hFits => by
    cases value with
    | boolean b => exact ⟨rfl, rfl⟩
    | _ => exact hFits.elim
  | .uint width, hSound, _, value, hFits => by
    have hmax := (toNat_of_mem_uintWidths hSound).2
    have hlength (n : Nat) : (digits width.toNat n).length = width.toNat := by simp [digits]
    cases value with
    | uint n =>
      obtain ⟨hnarrow, hn⟩ := hFits
      have hcheck := (checkUint_eq_ok hmax (n.toNat_lt.trans_le (by decide))).mpr hn
      refine ⟨?_, hlength _⟩
      rw [basicBytes, Shape.encode, if_pos hnarrow, hcheck, basicDigits, ← littleEndian_eq_digits]
      rfl
    | big n =>
      obtain ⟨hwide, hn⟩ := hFits
      have hcheck := (checkUint_eq_ok hmax (n.isLt.trans_le (by decide))).mpr hn
      refine ⟨?_, hlength _⟩
      rw [basicBytes, Shape.encode, if_pos hwide, hcheck, basicDigits, ← littleEndian_eq_digits]
      rfl
    | _ => exact hFits.elim

/-- A basic value is one chunk. -/
theorem root_basic (H : TreeHash) {shape : Shape} (hSound : shape.Sound)
    (hBasic : shape.isBasic = true) {value : Value} (hFits : shape.Fits value) :
    (do let bytes ← basicBytes shape value
        merkleize H (Chunk.pack bytes) 1) =
      .ok (paddedRoot H.combine (chunksOf (basicDigits shape value)) 1) := by
  obtain ⟨hbytes, hlength⟩ := basicBytes_eq_ok hSound hBasic hFits
  have hsize : shape.slotSize ≤ 32 := Shape.slotSize_le_of_isBasic hSound hBasic
  rw [hbytes]
  change merkleize H (Chunk.pack (basicDigits shape value)) 1 = _
  rw [pack_eq_chunksOf]
  refine merkleize_eq_ok H (by decide) ?_
  rw [length_chunksOf, hlength, Nat.ceilDiv_eq_add_pred_div]
  omega

/-- The digits of every basic value fill a slot. -/
theorem length_of_mem_map_basicDigits {element : Shape} (hSound : element.Sound)
    (hBasic : element.isBasic = true) {elements : List Value}
    (hFits : ∀ value ∈ elements, element.Fits value) :
    ∀ item ∈ elements.map (basicDigits element), item.length = element.slotSize := by
  rw [List.forall_mem_map]
  exact fun value hvalue => (basicBytes_eq_ok hSound hBasic (hFits value hvalue)).2

/-- The digits of basic values one after the other fill a slot for each value. -/
theorem length_flatMap_basicDigits {element : Shape} (hSound : element.Sound)
    (hBasic : element.isBasic = true) {elements : List Value}
    (hFits : ∀ value ∈ elements, element.Fits value) :
    (elements.flatMap (basicDigits element)).length = elements.length * element.slotSize := by
  have hfull := length_of_mem_map_basicDigits hSound hBasic hFits
  rw [List.flatMap, Bytes.length_flatten_of_full hfull, List.length_map]

/-- A sequence of basic values is packed digit by digit. -/
theorem basicSequenceRoot_eq_packedRoot (H : TreeHash) {element : Shape} (hSound : element.Sound)
    (hBasic : element.isBasic = true) {elements : List Value}
    (hFits : ∀ value ∈ elements, element.Fits value) {capacity : Nat}
    (hword : capacity * element.slotSize < wordLimit) :
    basicSequenceRoot H element elements capacity =
      packedRoot H (elements.flatMap (basicDigits element)) (capacity * element.slotSize)
        bytesPerChunk := by
  have hbytes : elements.mapM (basicBytes element) = .ok (elements.map (basicDigits element)) := by
    rw [mapM_eq_ok, List.forall₂_map_right_iff, List.forall₂_same]
    exact fun value hvalue => (basicBytes_eq_ok hSound hBasic (hFits value hvalue)).1
  rw [basicSequenceRoot, hbytes, Shape.slotLength_eq hSound]
  change (Word.mul capacity element.slotSize >>= fun length =>
    packedRoot H (elements.flatMap (basicDigits element)) length bytesPerChunk) = _
  rw [Word.mul, if_pos hword]
  rfl

/-- A sequence of basic values has the root of the padded tree of its packed values, unless the
capacity overruns. -/
theorem basicSequenceRoot_eq (H : TreeHash) {element : Shape} (hSound : element.Sound)
    (hBasic : element.isBasic = true) {elements : List Value}
    (hFits : ∀ value ∈ elements, element.Fits value) {capacity : Nat}
    (hword : capacity * element.slotSize < wordLimit) (hroom : elements.length ≤ capacity) :
    basicSequenceRoot H element elements capacity =
      unlessOverrun (wordLimit ≤ capacity * element.slotSize + 32)
        (paddedRoot H.combine (chunksOf (elements.flatMap (basicDigits element)))
          (capacity * element.slotSize ⌈/⌉ 32)) := by
  have hlength := length_flatMap_basicDigits hSound hBasic hFits
  have hle := Nat.mul_le_mul_right element.slotSize hroom
  rw [basicSequenceRoot_eq_packedRoot H hSound hBasic hFits hword]
  refine packedRoot_eq H ?_ ?_
  · rw [Nat.ceilDiv_eq_add_pred_div]
    exact (by omega : (capacity * element.slotSize + 32 - 1) / 32 < wordLimit)
  · rw [hlength, bytesPerChunk, Nat.ceilDiv_eq_add_pred_div, Nat.ceilDiv_eq_add_pred_div]
    omega

/-- All values in a storable list are. -/
theorem Value.storable_of_mem {values : List Value} (h : Value.AllStorable values) :
    ∀ value ∈ values, value.Storable := by
  induction values with
  | nil => simp
  | cons value values ih => exact List.forall_mem_cons.mpr ⟨h.1, ih h.2⟩

/-- There is one root for each field. -/
theorem Field.length_plainRoots (combine : Chunk → Chunk → Chunk) {fields : List Field}
    {values : List Value} (h : values.length = fields.length) :
    (Field.plainRoots combine fields values).length = fields.length := by
  induction fields generalizing values with
  | nil =>
    rw [List.length_eq_zero_iff.mp h]
    rfl
  | cons field fields ih =>
    obtain ⟨name, shape⟩ := field
    obtain ⟨value, values, rfl⟩ := List.exists_cons_of_length_eq_add_one h
    exact congrArg (· + 1) (ih (by simpa using h))

/-- A basic shape has no capacity. -/
theorem Shape.overruns_of_isBasic {shape : Shape} (hBasic : shape.isBasic = true)
    (value : Value) : shape.overruns value = false := by
  cases shape with
  | boolean => rw [Shape.overruns]
  | uint width => rw [Shape.overruns]
  | _ => simp [Shape.isBasic] at hBasic

/-- Without an overrun there is an answer. -/
theorem unlessOverrun_false {α : Type} {overruns : Prop} [Decidable overruns] (h : ¬overruns)
    (answer : α) : unlessOverrun overruns answer = .ok answer := by
  rw [unlessOverrun, if_neg (by simpa using h)]

/-- Hashing an answer with a length does not overrun. -/
theorem unlessOverrun_mixInLength (H : TreeHash) (overruns : Bool) (root : Chunk) {length : Nat}
    (h : length < 2 ^ 64) :
    (do let root ← unlessOverrun overruns root
        return mixInLength H root length) =
      unlessOverrun overruns (H.combine root (lengthChunk length)) := by
  rw [← mixInLength_eq H root h]
  cases overruns <;> rfl

namespace Shape

/-- The root of the elements of a sequence, in a tree for `capacity` of them: basic ones share
chunks, and others are one leaf each. -/
def elementsRoot (H : TreeHash) (element : Shape) (elements : List Value) (capacity : Nat) :
    Except Trap Chunk :=
  if element.isBasic then basicSequenceRoot H element elements capacity
  else do
    let roots ← elements.mapM (element.root H)
    merkleize H roots capacity

variable (H : TreeHash) {value : Value}

/-- The root of a vector is that of its elements. -/
theorem root_vector (element : Shape) (length : UInt64) (elements : List Value) :
    (vector element length).root H (.sequence elements) =
      element.elementsRoot H elements length.toNat := by
  rw [root, elementsRoot]

/-- The root of a list is that of its elements, hashed with their number. -/
theorem root_list (element : Shape) (limit : UInt64) (elements : List Value) :
    (list element limit).root H (.sequence elements) =
      element.elementsRoot H elements limit.toNat >>= fun root =>
        pure (mixInLength H root elements.length) := by
  rw [root, elementsRoot]
  split <;> simp only [bind_assoc]

/-- A byte string of given length has the plain root. -/
theorem root_byteVector_eq {length : UInt64} (hFits : (byteVector length).Fits value)
    (hStorable : value.Storable) :
    (byteVector length).root H value = .ok ((byteVector length).plainRoot H.combine value) := by
  cases value with
  | bytes content =>
    have hlength : content.length = length.toNat := hFits
    have hsize : content.length < 2 ^ 63 := hStorable
    have hlimit : wordLimit = 2 ^ 64 := rfl
    rw [root, plainRoot, packedRoot_eq H, unlessOverrun_false]
    · rfl
    · rw [bytesPerChunk]
      omega
    · rw [Nat.ceilDiv_eq_add_pred_div, bytesPerChunk]
      omega
    · rw [hlength, bytesPerChunk]
  | _ => exact hFits.elim

/-- A byte string of bounded length has the plain root, unless its capacity overruns. -/
theorem root_byteList_eq {limit : UInt64} (hFits : (byteList limit).Fits value)
    (hStorable : value.Storable) :
    (byteList limit).root H value =
      unlessOverrun ((byteList limit).overruns value)
        ((byteList limit).plainRoot H.combine value) := by
  cases value with
  | bytes content =>
    have hlength : content.length ≤ limit.toNat := hFits
    have hsize : content.length < 2 ^ 63 := hStorable
    have hword := toNat_lt_wordLimit limit
    rw [root, overruns, plainRoot, packedRoot_eq H, unlessOverrun_mixInLength H _ _ (by omega)]
    · rfl
    · rw [Nat.ceilDiv_eq_add_pred_div, bytesPerChunk]
      omega
    · rw [bytesPerChunk, Nat.ceilDiv_eq_add_pred_div, Nat.ceilDiv_eq_add_pred_div]
      omega
  | _ => exact hFits.elim

/-- A bit string of given length has the plain root. -/
theorem root_bitvector_eq {length : UInt64} (hFits : (bitvector length).Fits value)
    (hStorable : value.Storable) :
    (bitvector length).root H value = .ok ((bitvector length).plainRoot H.combine value) := by
  cases value with
  | bits content =>
    have hlength : content.length = length.toNat := hFits
    have hsize : content.length < 2 ^ 63 := hStorable
    have hlimit : wordLimit = 2 ^ 64 := rfl
    rw [root, plainRoot, packedRoot_eq H, unlessOverrun_false, pack_eq_bitBytes]
    · rfl
    · rw [bitsPerChunk]
      omega
    · rw [Nat.ceilDiv_eq_add_pred_div, bitsPerChunk]
      omega
    · rw [Bits.length_pack, bitsPerChunk, Nat.ceilDiv_eq_add_pred_div,
        Nat.ceilDiv_eq_add_pred_div]
      omega
  | _ => exact hFits.elim

/-- A bit string of bounded length has the plain root, unless its capacity overruns. -/
theorem root_bitlist_eq {limit : UInt64} (hFits : (bitlist limit).Fits value)
    (hStorable : value.Storable) :
    (bitlist limit).root H value =
      unlessOverrun ((bitlist limit).overruns value)
        ((bitlist limit).plainRoot H.combine value) := by
  cases value with
  | bits content =>
    have hlength : content.length ≤ limit.toNat := hFits
    have hsize : content.length < 2 ^ 63 := hStorable
    have hword := toNat_lt_wordLimit limit
    rw [root, overruns, plainRoot, packedRoot_eq H, unlessOverrun_mixInLength H _ _ (by omega),
      pack_eq_bitBytes]
    · rfl
    · rw [Nat.ceilDiv_eq_add_pred_div, bitsPerChunk]
      omega
    · rw [Bits.length_pack, bitsPerChunk, Nat.ceilDiv_eq_add_pred_div,
        Nat.ceilDiv_eq_add_pred_div]
      omega
  | _ => exact hFits.elim

/-- The capacity of a storable sequence of basic values with as many elements does not overrun. -/
theorem basicVector_not_overruns {element : Shape} {elements : List Value} {length : Nat}
    (hElement : element.Sound) (hBasic : element.isBasic = true)
    (hlength : elements.length = length) (hcount : elements.length < 2 ^ 58) :
    ¬wordLimit ≤ length * element.slotSize + 32 := by
  have hwidth := slotSize_le_of_isBasic hElement hBasic
  have hbytes : length * element.slotSize ≤ length * 32 := Nat.mul_le_mul_left _ hwidth
  have hlimit : wordLimit = 2 ^ 64 := rfl
  omega

/-- The elements of a sequence are one leaf each, unless the capacity of one overruns. -/
theorem nestedSequenceRoot_eq {element : Shape} {elements : List Value} {capacity : UInt64}
    (hroom : elements.length ≤ capacity.toNat)
    (hroots : ∀ value ∈ elements, element.root H value =
      unlessOverrun (element.overruns value) (element.plainRoot H.combine value)) :
    (do let roots ← elements.mapM (element.root H)
        merkleize H roots capacity.toNat) =
      unlessOverrun (elements.any element.overruns)
        (paddedRoot H.combine (elements.map (element.plainRoot H.combine)) capacity.toNat) := by
  rw [mapM_eq_unlessOverrun hroots, unlessOverrun_bind,
    merkleize_eq_ok H (toNat_lt_wordLimit capacity) (by rw [List.length_map]; omega)]
  rfl

end Shape

mutual

/-- A value that fits its shape has the plain root, unless a capacity overruns. -/
theorem Shape.root_eq (H : TreeHash) : {shape : Shape} → shape.Sound → {value : Value} →
    shape.Fits value → value.Storable →
    shape.root H value = unlessOverrun (shape.overruns value) (shape.plainRoot H.combine value)
  | .boolean, hSound, _, hFits, _ => by
    rw [Shape.root, Shape.overruns, Shape.plainRoot]
    exact root_basic H hSound rfl hFits
  | .uint _, hSound, _, hFits, _ => by
    rw [Shape.root, Shape.overruns, Shape.plainRoot]
    exact root_basic H hSound rfl hFits
  | .byteVector _, _, _, hFits, hStorable => by
    rw [Shape.overruns]
    exact Shape.root_byteVector_eq H hFits hStorable
  | .byteList _, _, _, hFits, hStorable => Shape.root_byteList_eq H hFits hStorable
  | .bitvector _, _, _, hFits, hStorable => by
    rw [Shape.overruns]
    exact Shape.root_bitvector_eq H hFits hStorable
  | .bitlist _, _, _, hFits, hStorable => Shape.root_bitlist_eq H hFits hStorable
  | .vector element length, ⟨_, hElement, _⟩, value, hFits, hStorable => by
    cases value with
    | sequence elements =>
      obtain ⟨hlength, hAll⟩ : elements.length = length.toNat ∧
        ∀ value ∈ elements, element.Fits value := hFits
      obtain ⟨hcount, hParts⟩ : elements.length < 2 ^ 58 ∧ Value.AllStorable elements := hStorable
      have hStored := Value.storable_of_mem hParts
      rw [Shape.root, Shape.overruns, Shape.plainRoot]
      cases hBasic : element.isBasic with
      | true =>
        have hnone := Shape.basicVector_not_overruns hElement hBasic hlength hcount
        have hflat : elements.any element.overruns = false :=
          List.any_eq_false.mpr fun value _ => by simp [Shape.overruns_of_isBasic hBasic value]
        rw [if_pos rfl, if_pos rfl, basicSequenceRoot_eq H hElement hBasic hAll (by omega)
          hlength.le, unlessOverrun_false hnone, hflat]
        rfl
      | false =>
        rw [if_neg Bool.false_ne_true, if_neg Bool.false_ne_true]
        exact Shape.nestedSequenceRoot_eq H hlength.le fun value h =>
          Shape.root_eq H hElement (hAll value h) (hStored value h)
    | _ => exact hFits.elim
  | .list element limit, ⟨hElement, hSize⟩, value, hFits, hStorable => by
    cases value with
    | sequence elements =>
      obtain ⟨hlength, hAll⟩ : elements.length ≤ limit.toNat ∧
        ∀ value ∈ elements, element.Fits value := hFits
      obtain ⟨hcount, hParts⟩ : elements.length < 2 ^ 58 ∧ Value.AllStorable elements := hStorable
      have hStored := Value.storable_of_mem hParts
      rw [Shape.root, Shape.overruns, Shape.plainRoot]
      cases hBasic : element.isBasic with
      | true =>
        have hword := hSize hBasic
        rw [if_pos rfl, if_pos rfl, if_pos rfl,
          basicSequenceRoot_eq H hElement hBasic hAll (by omega) hlength,
          unlessOverrun_mixInLength H _ _ (by omega)]
      | false =>
        rw [if_neg Bool.false_ne_true, if_neg Bool.false_ne_true, if_neg Bool.false_ne_true,
          ← bind_assoc, Shape.nestedSequenceRoot_eq H hlength fun value h =>
            Shape.root_eq H hElement (hAll value h) (hStored value h),
          unlessOverrun_mixInLength H _ _ (by omega)]
    | _ => exact hFits.elim
  | .container schema, hSound, value, hFits, hStorable => by
    rw [Shape.root_container, Shape.overruns, Shape.plainRoot]
    exact Schema.root_eq H hSound hFits hStorable

/-- A container that fits its schema has the plain root, unless a capacity overruns. -/
theorem Schema.root_eq (H : TreeHash) : {schema : Schema} → schema.Sound → {value : Value} →
    schema.Fits value → value.Storable →
    schema.root H value =
      unlessOverrun (schema.overruns value) (schema.plainRoot H.combine value)
  | ⟨_, fields, fixedPart, _, _⟩, ⟨_, _, hFields, hPart, hWord, _⟩, value, hFits, hStorable => by
    cases value with
    | container values =>
      have hAll : Field.AllFit fields values := hFits
      have ih := Field.rootAll_eq H hFields hAll hStorable
      have hroots := Field.length_plainRoots H.combine hAll.length_eq
      have hcount := Field.length_le_slotSum hFields
      rw [Schema.root, Schema.overruns, Schema.plainRoot]
      simp only [if_pos hAll.length_eq]
      rw [ih, unlessOverrun_bind, hroots, merkleize_eq_ok H (by omega) (by omega)]
      rfl
    | _ => exact hFits.elim

/-- Fields have the plain roots, unless a capacity overruns. -/
theorem Field.rootAll_eq (H : TreeHash) : {fields : List Field} → Field.AllSound fields →
    {values : List Value} → Field.AllFit fields values → Value.AllStorable values →
    Field.rootAll H fields values =
      unlessOverrun (Field.anyOverruns fields values)
        (Field.plainRoots H.combine fields values)
  | [], _, [], _, _ => rfl
  | ⟨_, shape⟩ :: fields, ⟨hShape, hFields⟩, value :: values, ⟨hFits, hAll⟩,
      ⟨hStorable, hStored⟩ => by
    rw [Field.rootAll, Shape.root_eq H hShape hFits hStorable, unlessOverrun_bind,
      Field.rootAll_eq H hFields hAll hStored, unlessOverrun_bind, Field.anyOverruns,
      Field.plainRoots]
    cases shape.overruns value <;> cases Field.anyOverruns fields values <;> rfl

end

/-- The root of a value that passes validation is the plain one, unless the value reaches a byte
list, a bit list or a list of basic values whose capacity overruns. -/
theorem Schema.root_eq_plainRoot (H : TreeHash) {schema : Schema} (hDrawn : schema.Drawn)
    {value : Value} (hValid : schema.validate value = .ok ()) (hStorable : value.Storable) :
    schema.root H value =
      if schema.overruns value then .error .addOverflow
      else .ok (schema.plainRoot H.combine value) :=
  Schema.root_eq H (Schema.sound_of_drawn hDrawn) ((Schema.validate_eq_ok hDrawn).mp hValid)
    hStorable

/-- The value of the example reaches no such capacity, so its root is the plain one. -/
theorem Schema.root_outerValue :
    outerExample.validate outerValue = .ok () ∧ outerValue.Storable ∧
      outerExample.root TreeHash.sha256 outerValue =
        .ok (outerExample.plainRoot Sha256.combine outerValue) := by
  have hValid : outerExample.validate outerValue = .ok () := by decide +kernel
  have hStorable : outerValue.Storable := by
    simp [outerValue, Value.Storable, Value.AllStorable]
  have h := Schema.root_eq_plainRoot TreeHash.sha256 outerExample_drawn hValid hStorable
  rw [if_neg (by decide)] at h
  exact ⟨hValid, hStorable, h⟩

/-- A container whose only field may hold as many bytes as pass when it is drawn up. -/
def wideExample : Schema :=
  ⟨"Wide", [⟨"data", .byteList 18446744073709551584⟩], 4, false, 0⟩

/-- A single byte in that field is valid, and yet its root traps. -/
theorem Schema.root_wideExample :
    wideExample.Drawn ∧ wideExample.validate (.container [.bytes [1]]) = .ok () ∧
      (Value.container [.bytes [1]]).Storable ∧
      wideExample.root TreeHash.sha256 (.container [.bytes [1]]) = .error .addOverflow ∧
      wideExample.root TreeHash.sha256 (.container [.bytes [1]]) ≠
        .ok (wideExample.plainRoot Sha256.combine (.container [.bytes [1]])) := by
  have hDrawn : wideExample.Drawn := ⟨rfl, trivial, trivial⟩
  have hFits : wideExample.Fits (.container [.bytes [1]]) := by
    simp [wideExample, Schema.Fits, Field.AllFit, Shape.Fits]
  have hStorable : (Value.container [.bytes [1]]).Storable := by
    simp [Value.Storable, Value.AllStorable]
  have h := Schema.root_eq TreeHash.sha256 (Schema.sound_of_drawn hDrawn) hFits hStorable
  rw [show wideExample.overruns (.container [.bytes [1]]) = true by decide] at h
  refine ⟨hDrawn, (Schema.validate_eq_ok hDrawn).mpr hFits, hStorable, h, ?_⟩
  rw [h]
  simp [unlessOverrun]

end BeaconSsz

import BeaconSsz.Proofs.Root.Plain

/-!
# Which values have a root

Hashing without validation is meant to trap on every value that does not fit its shape. It does so
for values of another kind, for integers that are too large and for containers with another number
of fields, at any depth. Lengths it does not check: it counts chunks. A string or a sequence that is
too short or too long for its shape goes unnoticed as long as its chunks have room in the tree.
-/

namespace BeaconSsz

/-- The chunks of so many units have room in a tree for `capacity` units, and the number of chunks
of the capacity can be computed. -/
def ChunkRoom (perChunk count capacity : Nat) : Prop :=
  capacity + perChunk < wordLimit ∧ count ⌈/⌉ perChunk ≤ max (capacity ⌈/⌉ perChunk) 1

/-- So many elements have room in a tree for `capacity` elements: basic ones share chunks, and
others are one leaf each. -/
def Shape.ElementRoom (element : Shape) (count capacity : Nat) : Prop :=
  if element.isBasic then
    ChunkRoom bytesPerChunk (count * element.slotSize) (capacity * element.slotSize)
  else count ≤ max capacity 1

mutual

/-- The value is of the kind of the shape and its chunks have room in the tree of the shape, and so
it is for its parts. Integers and booleans fit. -/
def Shape.Hashable : Shape → Value → Prop
  | .byteVector length, .bytes content => ChunkRoom bytesPerChunk content.length length.toNat
  | .byteList limit, .bytes content => ChunkRoom bytesPerChunk content.length limit.toNat
  | .bitvector length, .bits content => ChunkRoom bitsPerChunk content.length length.toNat
  | .bitlist limit, .bits content => ChunkRoom bitsPerChunk content.length limit.toNat
  | .vector element length, .sequence elements =>
    element.ElementRoom elements.length length.toNat ∧ ∀ value ∈ elements, element.Hashable value
  | .list element limit, .sequence elements =>
    element.ElementRoom elements.length limit.toNat ∧ ∀ value ∈ elements, element.Hashable value
  | .container schema, value => schema.Hashable value
  | .boolean, value => Shape.Fits .boolean value
  | .uint width, value => Shape.Fits (.uint width) value
  | _, _ => False

/-- The value is a container with a value for each field that has a root. -/
def Schema.Hashable : Schema → Value → Prop
  | ⟨_, fields, _, _, _⟩, .container values => Field.AllHashable fields values
  | _, _ => False

/-- There is a value for each field, and it has a root. -/
def Field.AllHashable : List Field → List Value → Prop
  | [], [] => True
  | ⟨_, shape⟩ :: fields, value :: values => shape.Hashable value ∧ Field.AllHashable fields values
  | _, _ => False

end

section Trees

variable (H : TreeHash)

/-- Chunks have a root exactly if they keep within the limit. -/
theorem exists_merkleize_iff {chunks : List Chunk} {limit : Nat} (hword : limit < wordLimit) :
    (∃ root, merkleize H chunks limit = .ok root) ↔ chunks.length ≤ max limit 1 := by
  apply Iff.intro
  · intro h
    obtain ⟨root, h⟩ := h
    by_contra hmany
    rw [merkleize, if_pos (Nat.not_le.mp hmany)] at h
    cases h
  · exact fun h => ⟨_, merkleize_eq_ok H hword h⟩

/-- Packed bytes have a root exactly if the capacity does not overrun and their chunks have room. -/
theorem exists_packedRoot_iff {bytes : Bytes} {length perChunk : Nat} (hpos : 0 < perChunk) :
    (∃ root, packedRoot H bytes length perChunk = .ok root) ↔
      length + perChunk < wordLimit ∧ bytes.length ⌈/⌉ 32 ≤ max (length ⌈/⌉ perChunk) 1 := by
  rw [packedRoot, chunkCount_eq, unlessOverrun_bind, pack_eq_chunksOf]
  by_cases hroom : length + perChunk < wordLimit
  · have hword : length ⌈/⌉ perChunk < wordLimit := by
      rw [Nat.ceilDiv_eq_add_pred_div]
      exact (Nat.div_le_self _ _).trans_lt (by omega)
    rw [if_neg (by simpa using hroom), exists_merkleize_iff H hword, length_chunksOf]
    exact (and_iff_right hroom).symm
  · rw [if_pos (by simpa using hroom)]
    exact iff_of_false (by simp) fun h => hroom h.1

/-- Bits have as many chunks as their packed bytes. -/
theorem ceilDiv_length_pack (bits : List Bool) :
    (Bits.pack bits).length ⌈/⌉ 32 = bits.length ⌈/⌉ bitsPerChunk := by
  rw [Bits.length_pack, bitsPerChunk, Nat.ceilDiv_eq_add_pred_div, Nat.ceilDiv_eq_add_pred_div]
  omega

/-- A root is there exactly if it is there hashed with a length. -/
theorem exists_mixInLength_iff {result : Except Trap Chunk} {length : Nat} :
    (∃ root, (result >>= fun root => pure (mixInLength H root length)) = .ok root) ↔
      ∃ root, result = .ok root := by
  cases result <;> simp [Bind.bind, Except.bind]

/-- Going through a list has an answer exactly if every step has one. -/
theorem exists_mapM_iff {α β : Type} {f : α → Except Trap β} {xs : List α} :
    (∃ ys, xs.mapM f = .ok ys) ↔ ∀ x ∈ xs, ∃ y, f x = .ok y := by
  simp only [mapM_eq_ok, exists_forall₂]

end Trees

namespace Shape

variable (H : TreeHash) {element : Shape} {value : Value} {elements : List Value} {capacity : Nat}

/-- A basic shape is of fixed size. -/
theorem isFixed_of_isBasic (hBasic : element.isBasic = true) : element.isFixed = true := by
  cases element <;> first | rfl | simp [isBasic] at hBasic

/-- A basic value has a root exactly if it fits. -/
theorem hashable_iff_fits (hBasic : element.isBasic = true) :
    element.Hashable value ↔ element.Fits value := by
  cases element with
  | boolean => rw [Hashable]
  | uint width => rw [Hashable]
  | _ => simp [isBasic] at hBasic

/-- A basic value has bytes exactly if it fits, and as many as its slot. -/
theorem exists_basicBytes_iff (hSound : element.Sound) (hBasic : element.isBasic = true) :
    (∃ bytes, basicBytes element value = .ok bytes) ↔ element.Fits value := by
  apply Iff.intro
  · intro h
    obtain ⟨bytes, h⟩ := h
    rw [basicBytes] at h
    split at h
    · next hWritten => exact fits_of_encode hSound hWritten
    · cases h
  · exact fun hFits => ⟨_, (basicBytes_eq_ok hSound hBasic hFits).1⟩

/-- A basic value is one chunk, so it has a root exactly if it fits. -/
theorem exists_root_basic_iff (hSound : element.Sound) (hBasic : element.isBasic = true) :
    (∃ root, (do let bytes ← basicBytes element value
                 merkleize H (Chunk.pack bytes) 1) = .ok root) ↔ element.Fits value := by
  rw [← exists_basicBytes_iff hSound hBasic]
  apply Iff.intro
  · intro h
    obtain ⟨root, h⟩ := h
    obtain ⟨bytes, hBytes, -⟩ := bind_eq_ok.mp h
    exact ⟨bytes, hBytes⟩
  · intro h
    exact ⟨_, root_basic H hSound hBasic ((exists_basicBytes_iff hSound hBasic).mp h)⟩

/-- Basic elements have a root exactly if each one fits and their chunks have room. -/
theorem exists_basicSequenceRoot_iff (hSound : element.Sound) (hBasic : element.isBasic = true)
    (hWord : capacity * element.slotSize < wordLimit) :
    (∃ root, basicSequenceRoot H element elements capacity = .ok root) ↔
      ChunkRoom bytesPerChunk (elements.length * element.slotSize) (capacity * element.slotSize) ∧
        ∀ value ∈ elements, element.Fits value := by
  by_cases hFits : ∀ value ∈ elements, element.Fits value
  · rw [basicSequenceRoot_eq_packedRoot H hSound hBasic hFits hWord,
      exists_packedRoot_iff H (by decide), length_flatMap_basicDigits hSound hBasic hFits]
    exact (and_iff_left hFits).symm
  · refine iff_of_false (fun h => hFits ?_) fun h => hFits h.2
    obtain ⟨root, h⟩ := h
    obtain ⟨encoded, hBytes, -⟩ := bind_eq_ok.mp h
    exact fun value hValue => (exists_basicBytes_iff hSound hBasic).mp
      (exists_mapM_iff.mp ⟨encoded, hBytes⟩ value hValue)

/-- The elements of a sequence have a root exactly if each one has a root and they have room. -/
theorem exists_elementsRoot_iff (hSound : element.Sound) (hCapacity : capacity < wordLimit)
    (hWord : element.isBasic = true → capacity * element.slotSize < wordLimit)
    (hElement : ∀ value, (∃ root, element.root H value = .ok root) ↔ element.Hashable value) :
    (∃ root, element.elementsRoot H elements capacity = .ok root) ↔
      element.ElementRoom elements.length capacity ∧
        ∀ value ∈ elements, element.Hashable value := by
  rw [elementsRoot, ElementRoom]
  split
  · next hBasic =>
    simp only [hashable_iff_fits hBasic]
    exact exists_basicSequenceRoot_iff H hSound hBasic (hWord hBasic)
  · have hRoots : (∃ roots, elements.mapM (element.root H) = .ok roots) ↔
        ∀ value ∈ elements, element.Hashable value := by
      simp only [exists_mapM_iff, hElement]
    rw [← hRoots]
    apply Iff.intro
    · intro h
      obtain ⟨root, h⟩ := h
      obtain ⟨roots, hRoots, h⟩ := bind_eq_ok.mp h
      have hRoom := (exists_merkleize_iff H hCapacity).mp ⟨root, h⟩
      rw [← (mapM_eq_ok.mp hRoots).length_eq] at hRoom
      exact ⟨hRoom, roots, hRoots⟩
    · intro h
      obtain ⟨hRoom, roots, hRoots⟩ := h
      rw [(mapM_eq_ok.mp hRoots).length_eq] at hRoom
      obtain ⟨root, h⟩ := (exists_merkleize_iff H hCapacity).mpr hRoom
      exact ⟨root, bind_eq_ok.mpr ⟨roots, hRoots, h⟩⟩

end Shape

/-- There is one value for each field. -/
theorem Field.AllHashable.length_eq {fields : List Field} {values : List Value}
    (h : Field.AllHashable fields values) : values.length = fields.length := by
  induction fields generalizing values with
  | nil => cases values <;> first | rfl | exact h.elim
  | cons field fields ih =>
    obtain ⟨name, shape⟩ := field
    cases values with
    | nil => exact h.elim
    | cons value values => exact congrArg (· + 1) (ih h.2)

/-- There is one root for each field. -/
theorem Field.length_rootAll (H : TreeHash) : {fields : List Field} → {values : List Value} →
    {roots : List Chunk} → values.length = fields.length →
    Field.rootAll H fields values = .ok roots → roots.length = fields.length
  | [], [], _, _, h => by
    cases h
    rfl
  | ⟨_, _⟩ :: _, _ :: _, _, hlength, h => by
    simp only [Field.rootAll, bind_eq_ok, pure_eq_ok] at h
    obtain ⟨root, -, roots, hRoots, rfl⟩ := h
    exact congrArg (· + 1) (Field.length_rootAll H (by simpa using hlength) hRoots)

mutual

/-- A value has a root through a sound shape exactly if it is of its kind and has room. -/
theorem Shape.exists_root_iff (H : TreeHash) : {shape : Shape} → shape.Sound → {value : Value} →
    ((∃ root, shape.root H value = .ok root) ↔ shape.Hashable value)
  | .boolean, hSound, _ => by
    rw [Shape.root, Shape.Hashable]
    exact Shape.exists_root_basic_iff H hSound rfl
  | .uint _, hSound, _ => by
    rw [Shape.root, Shape.Hashable]
    exact Shape.exists_root_basic_iff H hSound rfl
  | .byteVector _, _, value => by
    cases value with
    | bytes content =>
      rw [Shape.root, Shape.Hashable]
      exact exists_packedRoot_iff H (by decide)
    | _ => simp [Shape.root, Shape.Hashable]
  | .byteList _, _, value => by
    cases value with
    | bytes content =>
      rw [Shape.root, Shape.Hashable, exists_mixInLength_iff]
      exact exists_packedRoot_iff H (by decide)
    | _ => simp [Shape.root, Shape.Hashable]
  | .bitvector _, _, value => by
    cases value with
    | bits content =>
      rw [Shape.root, Shape.Hashable, exists_packedRoot_iff H (by decide), ceilDiv_length_pack]
      rfl
    | _ => simp [Shape.root, Shape.Hashable]
  | .bitlist _, _, value => by
    cases value with
    | bits content =>
      rw [Shape.root, Shape.Hashable, exists_mixInLength_iff, exists_packedRoot_iff H (by decide),
        ceilDiv_length_pack]
      rfl
    | _ => simp [Shape.root, Shape.Hashable]
  | .vector element length, ⟨_, hElement, hSize⟩, value => by
    cases value with
    | sequence elements =>
      rw [Shape.root_vector, Shape.Hashable]
      refine Shape.exists_elementsRoot_iff H hElement (toNat_lt_wordLimit length) (fun hBasic => ?_)
        fun _ => Shape.exists_root_iff H hElement
      rw [Nat.mul_comm]
      exact hSize (Shape.isFixed_of_isBasic hBasic)
    | _ => simp [Shape.root, Shape.Hashable]
  | .list element limit, ⟨hElement, hSize⟩, value => by
    cases value with
    | sequence elements =>
      rw [Shape.root_list, Shape.Hashable, exists_mixInLength_iff]
      exact Shape.exists_elementsRoot_iff H hElement (toNat_lt_wordLimit limit)
        (fun hBasic => (Nat.le_add_right _ _).trans_lt (hSize hBasic))
        fun _ => Shape.exists_root_iff H hElement
    | _ => simp [Shape.root, Shape.Hashable]
  | .container schema, hSound, value => by
    rw [Shape.root_container, Shape.Hashable]
    exact Schema.exists_root_iff H hSound

/-- A container has a root through a sound schema exactly if its parts have, one for each field. -/
theorem Schema.exists_root_iff (H : TreeHash) : {schema : Schema} → schema.Sound →
    {value : Value} → ((∃ root, schema.root H value = .ok root) ↔ schema.Hashable value)
  | ⟨_, fields, _, _, _⟩, ⟨_, _, hFields, hPart, hWord, _⟩, value => by
    cases value with
    | container values =>
      rw [Schema.root, Schema.Hashable]
      by_cases hlength : values.length = fields.length
      · have hcount := Field.length_le_slotSum hFields
        simp only [if_pos hlength]
        rw [← Field.exists_rootAll_iff H hFields hlength]
        apply Iff.intro
        · intro h
          obtain ⟨root, h⟩ := h
          obtain ⟨roots, hRoots, -⟩ := bind_eq_ok.mp h
          exact ⟨roots, hRoots⟩
        · intro h
          obtain ⟨roots, hRoots⟩ := h
          have hroots := Field.length_rootAll H hlength hRoots
          have hroom : roots.length ≤ max roots.length 1 := Nat.le_max_left _ _
          obtain ⟨root, h⟩ := (exists_merkleize_iff H (by omega)).mpr hroom
          exact ⟨root, bind_eq_ok.mpr ⟨roots, hRoots, h⟩⟩
      · simp only [if_neg hlength]
        exact iff_of_false (by simp) fun h => hlength h.length_eq
    | _ => simp [Schema.root, Schema.Hashable]

/-- As many values as fields have roots exactly if each one has. -/
theorem Field.exists_rootAll_iff (H : TreeHash) : {fields : List Field} → Field.AllSound fields →
    {values : List Value} → values.length = fields.length →
    ((∃ roots, Field.rootAll H fields values = .ok roots) ↔ Field.AllHashable fields values)
  | [], _, [], _ => iff_of_true ⟨_, rfl⟩ trivial
  | ⟨_, shape⟩ :: fields, ⟨hShape, hFields⟩, value :: values, hlength => by
    rw [Field.rootAll, Field.AllHashable, ← Shape.exists_root_iff H hShape,
      ← Field.exists_rootAll_iff H hFields (by simpa using hlength)]
    simp only [bind_eq_ok, pure_eq_ok]
    apply Iff.intro
    · intro h
      obtain ⟨_, root, hRoot, roots, hRoots, -⟩ := h
      exact ⟨⟨root, hRoot⟩, roots, hRoots⟩
    · intro h
      obtain ⟨⟨root, hRoot⟩, roots, hRoots⟩ := h
      exact ⟨_, root, hRoot, roots, hRoots, rfl⟩

end

/-! ### What validation finds in values that have a root -/

/-- The cause is a wrong number of bytes, bits or elements. -/
def EncodeCause.IsLength : EncodeCause → Prop
  | lengthMismatch _ _ | tooManyElements _ _ => True
  | _ => False

namespace Encoding

/-- Unless the check passes, it finds a wrong length. -/
def FailsByLength (checked : Encoding Unit) : Prop :=
  ∀ error, checked = .error error → error.cause.IsLength

/-- A check that passes finds nothing. -/
theorem failsByLength_ok : FailsByLength (.ok ()) :=
  nofun

/-- The place of an error does not matter for its cause. -/
theorem FailsByLength.within {checked : Encoding Unit} (h : FailsByLength checked) (step : Step) :
    FailsByLength (Encoding.within step checked) := by
  cases checked with
  | ok => exact failsByLength_ok
  | error error =>
    intro _ hError
    cases hError
    exact h error rfl

/-- Two checks find what either one finds. -/
theorem FailsByLength.bind {first second : Encoding Unit} (h : FailsByLength first)
    (h' : FailsByLength second) : FailsByLength (first >>= fun _ => second) := by
  cases first with
  | ok => exact h'
  | error error =>
    intro _ hError
    cases hError
    exact h error rfl

/-- A check of every element finds what it finds on one of them. -/
theorem FailsByLength.forElements {f : Value → Encoding Unit} {xs : List Value}
    (h : ∀ x ∈ xs, FailsByLength (f x)) : FailsByLength (Encoding.forElements f xs) := by
  -- The induction generalises the number of the first element.
  unfold Encoding.forElements
  generalize 0 = start
  induction xs generalizing start with
  | nil => exact failsByLength_ok
  | cons x xs ih =>
    rw [List.forall_mem_cons] at h
    rw [List.zipIdx_cons, List.forM_eq_forM, List.forM_cons]
    exact (h.1.within _).bind (ih h.2 _)

end Encoding

open Encoding (FailsByLength failsByLength_ok)

/-- The check of a number of elements finds a wrong length. -/
theorem failsByLength_checkExactLength (count expected : Nat) :
    FailsByLength (checkExactLength count expected) := by
  intro error h
  unfold checkExactLength at h
  split at h
  · cases h
  · cases h
    trivial

/-- The check of a limit finds a wrong length. -/
theorem failsByLength_checkLimit (count limit : Nat) : FailsByLength (checkLimit count limit) := by
  intro error h
  unfold checkLimit at h
  split at h
  · cases h
  · cases h
    trivial

/-- A basic value that has a root passes. -/
theorem Shape.failsByLength_of_fits {shape : Shape} (hSound : shape.Sound) {value : Value}
    (h : shape.Fits value) : FailsByLength (shape.validate value) := by
  rw [(Shape.validate_eq_ok hSound).mpr h]
  exact failsByLength_ok

mutual

/-- In a value that has a root, validation finds nothing but wrong lengths. -/
theorem Shape.Hashable.failsByLength : {shape : Shape} → shape.Sound → {value : Value} →
    shape.Hashable value → FailsByLength (shape.validate value)
  | .boolean, hSound, _, h => by
    rw [Shape.Hashable] at h
    exact Shape.failsByLength_of_fits hSound h
  | .uint _, hSound, _, h => by
    rw [Shape.Hashable] at h
    exact Shape.failsByLength_of_fits hSound h
  | .byteVector _, _, value, h => by
    cases value with
    | bytes content => exact failsByLength_checkExactLength _ _
    | _ => exact h.elim
  | .byteList _, _, value, h => by
    cases value with
    | bytes content => exact failsByLength_checkLimit _ _
    | _ => exact h.elim
  | .bitvector _, _, value, h => by
    cases value with
    | bits content => exact failsByLength_checkExactLength _ _
    | _ => exact h.elim
  | .bitlist _, _, value, h => by
    cases value with
    | bits content => exact failsByLength_checkLimit _ _
    | _ => exact h.elim
  | .vector element _, ⟨_, hElement, _⟩, value, h => by
    cases value with
    | sequence elements =>
      rw [Shape.validate]
      exact (failsByLength_checkExactLength _ _).bind
        (FailsByLength.forElements fun part hPart =>
          Shape.Hashable.failsByLength hElement (h.2 part hPart))
    | _ => exact h.elim
  | .list element _, ⟨hElement, _⟩, value, h => by
    cases value with
    | sequence elements =>
      rw [Shape.validate]
      exact (failsByLength_checkLimit _ _).bind
        (FailsByLength.forElements fun part hPart =>
          Shape.Hashable.failsByLength hElement (h.2 part hPart))
    | _ => exact h.elim
  | .container schema, hSound, value, h => by
    rw [Shape.Hashable] at h
    rw [Shape.validate]
    exact Schema.Hashable.failsByLength hSound h

/-- In a container that has a root, validation finds nothing but wrong lengths. -/
theorem Schema.Hashable.failsByLength : {schema : Schema} → schema.Sound → {value : Value} →
    schema.Hashable value → FailsByLength (schema.validateFields value)
  | ⟨_, fields, _, _, _⟩, ⟨_, _, hFields, _⟩, value, h => by
    cases value with
    | container values =>
      have hLength : values.length = fields.length := Field.AllHashable.length_eq h
      rw [Schema.validateFields, containerFields_eq_ok.mpr ⟨rfl, hLength⟩]
      exact Field.AllHashable.failsByLength hFields h
    | _ => exact h.elim

/-- In values of fields that have roots, validation finds nothing but wrong lengths. -/
theorem Field.AllHashable.failsByLength : {fields : List Field} → Field.AllSound fields →
    {values : List Value} → Field.AllHashable fields values →
    FailsByLength (Field.validateAll fields values)
  | [], _, [], _ => failsByLength_ok
  | ⟨_, _⟩ :: _, ⟨hShape, hFields⟩, _ :: _, ⟨hValue, hValues⟩ => by
    rw [Field.validateAll]
    exact ((Shape.Hashable.failsByLength hShape hValue).within _).bind
      (Field.AllHashable.failsByLength hFields hValues)

end

namespace Schema

/-- Hashing through a drawn-up schema gives a root for the values that are of its kinds and have
room for their chunks, and traps on all others. A value that passes validation is among the first
unless a capacity overruns. A value among the first that does not pass is refused for a length and
nothing else. -/
theorem root_ends (H : TreeHash) {schema : Schema} (hDrawn : schema.Drawn) (value : Value) :
    (schema.Hashable value → ∃ root, schema.root H value = .ok root) ∧
    (¬ schema.Hashable value → ∃ trap, schema.root H value = .error trap) ∧
    (schema.validate value = .ok () → value.Storable →
      (schema.Hashable value ↔ schema.overruns value = false)) ∧
    (schema.Hashable value →
      ∀ error, schema.validate value = .error error → error.cause.IsLength) := by
  have hSound := sound_of_drawn hDrawn
  refine ⟨(exists_root_iff H hSound).mpr, fun h => ?_, fun hValid hStorable => ?_, fun h => ?_⟩
  · cases hRoot : schema.root H value with
    | ok root => exact absurd ((exists_root_iff H hSound).mp ⟨root, hRoot⟩) h
    | error trap => exact ⟨trap, rfl⟩
  · rw [← exists_root_iff H hSound, root_eq H hSound ((validate_eq_ok hDrawn).mp hValid) hStorable]
    cases schema.overruns value <;> simp [unlessOverrun]
  · exact (h.failsByLength hSound).within _

/-- The value of the example has a root; without its last field it has none. -/
theorem root_ends_outerExample :
    outerExample.Drawn ∧ outerExample.validate outerValue = .ok () ∧ outerValue.Storable ∧
      (∃ root, outerExample.root TreeHash.sha256 outerValue = .ok root) ∧
      ∃ trap, outerExample.root TreeHash.sha256
        (.container [.boolean true, .sequence [], .bits []]) = .error trap := by
  have hValid : outerExample.validate outerValue = .ok () := by decide +kernel
  have hStorable : outerValue.Storable := by
    simp [outerValue, Value.Storable, Value.AllStorable]
  obtain ⟨hRoot, -, hPass, -⟩ := root_ends TreeHash.sha256 outerExample_drawn outerValue
  obtain ⟨-, hTrap, -, -⟩ := root_ends TreeHash.sha256 outerExample_drawn
    (.container [.boolean true, .sequence [], .bits []])
  refine ⟨outerExample_drawn, hValid, hStorable, hRoot ((hPass hValid hStorable).mpr (by decide)),
    hTrap fun h => ?_⟩
  exact absurd (Field.AllHashable.length_eq h) (by decide)

/-- A container of four bytes. -/
def fourBytesExample : Schema :=
  ⟨"T", [⟨"x", .byteVector 4⟩], 4, true, 0⟩

/-- A single byte in that field does not pass validation. It is hashed all the same, to the root of
the byte with three zeros behind it. -/
theorem root_fourBytesExample :
    fourBytesExample.Drawn ∧
      fourBytesExample.validate (.container [.bytes [1]]) =
        .error ⟨[.field "T", .field "x"], .lengthMismatch 1 4⟩ ∧
      fourBytesExample.validate (.container [.bytes [1, 0, 0, 0]]) = .ok () ∧
      ∃ root, fourBytesExample.root TreeHash.sha256 (.container [.bytes [1]]) = .ok root ∧
        fourBytesExample.root TreeHash.sha256 (.container [.bytes [1, 0, 0, 0]]) = .ok root :=
  ⟨⟨rfl, trivial, trivial⟩, by decide +kernel, by decide +kernel, _, rfl, rfl⟩

end Schema

end BeaconSsz

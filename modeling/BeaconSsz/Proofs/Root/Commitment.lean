import BeaconSsz.Proofs.Hash.Commitment
import BeaconSsz.Proofs.Root.Plain
import BeaconSsz.Proofs.Wire.RoundTrip

/-!
# Roots commit to values

What is hashed for the root of a value is a tree of hashings that follows the shape. If two values
that fit one shape have the same root, then they are equal, or an input of 64 bytes hashed for the
one and a different input hashed for the other have the same digest. Nothing is assumed of the way
to combine two nodes.

Lists of different lengths are told apart by the length behind their trees, before any of their
chunks are compared. So only trees over equally many chunks are ever compared, and no pair of the
table of empty subtrees takes part in a collision.
-/

namespace BeaconSsz

mutual

/-- What is hashed for the root of a value that fits its shape. -/
def Shape.tree : Shape → Value → HashTree
  | .boolean, value => .packed (basicDigits .boolean value) 1
  | .uint width, value => .packed (basicDigits (.uint width) value) 1
  | .byteVector length, .bytes content => .packed content (length.toNat ⌈/⌉ 32)
  | .byteList limit, .bytes content =>
    (HashTree.packed content (limit.toNat ⌈/⌉ 32)).withLength content.length
  | .bitvector length, .bits content => .packed (Bits.pack content) (length.toNat ⌈/⌉ 256)
  | .bitlist limit, .bits content =>
    (HashTree.packed (Bits.pack content) (limit.toNat ⌈/⌉ 256)).withLength content.length
  | .vector element length, .sequence elements =>
    if element.isBasic then
      .packed (elements.flatMap (basicDigits element)) (length.toNat * element.slotSize ⌈/⌉ 32)
    else .limited (elements.map element.tree) length.toNat
  | .list element limit, .sequence elements =>
    (if element.isBasic then
      HashTree.packed (elements.flatMap (basicDigits element))
        (limit.toNat * element.slotSize ⌈/⌉ 32)
    else .limited (elements.map element.tree) limit.toNat).withLength elements.length
  | .container schema, value => schema.tree value
  | _, _ => .empty 0

/-- What is hashed for the root of a container that fits its schema. -/
def Schema.tree : Schema → Value → HashTree
  | ⟨_, fields, _, _, _⟩, .container values =>
    .limited (Field.trees fields values) fields.length
  | _, _ => .empty 0

/-- What is hashed for the roots of the fields of a container. -/
def Field.trees : List Field → List Value → List HashTree
  | ⟨_, shape⟩ :: fields, value :: values => shape.tree value :: Field.trees fields values
  | _, _ => []

end

section Roots

variable (H : TreeHash)

/-- The bytes hashed for a basic value are those it is written as. -/
theorem encode_of_basicBytes {shape : Shape} {value : Value} {bytes : Bytes}
    (h : basicBytes shape value = .ok bytes) : shape.encode value = .ok bytes := by
  unfold basicBytes at h
  split at h
  · next heq => rw [heq, Except.ok.inj h]
  · simp at h

/-- The bytes hashed for a basic value are its digits. -/
theorem basicDigits_of_basicBytes {shape : Shape} (hBasic : shape.isBasic = true)
    {value : Value} {bytes : Bytes} (h : basicBytes shape value = .ok bytes) :
    basicDigits shape value = bytes := by
  have hencode := encode_of_basicBytes h
  cases shape with
  | boolean =>
    obtain ⟨b, rfl, rfl⟩ := Shape.encode_boolean_eq_ok.mp hencode
    rfl
  | uint width =>
    rcases Shape.encode_uint_eq_ok.mp hencode with ⟨-, n, rfl, -, rfl⟩ | ⟨-, n, rfl, -, rfl⟩ <;>
      rw [littleEndian_eq_digits, basicDigits]
  | _ => simp [Shape.isBasic] at hBasic

/-- The root of packed bytes is that of the tree over their chunks. -/
theorem root_of_packedRoot {bytes : Bytes} {length perChunk : Nat} {chunk : Chunk}
    (h : packedRoot H bytes length perChunk = .ok chunk) :
    (HashTree.packed bytes (length ⌈/⌉ perChunk)).root H = chunk := by
  rw [packedRoot, chunkCount_eq, unlessOverrun_bind] at h
  split at h
  · simp at h
  · exact HashTree.root_packed H h

/-- The root of a basic value is that of the tree over its bytes. -/
theorem root_of_basic {shape : Shape} (hBasic : shape.isBasic = true) {value : Value}
    {chunk : Chunk}
    (h : (do let bytes ← basicBytes shape value
             merkleize H (Chunk.pack bytes) 1) = .ok chunk) :
    (HashTree.packed (basicDigits shape value) 1).root H = chunk := by
  obtain ⟨bytes, hbytes, hroot⟩ := bind_eq_ok.mp h
  rw [basicDigits_of_basicBytes hBasic hbytes]
  exact HashTree.root_packed H hroot

/-- The root of a sequence of basic values is that of the tree over their bytes. -/
theorem root_of_basicSequence {element : Shape} (hBasic : element.isBasic = true)
    {elements : List Value} {capacity : Nat} {chunk : Chunk}
    (h : basicSequenceRoot H element elements capacity = .ok chunk) :
    (HashTree.packed (elements.flatMap (basicDigits element))
      (capacity * element.slotSize ⌈/⌉ 32)).root H = chunk := by
  simp only [basicSequenceRoot, bind_eq_ok, Word.mul_eq_ok] at h
  obtain ⟨encoded, hencoded, each, heach, length, ⟨-, rfl⟩, hroot⟩ := h
  have hslot : each = element.slotSize := by
    cases element with
    | boolean => exact (Except.ok.inj heach).symm
    | uint width => exact (Except.ok.inj heach).symm
    | _ => simp [Shape.isBasic] at hBasic
  have hdigits : elements.map (basicDigits element) = encoded := by
    rw [mapM_eq_ok] at hencoded
    rw [← List.forall₂_eq_eq_eq, List.forall₂_map_left_iff]
    exact hencoded.imp fun _ _ h => basicDigits_of_basicBytes hBasic h
  rw [List.flatMap, hdigits, ← hslot]
  exact root_of_packedRoot H hroot

/-- The root of a nested sequence is that of the tree over the trees of the elements. -/
theorem root_of_nestedSequence {element : Shape} {elements : List Value} {capacity : Nat}
    {chunk : Chunk}
    (ih : ∀ value root, element.root H value = .ok root → (element.tree value).root H = root)
    (h : (do let roots ← elements.mapM (element.root H)
             merkleize H roots capacity) = .ok chunk) :
    (HashTree.limited (elements.map element.tree) capacity).root H = chunk := by
  obtain ⟨roots, hroots, hroot⟩ := bind_eq_ok.mp h
  have htrees : (elements.map element.tree).map (HashTree.root H) = roots := by
    rw [mapM_eq_ok] at hroots
    rw [List.map_map, ← List.forall₂_eq_eq_eq, List.forall₂_map_left_iff]
    exact hroots.imp ih
  rw [← htrees] at hroot
  exact HashTree.root_limited H hroot

/-- A length hashed behind the root of a tree is hashed behind the tree. -/
theorem root_of_withLength {result : Except Trap Chunk} {tree : HashTree} {length : Nat}
    {chunk : Chunk} (ih : ∀ root, result = .ok root → tree.root H = root)
    (h : (do let root ← result
             return mixInLength H root length) = .ok chunk) :
    (tree.withLength length).root H = chunk := by
  obtain ⟨root, hroot, hchunk⟩ := bind_eq_ok.mp h
  rw [HashTree.root_withLength, ih root hroot]
  exact pure_eq_ok.mp hchunk

/-- There is one tree for each field. -/
theorem Field.length_trees {fields : List Field} {values : List Value}
    (h : Field.AllFit fields values) : (Field.trees fields values).length = fields.length := by
  induction fields generalizing values with
  | nil => rfl
  | cons field fields ih =>
    obtain ⟨name, shape⟩ := field
    cases values with
    | nil => exact h.elim
    | cons value values => exact congrArg (· + 1) (ih h.2)

mutual

/-- The computed root of a value is that of its tree. -/
theorem Shape.root_tree : {shape : Shape} → {value : Value} → {root : Chunk} →
    shape.root H value = .ok root → (shape.tree value).root H = root
  | .boolean, value, _, h => by
    rw [Shape.root] at h
    rw [Shape.tree]
    exact root_of_basic H rfl h
  | .uint _, value, _, h => by
    rw [Shape.root] at h
    rw [Shape.tree]
    exact root_of_basic H rfl h
  | .byteVector _, value, _, h => by
    cases value with
    | bytes content => exact root_of_packedRoot H h
    | _ => simp [Shape.root] at h
  | .byteList _, value, _, h => by
    cases value with
    | bytes content => exact root_of_withLength H (fun _ => root_of_packedRoot H) h
    | _ => simp [Shape.root] at h
  | .bitvector _, value, _, h => by
    cases value with
    | bits content => exact root_of_packedRoot H h
    | _ => simp [Shape.root] at h
  | .bitlist _, value, _, h => by
    cases value with
    | bits content => exact root_of_withLength H (fun _ => root_of_packedRoot H) h
    | _ => simp [Shape.root] at h
  | .vector element _, value, _, h => by
    cases value with
    | sequence elements =>
      rw [Shape.root] at h
      rw [Shape.tree]
      split at h
      · next hBasic =>
        rw [if_pos hBasic]
        exact root_of_basicSequence H hBasic h
      · next hNested =>
        rw [if_neg hNested]
        exact root_of_nestedSequence H (fun _ _ => Shape.root_tree) h
    | _ => simp [Shape.root] at h
  | .list element _, value, _, h => by
    cases value with
    | sequence elements =>
      rw [Shape.root] at h
      rw [Shape.tree]
      split at h
      · next hBasic =>
        rw [if_pos hBasic]
        exact root_of_withLength H (fun _ => root_of_basicSequence H hBasic) h
      · next hNested =>
        rw [← bind_assoc] at h
        rw [if_neg hNested]
        exact root_of_withLength H
          (fun _ => root_of_nestedSequence H fun _ _ => Shape.root_tree) h
    | _ => simp [Shape.root] at h
  | .container schema, value, _, h => by
    rw [Shape.root_container] at h
    rw [Shape.tree]
    exact Schema.root_tree h

/-- The computed root of a container is that of its tree. -/
theorem Schema.root_tree : {schema : Schema} → {value : Value} → {root : Chunk} →
    schema.root H value = .ok root → (schema.tree value).root H = root
  | ⟨_, fields, _, _, _⟩, value, _, h => by
    cases value with
    | container values =>
      rw [Schema.root] at h
      split at h
      · next hlength =>
        obtain ⟨roots, hroots, hroot⟩ := bind_eq_ok.mp h
        obtain ⟨rfl, hcount⟩ := Field.root_trees hlength hroots
        rw [hcount] at hroot
        exact HashTree.root_limited H hroot
      · simp at h
    | _ => simp [Schema.root] at h

/-- The computed roots of fields are those of their trees, one for each field. -/
theorem Field.root_trees : {fields : List Field} → {values : List Value} →
    values.length = fields.length → {roots : List Chunk} →
    Field.rootAll H fields values = .ok roots →
    (Field.trees fields values).map (HashTree.root H) = roots ∧ roots.length = fields.length
  | [], [], _, _, h => by
    rw [← Except.ok.inj h]
    exact ⟨rfl, rfl⟩
  | ⟨_, shape⟩ :: fields, value :: values, hlength, _, h => by
    simp only [Field.rootAll, bind_eq_ok, pure_eq_ok] at h
    obtain ⟨root, hroot, rest, hrest, rfl⟩ := h
    obtain ⟨hroots, hcount⟩ := Field.root_trees (Nat.succ.inj hlength) hrest
    exact ⟨congrArg₂ List.cons (Shape.root_tree hroot) hroots, congrArg (· + 1) hcount⟩

end

end Roots

section Binding

variable {H : TreeHash}

/-- Lists related element by element are equal if related elements are. -/
theorem eq_of_forall₂ {α : Type} {R : α → α → Prop} {xs ys : List α} (h : List.Forall₂ R xs ys)
    (hR : ∀ x ∈ xs, ∀ y ∈ ys, R x y → x = y) : xs = ys := by
  induction h with
  | nil => rfl
  | cons hxy _ ih =>
    rw [hR _ List.mem_cons_self _ List.mem_cons_self hxy,
      ih fun x hx y hy => hR x (List.mem_cons_of_mem _ hx) y (List.mem_cons_of_mem _ hy)]

/-- A basic value is known by its digits. -/
theorem eq_of_basicDigits {shape : Shape} (hSound : shape.Sound) (hBasic : shape.isBasic = true)
    {value other : Value} (hFits : shape.Fits value) (hOther : shape.Fits other)
    (h : basicDigits shape value = basicDigits shape other) : value = other := by
  have hwrites {value : Value} (hFits : shape.Fits value) :
      shape.Reads (basicDigits shape value) value :=
    (Shape.reads_iff_writes hSound).mpr
      (encode_of_basicBytes (basicBytes_eq_ok hSound hBasic hFits).1)
  have hread := hwrites hFits
  rw [Shape.Reads, h, hwrites hOther, Except.ok.injEq] at hread
  exact hread.symm

/-- Equally many basic values are known by their digits one after the other. -/
theorem eq_of_flatMap_basicDigits {element : Shape} (hSound : element.Sound)
    (hBasic : element.isBasic = true) {elements others : List Value}
    (hFits : ∀ value ∈ elements, element.Fits value)
    (hOthers : ∀ value ∈ others, element.Fits value)
    (h : elements.flatMap (basicDigits element) = others.flatMap (basicDigits element)) :
    elements = others := by
  have hfull := length_of_mem_map_basicDigits hSound hBasic hFits
  have hfull' := length_of_mem_map_basicDigits hSound hBasic hOthers
  have hsize := Shape.slotSize_pos hSound
  have hdigits : elements.map (basicDigits element) = others.map (basicDigits element) := by
    rw [← Bytes.pieces_flatten hsize hfull, ← Bytes.pieces_flatten hsize hfull']
    exact congrArg (Bytes.pieces element.slotSize) h
  rw [← List.forall₂_eq_eq_eq, List.forall₂_map_left_iff, List.forall₂_map_right_iff] at hdigits
  exact eq_of_forall₂ hdigits fun value hvalue other hother =>
    eq_of_basicDigits hSound hBasic (hFits value hvalue) (hOthers other hother)

/-- Basic values whose trees agree are equal. -/
theorem eq_of_agree_basic {shape : Shape} (hSound : shape.Sound) (hBasic : shape.isBasic = true)
    {value other : Value} (hFits : shape.Fits value) (hOther : shape.Fits other)
    (h : HashTree.Agree H (.packed (basicDigits shape value) 1)
      (.packed (basicDigits shape other) 1)) : value = other := by
  have hlength := (basicBytes_eq_ok hSound hBasic hFits).2
  have hsize := Shape.slotSize_le_of_isBasic hSound hBasic
  refine eq_of_basicDigits hSound hBasic hFits hOther (h.packed_eq ?_ ?_)
  · rw [hlength, (basicBytes_eq_ok hSound hBasic hOther).2]
  · rw [hlength, Nat.ceilDiv_eq_add_pred_div]
    omega

/-- Bit strings of one length whose trees agree are equal. -/
theorem eq_of_agree_bits {bits others : List Bool} {length : Nat}
    (h : HashTree.Agree H (.packed (Bits.pack bits) (length ⌈/⌉ 256))
      (.packed (Bits.pack others) (length ⌈/⌉ 256)))
    (hlength : bits.length = others.length) (hroom : bits.length ≤ length) : bits = others := by
  have hpack : Bits.pack bits = Bits.pack others := by
    refine h.packed_eq ?_ ?_
    · rw [Bits.length_pack, Bits.length_pack, hlength]
    · rw [Bits.length_pack, Nat.ceilDiv_eq_add_pred_div, Nat.ceilDiv_eq_add_pred_div]
      omega
  rw [← (Bits.pack_eq_iff_take_drop.mp hpack).2.1, hlength]
  exact (Bits.pack_eq_iff_take_drop.mp rfl).2.1

/-- Byte strings of one length whose trees agree are equal. -/
theorem eq_of_agree_bytes {bytes others : Bytes} {length : Nat}
    (h : HashTree.Agree H (.packed bytes (length ⌈/⌉ 32)) (.packed others (length ⌈/⌉ 32)))
    (hlength : bytes.length = others.length) (hroom : bytes.length ≤ length) :
    bytes = others := by
  refine h.packed_eq hlength ?_
  rw [Nat.ceilDiv_eq_add_pred_div, Nat.ceilDiv_eq_add_pred_div]
  omega

/-- Equally many basic values whose trees agree are equal. -/
theorem eq_of_agree_basicSequence {element : Shape} (hSound : element.Sound)
    (hBasic : element.isBasic = true) {elements others : List Value}
    (hFits : ∀ value ∈ elements, element.Fits value)
    (hOthers : ∀ value ∈ others, element.Fits value) {capacity : Nat}
    (hlength : elements.length = others.length) (hroom : elements.length ≤ capacity)
    (h : HashTree.Agree H
      (.packed (elements.flatMap (basicDigits element)) (capacity * element.slotSize ⌈/⌉ 32))
      (.packed (others.flatMap (basicDigits element)) (capacity * element.slotSize ⌈/⌉ 32))) :
    elements = others := by
  have hcount := length_flatMap_basicDigits hSound hBasic hFits
  refine eq_of_flatMap_basicDigits hSound hBasic hFits hOthers (eq_of_agree_bytes h ?_ ?_)
  · rw [hcount, length_flatMap_basicDigits hSound hBasic hOthers, hlength]
  · rw [hcount]
    exact Nat.mul_le_mul_right _ hroom

/-- Equally many values whose trees agree are equal. -/
theorem eq_of_agree_nestedSequence {element : Shape} {elements others : List Value}
    {capacity : Nat}
    (ih : ∀ value ∈ elements, ∀ other ∈ others,
      HashTree.Agree H (element.tree value) (element.tree other) → value = other)
    (hlength : elements.length = others.length) (hroom : elements.length ≤ capacity)
    (h : HashTree.Agree H (.limited (elements.map element.tree) capacity)
      (.limited (others.map element.tree) capacity)) :
    elements = others := by
  have hparts := h.limited_parts (by simpa using hlength) (by simpa using hroom)
  rw [List.forall₂_map_left_iff, List.forall₂_map_right_iff] at hparts
  exact eq_of_forall₂ hparts ih

namespace Shape

variable {value : Value}

/-- A byte string fits if it has the given length. -/
theorem fits_byteVector {length : UInt64} :
    (byteVector length).Fits value ↔
      ∃ content, value = .bytes content ∧ content.length = length.toNat := by
  cases value <;> simp [Fits]

/-- A byte string fits if it is within the limit. -/
theorem fits_byteList {limit : UInt64} :
    (byteList limit).Fits value ↔
      ∃ content, value = .bytes content ∧ content.length ≤ limit.toNat := by
  cases value <;> simp [Fits]

/-- A bit string fits if it has the given length. -/
theorem fits_bitvector {length : UInt64} :
    (bitvector length).Fits value ↔
      ∃ content, value = .bits content ∧ content.length = length.toNat := by
  cases value <;> simp [Fits]

/-- A bit string fits if it is within the limit. -/
theorem fits_bitlist {limit : UInt64} :
    (bitlist limit).Fits value ↔
      ∃ content, value = .bits content ∧ content.length ≤ limit.toNat := by
  cases value <;> simp [Fits]

/-- A sequence fits if it has the given length and its elements fit. -/
theorem fits_vector {element : Shape} {length : UInt64} :
    (vector element length).Fits value ↔
      ∃ elements, value = .sequence elements ∧ elements.length = length.toNat ∧
        ∀ value ∈ elements, element.Fits value := by
  cases value <;> simp [Fits]

/-- A sequence fits if it is within the limit and its elements fit. -/
theorem fits_list {element : Shape} {limit : UInt64} :
    (list element limit).Fits value ↔
      ∃ elements, value = .sequence elements ∧ elements.length ≤ limit.toNat ∧
        ∀ value ∈ elements, element.Fits value := by
  cases value <;> simp [Fits]

end Shape

mutual

/-- Values that fit one shape and whose trees agree are equal. -/
theorem Shape.eq_of_agree : {shape : Shape} → shape.Sound → {value other : Value} →
    shape.Fits value → shape.Fits other →
    HashTree.Agree H (shape.tree value) (shape.tree other) → value = other
  | .boolean, hSound, _, _, hFits, hOther, h => by
    rw [Shape.tree, Shape.tree] at h
    exact eq_of_agree_basic hSound rfl hFits hOther h
  | .uint _, hSound, _, _, hFits, hOther, h => by
    rw [Shape.tree, Shape.tree] at h
    exact eq_of_agree_basic hSound rfl hFits hOther h
  | .byteVector length, _, _, _, hFits, hOther, h => by
    obtain ⟨content, rfl, hlength⟩ := Shape.fits_byteVector.mp hFits
    obtain ⟨content', rfl, hlength'⟩ := Shape.fits_byteVector.mp hOther
    exact congrArg Value.bytes (eq_of_agree_bytes h (hlength.trans hlength'.symm) hlength.le)
  | .byteList limit, _, _, _, hFits, hOther, h => by
    obtain ⟨content, rfl, hlength⟩ := Shape.fits_byteList.mp hFits
    obtain ⟨content', rfl, hlength'⟩ := Shape.fits_byteList.mp hOther
    have hword := limit.toNat_lt
    obtain ⟨hcontent, hsame⟩ :=
      HashTree.Agree.withLength_eq (hlength.trans_lt hword) (hlength'.trans_lt hword) h
    exact congrArg Value.bytes (eq_of_agree_bytes hcontent hsame hlength)
  | .bitvector length, _, _, _, hFits, hOther, h => by
    obtain ⟨content, rfl, hlength⟩ := Shape.fits_bitvector.mp hFits
    obtain ⟨content', rfl, hlength'⟩ := Shape.fits_bitvector.mp hOther
    exact congrArg Value.bits (eq_of_agree_bits h (hlength.trans hlength'.symm) hlength.le)
  | .bitlist limit, _, _, _, hFits, hOther, h => by
    obtain ⟨content, rfl, hlength⟩ := Shape.fits_bitlist.mp hFits
    obtain ⟨content', rfl, hlength'⟩ := Shape.fits_bitlist.mp hOther
    have hword := limit.toNat_lt
    obtain ⟨hcontent, hsame⟩ :=
      HashTree.Agree.withLength_eq (hlength.trans_lt hword) (hlength'.trans_lt hword) h
    exact congrArg Value.bits (eq_of_agree_bits hcontent hsame hlength)
  | .vector element length, ⟨_, hElement, _⟩, _, _, hFits, hOther, h => by
    obtain ⟨elements, rfl, hlength, hAll⟩ := Shape.fits_vector.mp hFits
    obtain ⟨others, rfl, hlength', hAll'⟩ := Shape.fits_vector.mp hOther
    rw [Shape.tree, Shape.tree] at h
    refine congrArg Value.sequence ?_
    cases hBasic : element.isBasic with
    | true =>
      rw [if_pos hBasic, if_pos hBasic] at h
      exact eq_of_agree_basicSequence hElement hBasic hAll hAll' (hlength.trans hlength'.symm)
        hlength.le h
    | false =>
      rw [if_neg (by simp [hBasic]), if_neg (by simp [hBasic])] at h
      refine eq_of_agree_nestedSequence (fun value hvalue other hother => ?_)
        (hlength.trans hlength'.symm) hlength.le h
      exact Shape.eq_of_agree hElement (hAll value hvalue) (hAll' other hother)
  | .list element limit, ⟨hElement, _⟩, _, _, hFits, hOther, h => by
    obtain ⟨elements, rfl, hlength, hAll⟩ := Shape.fits_list.mp hFits
    obtain ⟨others, rfl, hlength', hAll'⟩ := Shape.fits_list.mp hOther
    have hword := limit.toNat_lt
    rw [Shape.tree, Shape.tree] at h
    obtain ⟨h, hsame⟩ :=
      HashTree.Agree.withLength_eq (hlength.trans_lt hword) (hlength'.trans_lt hword) h
    refine congrArg Value.sequence ?_
    cases hBasic : element.isBasic with
    | true =>
      rw [if_pos hBasic, if_pos hBasic] at h
      exact eq_of_agree_basicSequence hElement hBasic hAll hAll' hsame hlength h
    | false =>
      rw [if_neg (by simp [hBasic]), if_neg (by simp [hBasic])] at h
      refine eq_of_agree_nestedSequence (fun value hvalue other hother => ?_) hsame hlength h
      exact Shape.eq_of_agree hElement (hAll value hvalue) (hAll' other hother)
  | .container schema, hSound, _, _, hFits, hOther, h => by
    rw [Shape.tree, Shape.tree] at h
    exact Schema.eq_of_agree hSound hFits hOther h

/-- Containers that fit one schema and whose trees agree are equal. -/
theorem Schema.eq_of_agree : {schema : Schema} → schema.Sound → {value other : Value} →
    schema.Fits value → schema.Fits other →
    HashTree.Agree H (schema.tree value) (schema.tree other) → value = other
  | ⟨_, fields, _, _, _⟩, ⟨_, _, hFields, _⟩, .container values, .container others, hFits, hOther,
      h => by
    have hcount := Field.length_trees hFits
    have hparts := h.limited_parts (hcount.trans (Field.length_trees hOther).symm) hcount.le
    exact congrArg Value.container (Field.eq_of_agree hFields hFits hOther hparts)

/-- Values that fit fields and whose trees agree are equal. -/
theorem Field.eq_of_agree : {fields : List Field} → Field.AllSound fields →
    {values others : List Value} → Field.AllFit fields values → Field.AllFit fields others →
    List.Forall₂ (HashTree.Agree H) (Field.trees fields values) (Field.trees fields others) →
    values = others
  | [], _, [], [], _, _, _ => rfl
  | ⟨_, _⟩ :: _, ⟨hShape, hFields⟩, _ :: _, _ :: _, ⟨hFits, hAll⟩, ⟨hOther, hAll'⟩, h => by
    obtain ⟨hvalue, hrest⟩ := List.forall₂_cons.mp h
    rw [Shape.eq_of_agree hShape hFits hOther hvalue, Field.eq_of_agree hFields hAll hAll' hrest]

end

/-- Roots commit to whole values: if two different valid values have the same root, then this is
the root of the trees of both, and an input of 64 bytes hashed in the one tree and a different
input hashed in the other have the same digest. -/
theorem Schema.collision_of_root_eq (H : TreeHash) {schema : Schema} (hDrawn : schema.Drawn)
    {value other : Value} (hValid : schema.validate value = .ok ())
    (hOther : schema.validate other = .ok ()) {root : Chunk}
    (hRoot : schema.root H value = .ok root) (hOtherRoot : schema.root H other = .ok root)
    (hne : value ≠ other) :
    (schema.tree value).root H = root ∧ (schema.tree other).root H = root ∧
      HashTree.Collision H (schema.tree value) (schema.tree other) := by
  have hTree := Schema.root_tree H hRoot
  have hOtherTree := Schema.root_tree H hOtherRoot
  refine ⟨hTree, hOtherTree, ?_⟩
  by_contra hcollision
  exact hne (Schema.eq_of_agree (sound_of_drawn hDrawn) ((validate_eq_ok hDrawn).mp hValid)
    ((validate_eq_ok hDrawn).mp hOther) ⟨hTree.trans hOtherTree.symm, hcollision⟩)

/-- Trees in which all pairs of nodes have the same digest. -/
def TreeHash.constant : TreeHash where
  combine _ _ := Chunk.zero
  zeroRoot _ := Chunk.zero
  zeroRoot_zero := rfl
  zeroRoot_succ _ := rfl

/-- The value of the example with a bit more, which is zero. -/
def longerValue : Value :=
  .container [.boolean true, .sequence [.bytes [1, 2], .bytes []],
    .bits [true, false, true, false], .container [.uint 258, .bits [true, true, false]]]

/-- A zero bit more leaves the root as it is only where inputs collide. -/
theorem Schema.collision_longerValue :
    outerExample.validate outerValue = .ok () ∧ outerExample.validate longerValue = .ok () ∧
      outerExample.root TreeHash.constant outerValue = .ok Chunk.zero ∧
      outerExample.root TreeHash.constant longerValue = .ok Chunk.zero ∧
      outerValue ≠ longerValue ∧
      HashTree.Collision TreeHash.constant (outerExample.tree outerValue)
        (outerExample.tree longerValue) := by
  have hValid : outerExample.validate outerValue = .ok () := by decide +kernel
  have hOther : outerExample.validate longerValue = .ok () := by decide +kernel
  have hRoot : outerExample.root TreeHash.constant outerValue = .ok Chunk.zero := by rfl
  have hOtherRoot : outerExample.root TreeHash.constant longerValue = .ok Chunk.zero := by rfl
  have hne : outerValue ≠ longerValue := by simp [outerValue, longerValue]
  exact ⟨hValid, hOther, hRoot, hOtherRoot, hne,
    (Schema.collision_of_root_eq TreeHash.constant outerExample_drawn hValid hOther hRoot
      hOtherRoot hne).2.2⟩

end Binding

end BeaconSsz

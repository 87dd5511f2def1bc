import BeaconSsz.Hash.Tree
import BeaconSsz.Proofs.Bits
import Mathlib.Algebra.BigOperators.Ring.List
import Mathlib.Algebra.Order.Floor.Div
import Mathlib.GroupTheory.GroupAction.Ring

/-!
# Packing into chunks

The reference for packing names every byte by its place: byte `i` of a number is its digit of
`256 ^ i`, byte `i` of a bit string is made of its bits from `8 * i` on, and chunk `i` of a byte
string is made of its bytes from `32 * i` on, with zeros for what is past the end. Cutting strings
into pieces from the front gives the same bytes and the same chunks.
-/

namespace BeaconSsz

/-- The lowest digits of a number to the base 256, each in one byte. -/
def digits (count n : Nat) : Bytes :=
  (List.range count).map fun i => UInt8.ofNat (n / 256 ^ i % 256)

/-- The byte of a bit string at an index: bit `i` of it has the weight `2 ^ i`. -/
def bitByteAt (bits : List Bool) (index : Nat) : UInt8 :=
  UInt8.ofNat ((List.range 8).map fun i =>
    if bits.getD (8 * index + i) false then 2 ^ i else 0).sum

/-- The bytes that hold the bits of a string. -/
def bitBytes (bits : List Bool) : Bytes :=
  (List.range (bits.length ⌈/⌉ 8)).map (bitByteAt bits)

/-- The chunk of a byte string at an index, with zeros for what is past the end. -/
def chunkAt (bytes : Bytes) (index : Nat) : Chunk :=
  ⟨(List.range 32).map fun i => bytes.getD (32 * index + i) 0, by simp⟩

/-- The chunks that hold the bytes of a string. -/
def chunksOf (bytes : Bytes) : List Chunk :=
  (List.range (bytes.length ⌈/⌉ 32)).map (chunkAt bytes)

/-- The chunk of a length as an integer of 32 bytes. -/
def lengthChunk (length : Nat) : Chunk :=
  ⟨digits 32 length, by simp [digits]⟩

/-- A chunk is known by its bytes. -/
theorem Chunk.eq_of_bytes {chunk other : Chunk} (h : chunk.bytes = other.bytes) :
    chunk = other := by
  cases chunk
  cases other
  rwa [Chunk.mk.injEq]

/-- The bytes of a chunk lie in the string from its place on. -/
theorem bytes_chunkAt (bytes : Bytes) (index : Nat) :
    (chunkAt bytes index).bytes = (List.range 32).map fun i => bytes.getD (32 * index + i) 0 :=
  rfl

/-- The bytes of the chunk of a length are its digits. -/
theorem bytes_lengthChunk (length : Nat) : (lengthChunk length).bytes = digits 32 length :=
  rfl

/-- Pieces are counted by the quotient rounded up. -/
theorem pieceCount_eq_ceilDiv {size : Nat} (hsize : 0 < size) (count : Nat) :
    Bytes.pieceCount count size = count ⌈/⌉ size := by
  rw [Bytes.pieceCount, Nat.ceilDiv_eq_add_pred_div, Nat.add_sub_assoc hsize]

/-- A piece is what lies from its place on. -/
theorem pieces_eq_map_range {α : Type} {size : Nat} (hsize : 0 < size) (xs : List α) :
    Bytes.pieces size xs =
      (List.range (xs.length ⌈/⌉ size)).map fun i => (xs.drop (size * i)).take size := by
  rw [← pieceCount_eq_ceilDiv hsize]
  induction xs using Bytes.pieces_induction hsize with
  | nil => simp
  | cut xs hxs ih =>
    have hcount := Bytes.pieceCount_eq_succ hsize (List.length_pos_iff.mpr hxs)
    rw [Bytes.pieces_of_ne_nil hsize hxs, ih, hcount, List.range_succ_eq_map, List.map_cons,
      List.map_map, List.length_drop]
    simp only [Nat.mul_zero, List.drop_zero, List.drop_drop, Function.comp_def, Nat.mul_succ,
      Nat.add_comm]

/-- A short string padded to a number of elements has these elements at its places. -/
theorem take_append_replicate_eq_map_range {α : Type} {size : Nat} (xs : List α) (fill : α) :
    (xs ++ List.replicate size fill).take size = (List.range size).map fun i => xs.getD i fill := by
  apply List.ext_getElem
  · simp
  · intro i hi _
    rw [List.getElem_take, List.getElem_map, List.getElem_range]
    by_cases h : i < xs.length
    · rw [List.getElem_append_left h, List.getD_eq_getElem _ _ h]
    · rw [List.getElem_append_right (by omega), List.getElem_replicate,
        List.getD_eq_default _ _ (by omega)]

/-- What lies at a place of a piece. -/
theorem getD_take_drop {α : Type} {size start i : Nat} (hi : i < size) (xs : List α) (fill : α) :
    ((xs.drop start).take size).getD i fill = xs.getD (start + i) fill := by
  simp only [List.getD_eq_getElem?_getD, List.getElem?_take, if_pos hi, List.getElem?_drop]

/-- Cutting into pieces gives the chunks at all indices. -/
theorem pack_eq_chunksOf (bytes : Bytes) : Chunk.pack bytes = chunksOf bytes := by
  rw [Chunk.pack, chunksOf, pieces_eq_map_range (by decide), List.map_map]
  refine List.map_congr_left fun index _ => Chunk.eq_of_bytes ?_
  rw [Function.comp_apply, Chunk.bytes_ofBytes, Bytes.zeros, take_append_replicate_eq_map_range,
    bytes_chunkAt]
  refine List.map_congr_left fun i hi => ?_
  exact getD_take_drop (List.mem_range.mp hi) _ _

/-- The number of binary digits is the sum of their weights. -/
theorem toNat_eq_sum {bits : List Bool} (count : Nat) (h : bits.length ≤ count) :
    Bits.toNat bits =
      ((List.range count).map fun i => if bits.getD i false then 2 ^ i else 0).sum := by
  induction count generalizing bits with
  | zero =>
    rw [List.length_eq_zero_iff.mp (Nat.le_zero.mp h)]
    rfl
  | succ count ih =>
    rw [List.range_succ_eq_map, List.map_cons, List.map_map, List.sum_cons]
    cases bits with
    | nil => simp [Bits.toNat, Function.comp_def]
    | cons bit bits =>
      have hdouble (i : Nat) : (if bits.getD i false then 2 ^ (i + 1) else 0) =
          2 * (if bits.getD i false then 2 ^ i else 0) := by
        split <;> ring
      simp only [Function.comp_def, List.getD_cons_succ, hdouble, List.sum_map_mul_left,
        ← ih (Nat.le_of_succ_le_succ h)]
      cases bit <;> simp [Bits.toNat]

/-- Packing bits eight at a time gives the bytes at all indices. -/
theorem pack_eq_bitBytes (bits : List Bool) : Bits.pack bits = bitBytes bits := by
  rw [Bits.pack, bitBytes, pieces_eq_map_range (by decide), List.map_map]
  refine List.map_congr_left fun index _ => ?_
  rw [Function.comp_apply, bitByteAt]
  change UInt8.ofNat (Bits.toNat _) = _
  rw [toNat_eq_sum 8 (by simp)]
  congr 2
  refine List.map_congr_left fun i hi => ?_
  rw [getD_take_drop (List.mem_range.mp hi)]

/-- Dividing off one byte after the other gives the digits. -/
theorem littleEndian_eq_digits (width n : Nat) : Bytes.littleEndian width n = digits width n := by
  induction width generalizing n with
  | zero => rfl
  | succ width ih =>
    rw [Bytes.littleEndian, ih, digits, digits, List.range_succ_eq_map, List.map_cons,
      List.map_map, Nat.pow_zero, Nat.div_one]
    simp only [Function.comp_def, Nat.pow_succ', Nat.div_div_eq_div_mul]

/-- The length behind a root is an integer of 32 bytes. -/
theorem mixInLength_eq (H : TreeHash) (root : Chunk) {length : Nat} (h : length < 2 ^ 64) :
    mixInLength H root length = H.combine root (lengthChunk length) := by
  have hbytes : Chunk.ofBytes (Bytes.littleEndian 8 length) = lengthChunk length := by
    apply Chunk.eq_of_bytes
    rw [Chunk.bytes_ofBytes, Bytes.zeros, take_append_replicate_eq_map_range,
      bytes_lengthChunk, littleEndian_eq_digits, digits.eq_1 32]
    refine List.map_congr_left fun i _ => ?_
    by_cases hi : i < 8
    · rw [List.getD_eq_getElem _ _ (by simpa [digits] using hi)]
      simp [digits]
    · have hzero : length / 256 ^ i = 0 := by
        refine Nat.div_eq_of_lt (h.trans_le ?_)
        calc 2 ^ 64 = 256 ^ 8 := by norm_num
          _ ≤ 256 ^ i := Nat.pow_le_pow_right (by decide) (by omega)
      rw [List.getD_eq_default _ _ (by simpa [digits] using Nat.not_lt.mp hi), hzero]
      rfl
  rw [mixInLength, hbytes]

/-- The chunks of a string are counted by the quotient rounded up. -/
theorem length_chunksOf (bytes : Bytes) : (chunksOf bytes).length = bytes.length ⌈/⌉ 32 := by
  simp [chunksOf]

end BeaconSsz

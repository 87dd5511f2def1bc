import BeaconSsz.Proofs.Wire.TrapFree

/-!
# Bits at their places

Bits are packed eight at a time from the front. Told by places, bit `i` of a string is bit `i % 8`
of byte `i / 8`, and no other bit is set. That leaves one byte string for each bit string, and a
delimiter behind the last bit makes the length a part of it, in a byte of its own if the bits fill
whole bytes. Reading accepts these byte strings and no others.
-/

namespace BeaconSsz

namespace Bits

/-- The bit of a byte string at a place, least significant first in each byte. Behind the bytes
no bit is set. -/
def bitAt (bytes : Bytes) (place : Nat) : Bool :=
  (bytes.getD (place / 8) 0).toNat.testBit (place % 8)

/-- The bytes are as many as hold the bits, each bit is at its place, and no other bit is set. -/
structure Placed (bits : List Bool) (bytes : Bytes) : Prop where
  length_eq : bytes.length = (bits.length + 7) / 8
  bitAt_eq (place : Nat) : bitAt bytes place = bits.getD place false

/-- The bits of bytes in a row are those at their places. -/
theorem getD_flatMap_ofByte (bytes : Bytes) (place : Nat) :
    (bytes.flatMap ofByte).getD place false = bitAt bytes place := by
  induction bytes generalizing place with
  | nil => simp [bitAt]
  | cons byte bytes ih =>
    rw [List.flatMap_cons]
    by_cases h : place < 8
    · rw [List.getD_append _ _ _ _ (by simpa using h), bitAt, Nat.div_eq_of_lt h,
        Nat.mod_eq_of_lt h]
      simp [ofByte, h]
    · obtain ⟨place, rfl⟩ := Nat.exists_eq_add_of_le' (Nat.not_lt.mp h)
      rw [List.getD_append_right _ _ _ _ (by simp), length_ofByte, Nat.add_sub_cancel, ih, bitAt,
        bitAt, Nat.add_mod_right, Nat.add_div_right _ (by decide), List.getD_cons_succ]

/-- Zeros behind a string do not show at any place. -/
theorem getD_append_replicate_false (bits : List Bool) (padding place : Nat) :
    (bits ++ List.replicate padding false).getD place false = bits.getD place false := by
  by_cases h : place < bits.length
  · rw [List.getD_append _ _ _ _ h]
  · rw [List.getD_append_right _ _ _ _ (Nat.not_lt.mp h), List.getD_eq_getElem?_getD,
      List.getElem?_getD_replicate_default_eq, List.getD_eq_default _ _ (Nat.not_lt.mp h)]

/-- Packing puts each bit at its place. -/
theorem placed_pack (bits : List Bool) : Placed bits (pack bits) := by
  refine ⟨length_pack bits, fun place => ?_⟩
  obtain ⟨padding, -, h⟩ := exists_flatMap_ofByte_pack bits
  rw [← getD_flatMap_ofByte, h, getD_append_replicate_false]

/-- Bits have their places in one byte string only. -/
theorem Placed.unique {bits : List Bool} {bytes others : Bytes} (h : Placed bits bytes)
    (h' : Placed bits others) : bytes = others := by
  apply flatMap_ofByte_injective
  apply List.ext_getElem
  · rw [length_flatMap_ofByte, length_flatMap_ofByte, h.length_eq, h'.length_eq]
  · intro place hplace hplace'
    rw [← List.getD_eq_getElem _ false hplace, ← List.getD_eq_getElem _ false hplace',
      getD_flatMap_ofByte, getD_flatMap_ofByte, h.bitAt_eq, h'.bitAt_eq]

/-- The packing of bits is the byte string that has each bit at its place. -/
theorem eq_pack_iff_placed {bits : List Bool} {bytes : Bytes} :
    bytes = pack bits ↔ Placed bits bytes := by
  apply Iff.intro
  · intro heq
    exact heq ▸ placed_pack bits
  · intro h
    exact h.unique (placed_pack bits)

/-- The number of bits in a string is less than the number of bits in its delimited packing. -/
theorem length_lt_of_packDelimited (bits : List Bool) :
    bits.length < 8 * (packDelimited bits).length := by
  rw [packDelimited, length_pack, List.length_append, List.length_singleton]
  omega

end Bits

/-- Bit strings are read exactly as they are packed. A string of at most so many bits is read from
the bytes that pack it with its delimiter, and a string of a number of bits whose bytes can be
counted is read from the bytes that pack it, both from these bytes alone. They are the bytes with
each bit at its place, behind the last one the delimiter if there is one, and no other bit set. -/
theorem bits_read_as_packed {bytes : Bytes} (hbytes : bytes.length < readableLength)
    (bits : List Bool) :
    (∀ limit, decodeBitlist bytes limit = .ok bits ↔
        bits.length ≤ limit ∧ bytes = Bits.packDelimited bits) ∧
      (∀ length size, bytesForBits length = .ok size →
        (decodeBitvector bytes length = .ok bits ↔
          bits.length = length ∧ bytes = Bits.pack bits)) ∧
      (bytes = Bits.packDelimited bits ↔ Bits.Placed (bits ++ [true]) bytes) ∧
      (bytes = Bits.pack bits ↔ Bits.Placed bits bytes) := by
  refine ⟨fun limit => ?_, fun length size hsize => ?_, Bits.eq_pack_iff_placed,
    Bits.eq_pack_iff_placed⟩
  · rw [decodeBitlist_eq_ok_iff, eq_comm (a := bytes)]
    refine and_iff_right_of_imp fun h => ?_
    have hreadable : 8 * readableLength = wordLimit := rfl
    have hlength := Bits.length_lt_of_packDelimited bits
    rw [h.2] at hlength
    omega
  · obtain ⟨padded, hpadded, -⟩ := bind_eq_ok.mp hsize
    rw [decodeBitvector_eq_ok (Word.add_eq_ok.mp hpadded).1, eq_comm (a := bytes)]

/-- Eight bits are packed in one byte, and their delimiter opens a second one. Nine bits of given
length, the last of them set, are packed in the same bytes. -/
theorem bits_read_from_two_bytes :
    ([5, 1] : Bytes).length < readableLength ∧
      decodeBitlist [5, 1] 8 = .ok [true, false, true, false, false, false, false, false] ∧
      bytesForBits 9 = .ok 2 ∧
      decodeBitvector [5, 1] 9 = .ok [true, false, true, false, false, false, false, false, true] ∧
      Bits.Placed [true, false, true, false, false, false, false, false, true] [5, 1] := by
  have hbytes : ([5, 1] : Bytes).length < readableLength := by decide
  obtain ⟨hlist, -, hdelimited, -⟩ := bits_read_as_packed hbytes
    [true, false, true, false, false, false, false, false]
  obtain ⟨-, hvector, -, -⟩ := bits_read_as_packed hbytes
    [true, false, true, false, false, false, false, false, true]
  exact ⟨hbytes, (hlist 8).mpr ⟨by decide, by decide⟩, rfl,
    (hvector 9 2 rfl).mpr ⟨by decide, by decide⟩, hdelimited.mp (by decide)⟩

end BeaconSsz

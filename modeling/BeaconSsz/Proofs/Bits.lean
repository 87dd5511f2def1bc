import BeaconSsz.Bits
import BeaconSsz.Proofs.Bytes
import Mathlib.Data.List.GetD
import Mathlib.Tactic.Positivity

/-!
# Packed bit strings

Bytes are the packing of a bit string exactly when their bits are the string followed by fewer
than eight zeros. Everything about reading bit strings follows from this equation between lists:
a byte has no other bits, and the zeros are what remains of the last byte.
-/

namespace BeaconSsz.Bits

/-- A byte has eight bits. -/
@[simp] theorem length_ofByte (byte : UInt8) : (ofByte byte).length = 8 := by
  simp [ofByte]

/-- The number whose binary digits are given, least significant first. -/
def toNat (bits : List Bool) : Nat :=
  bits.foldr (fun bit n => bit.toNat + 2 * n) 0

/-- A digit more doubles the bound of a number. -/
theorem toNat_lt (bits : List Bool) : toNat bits < 2 ^ bits.length := by
  induction bits with
  | nil => simp [toNat]
  | cons bit bits ih =>
    have hbit := bit.toNat_le
    change bit.toNat + 2 * toNat bits < 2 ^ (bits.length + 1)
    rw [pow_succ]
    omega

/-- The digits of a number are those it was given, and zeros behind them. -/
theorem testBit_toNat (bits : List Bool) (i : Nat) :
    (toNat bits).testBit i = bits.getD i false := by
  induction bits generalizing i with
  | nil => simp [toNat]
  | cons bit bits ih =>
    change (bit.toNat + 2 * toNat bits).testBit i = _
    cases i with
    | zero => cases bit <;> simp [Nat.testBit_zero]
    | succ i =>
      rw [Nat.testBit_succ, List.getD_cons_succ, ← ih]
      congr 1
      have hbit := bit.toNat_le
      omega

/-- A byte made of up to eight bits has these bits, and zeros behind them. -/
theorem ofByte_toByte {bits : List Bool} (hbits : bits.length ≤ 8) :
    ofByte (toByte bits) = bits ++ List.replicate (8 - bits.length) false := by
  have small : toNat bits < 256 :=
    (toNat_lt bits).trans_le (Nat.pow_le_pow_right (by decide) hbits)
  have value : (toByte bits).toNat = toNat bits := by
    change (UInt8.ofNat (toNat bits)).toNat = _
    rw [UInt8.toNat_ofNat', Nat.mod_eq_of_lt small]
  apply List.ext_getElem
  · simp
    omega
  · intro i hi _
    simp only [ofByte, List.getElem_map, List.getElem_range, value, testBit_toNat]
    by_cases h : i < bits.length
    · rw [List.getElem_append_left h, List.getD_eq_getElem _ _ h]
    · rw [List.getElem_append_right (by omega), List.getElem_replicate,
        List.getD_eq_default _ _ (by omega)]

/-- A byte is known by its bits. -/
theorem ofByte_injective : Function.Injective ofByte := by
  intro byte other h
  have bit (i : Nat) : byte.toNat.testBit i = other.toNat.testBit i := by
    by_cases hi : i < 8
    · have := congrArg (·[i]?) h
      simpa [ofByte, hi] using this
    · have high (byte : UInt8) : byte.toNat.testBit i = false :=
        Nat.testBit_lt_two_pow
          (byte.toNat_lt.trans_le (Nat.pow_le_pow_right (by decide) (by omega : 8 ≤ i)))
      rw [high, high]
  exact UInt8.toNat_inj.mp (Nat.eq_of_testBit_eq bit)

/-- The bits of a byte from a place on. -/
theorem drop_ofByte (byte : UInt8) (start : Nat) :
    (ofByte byte).drop start =
      (List.range (8 - start)).map fun i => byte.toNat.testBit (start + i) := by
  apply List.ext_getElem <;> simp [ofByte]

/-- Nothing remains of a byte shifted by some places exactly when its bits from there on are
zero. -/
theorem shiftRight_eq_zero_iff (byte : UInt8) (start : Nat) :
    byte.toNat >>> start = 0 ↔
      (ofByte byte).drop start = List.replicate (8 - start) false := by
  rw [drop_ofByte, List.eq_replicate_iff]
  simp only [List.length_map, List.length_range, true_and, List.forall_mem_map, List.mem_range]
  apply Iff.intro
  · intro h i _
    rw [← Nat.testBit_shiftRight, h, Nat.zero_testBit]
  · intro h
    apply Nat.eq_of_testBit_eq
    intro i
    rw [Nat.testBit_shiftRight, Nat.zero_testBit]
    by_cases hi : i < 8 - start
    · exact h i hi
    · exact Nat.testBit_lt_two_pow
        (byte.toNat_lt.trans_le (Nat.pow_le_pow_right (by decide) (by omega)))

/-- The highest set bit of a byte is at a place exactly when the bits from there on are a set bit
and zeros. -/
theorem log2_eq_iff (byte : UInt8) {place : Nat} (hplace : place < 8) :
    byte ≠ 0 ∧ byte.toNat.log2 = place ↔
      (ofByte byte).drop place = true :: List.replicate (7 - place) false := by
  have zero_iff : byte.toNat = 0 ↔ byte = 0 := by
    rw [← UInt8.toNat_zero, UInt8.toNat_inj]
  have split : (ofByte byte).drop place =
      byte.toNat.testBit place :: (ofByte byte).drop (place + 1) := by
    rw [drop_ofByte, drop_ofByte, show 8 - place = 8 - (place + 1) + 1 by omega,
      List.range_succ_eq_map]
    simp only [List.map_cons, List.map_map, Nat.add_zero]
    congr 2
    funext i
    simp only [Function.comp_apply]
    congr 1
    omega
  rw [split, List.cons.injEq, show 7 - place = 8 - (place + 1) by omega, ← shiftRight_eq_zero_iff,
    Nat.shiftRight_eq_div_pow, Nat.div_eq_zero_iff_lt (by positivity)]
  apply Iff.intro
  · intro h
    obtain ⟨hbyte, rfl⟩ := h
    exact ⟨Nat.testBit_log2 (mt zero_iff.mp hbyte), Nat.lt_log2_self⟩
  · intro h
    obtain ⟨hbit, hlt⟩ := h
    have hle := Nat.ge_two_pow_of_testBit hbit
    have hpos : byte.toNat ≠ 0 := by
      have : 0 < 2 ^ place := by positivity
      omega
    exact ⟨mt zero_iff.mpr hpos, (Nat.log2_eq_iff hpos).mpr ⟨hle, hlt⟩⟩

/-- The leading zeros of a word end at its highest set bit. -/
theorem log2_add_clz {width : Nat} {word : BitVec width} (h : word ≠ 0) :
    word.toNat.log2 + word.clz.toNat + 1 = width := by
  have hzeros : word.clz.toNat < width := by
    have hlt := BitVec.lt_def.mp (BitVec.clz_lt_iff_ne_zero.mpr h)
    rwa [BitVec.natCast_eq_ofNat, BitVec.toNat_ofNat, Nat.mod_eq_of_lt Nat.lt_two_pow_self] at hlt
  have hword : word.toNat ≠ 0 := fun hzero => h (BitVec.eq_of_toNat_eq hzero)
  have hplace : width - 1 - word.clz.toNat + 1 = width - word.clz.toNat := by omega
  have hlog : word.toNat.log2 = width - 1 - word.clz.toNat := by
    rw [Nat.log2_eq_iff hword, hplace]
    exact ⟨BitVec.two_pow_sub_clz_le_toNat_of_ne_zero (by omega) h,
      BitVec.toNat_lt_two_pow_sub_clz⟩
  omega

/-- The place of the delimiter in its byte, from the leading zeros of the byte. -/
theorem log2_eq_sub_clz {byte : UInt8} (h : byte ≠ 0) :
    byte.toNat.log2 = 7 - byte.toBitVec.clz.toNat := by
  have hword : byte.toBitVec ≠ 0 := fun hzero => h (UInt8.toBitVec_inj.mp hzero)
  have hlog : byte.toNat.log2 + byte.toBitVec.clz.toNat + 1 = 8 := log2_add_clz hword
  omega

/-- Every byte of a string has eight bits. -/
theorem length_flatMap_ofByte (bytes : Bytes) :
    (bytes.flatMap ofByte).length = 8 * bytes.length := by
  induction bytes with
  | nil => rfl
  | cons byte bytes ih =>
    simp only [List.flatMap_cons, List.length_append, length_ofByte, ih, List.length_cons]
    omega

/-- A byte string is known by its bits. -/
theorem flatMap_ofByte_injective {bytes others : Bytes}
    (h : bytes.flatMap ofByte = others.flatMap ofByte) : bytes = others := by
  induction bytes generalizing others with
  | nil =>
    have length := congrArg List.length h
    rw [length_flatMap_ofByte, length_flatMap_ofByte, List.length_nil] at length
    exact (List.length_eq_zero_iff.mp (by omega)).symm
  | cons byte bytes ih =>
    cases others with
    | nil => simpa using congrArg List.length h
    | cons other others =>
      rw [List.flatMap_cons, List.flatMap_cons] at h
      obtain ⟨head, tail⟩ := List.append_inj h (by simp)
      rw [ofByte_injective head, ih tail]

/-- The bits of a byte string from a place in its last byte on are those of the last byte. -/
theorem drop_flatMap_ofByte {bytes : Bytes} {last : UInt8} (hlast : bytes.getLast? = some last)
    {place : Nat} (hplace : place ≤ 8) :
    (bytes.flatMap ofByte).drop (8 * (bytes.length - 1) + place) = (ofByte last).drop place := by
  obtain ⟨front, rfl⟩ := List.getLast?_eq_some_iff.mp hlast
  rw [List.flatMap_append, List.length_append, List.length_singleton, Nat.add_sub_cancel,
    ← length_flatMap_ofByte, List.drop_append, List.drop_eq_nil_of_le (by omega)]
  simp

/-- The bits of packed bits are the bits, and fewer than eight zeros behind them. -/
theorem exists_flatMap_ofByte_pack (bits : List Bool) :
    ∃ padding < 8, (pack bits).flatMap ofByte = bits ++ List.replicate padding false := by
  induction bits using Bytes.pieces_induction (by decide : 0 < 8) with
  | nil => exact ⟨0, by decide, by simp [pack]⟩
  | cut bits nonempty ih =>
    obtain ⟨padding, hpadding, hrest⟩ := ih
    have first : pack bits = toByte (bits.take 8) :: pack (bits.drop 8) := by
      rw [pack, Bytes.pieces_of_ne_nil (by decide) nonempty, List.map_cons, pack]
    have hlength : 0 < bits.length := List.length_pos_iff.mpr nonempty
    rw [first, List.flatMap_cons, ofByte_toByte (by simp), hrest]
    by_cases h : 8 ≤ bits.length
    · refine ⟨padding, hpadding, ?_⟩
      rw [List.length_take, Nat.min_eq_left h, Nat.sub_self, List.replicate_zero,
        List.append_nil, ← List.append_assoc, List.take_append_drop]
    · have short : bits.drop 8 = [] := List.drop_eq_nil_of_le (by omega)
      rw [short, pack, Bytes.pieces_nil, List.map_nil, List.flatMap_nil] at hrest
      refine ⟨8 - bits.length, by omega, ?_⟩
      rw [short, ← hrest, List.take_of_length_le (by omega), List.append_nil]

/-- Bytes are the packing of bits exactly when their bits are these and fewer than eight zeros. -/
theorem pack_eq_iff {bits : List Bool} {bytes : Bytes} :
    pack bits = bytes ↔
      ∃ padding < 8, bytes.flatMap ofByte = bits ++ List.replicate padding false := by
  apply Iff.intro
  · intro heq
    obtain rfl := heq
    exact exists_flatMap_ofByte_pack bits
  · intro h
    obtain ⟨padding, hpadding, h⟩ := h
    obtain ⟨padding', hpadding', h'⟩ := exists_flatMap_ofByte_pack bits
    have length := congrArg List.length h
    have length' := congrArg List.length h'
    simp only [length_flatMap_ofByte, List.length_append, List.length_replicate] at length length'
    apply flatMap_ofByte_injective
    rw [h, h', show padding' = padding by omega]

/-- Packed bits take as many bytes as hold them. -/
theorem length_pack (bits : List Bool) : (pack bits).length = (bits.length + 7) / 8 := by
  rw [pack, List.length_map, Bytes.length_pieces (by decide), Bytes.pieceCount]

/-- Bytes are the packing of bits exactly when they are as many as hold the bits, the bits come
first, and zeros behind them. -/
theorem pack_eq_iff_take_drop {bits : List Bool} {bytes : Bytes} :
    pack bits = bytes ↔
      bytes.length = (bits.length + 7) / 8 ∧ (bytes.flatMap ofByte).take bits.length = bits ∧
        (bytes.flatMap ofByte).drop bits.length =
          List.replicate (8 * bytes.length - bits.length) false := by
  apply Iff.intro
  · intro heq
    obtain rfl := heq
    obtain ⟨padding, -, h⟩ := exists_flatMap_ofByte_pack bits
    have length := congrArg List.length h
    rw [length_flatMap_ofByte, List.length_append, List.length_replicate] at length
    refine ⟨length_pack bits, ?_, ?_⟩
    · rw [h, List.take_left]
    · rw [h, List.drop_left, length, Nat.add_sub_cancel_left]
  · intro h
    obtain ⟨length, front, rest⟩ := h
    refine pack_eq_iff.mpr ⟨8 * bytes.length - bits.length, by omega, ?_⟩
    calc bytes.flatMap ofByte
        = (bytes.flatMap ofByte).take bits.length ++ (bytes.flatMap ofByte).drop bits.length :=
          (List.take_append_drop _ _).symm
      _ = bits ++ List.replicate (8 * bytes.length - bits.length) false := by rw [front, rest]

/-- As many bits as there are can be taken. -/
@[simp] theorem unpack_eq_ok {bytes : Bytes} {count : Nat} {bits : List Bool} :
    unpack bytes count = .ok bits ↔
      count ≤ 8 * bytes.length ∧ (bytes.flatMap ofByte).take count = bits := by
  unfold unpack
  split <;> simp <;> omega

end BeaconSsz.Bits

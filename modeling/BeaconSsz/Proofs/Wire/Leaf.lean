import BeaconSsz.Wire.Decode
import BeaconSsz.Wire.Encode
import BeaconSsz.Proofs.Bits
import BeaconSsz.Proofs.Schema.Sound

/-!
# Reading and writing leaves

Booleans, integers and bit strings are read exactly from the bytes that writing them gives, and a
sequence of elements of fixed size is cut exactly into the pieces that were put together. Padding
bits, the delimiter of a bit string and the bytes of a boolean leave no choice.
-/

namespace BeaconSsz

/-- A byte string of the right length passes. -/
@[simp] theorem checkByteLength_eq_ok {bytes : Bytes} {expected : Nat} :
    checkByteLength bytes expected = .ok () ↔ bytes.length = expected := by
  unfold checkByteLength
  split <;> simp_all

/-- Exactly the expected number of elements passes. -/
@[simp] theorem checkExactLength_eq_ok {count expected : Nat} :
    checkExactLength count expected = .ok () ↔ count = expected := by
  unfold checkExactLength
  split <;> simp_all

/-- At most the allowed number of elements passes. -/
@[simp] theorem checkLimit_eq_ok {count limit : Nat} :
    checkLimit count limit = .ok () ↔ count ≤ limit := by
  unfold checkLimit
  split <;> simp_all

/-- A value of another kind is no answer. -/
@[simp] theorem mismatch_ne_ok {α : Type} {shape : Shape} {value : Value} {a : α} :
    mismatch shape value = .ok a ↔ False :=
  Encoding.fail_ne_ok

/-- A boolean is one byte, zero or one. -/
theorem decodeBoolean_eq_ok {bytes : Bytes} {value : Bool} :
    decodeBoolean bytes = .ok value ↔ [if value then (1 : UInt8) else 0] = bytes := by
  unfold decodeBoolean
  rw [check_bind_eq_ok, checkByteLength_eq_ok]
  apply Iff.intro
  · intro h
    obtain ⟨hlength, h⟩ := h
    obtain ⟨byte, rfl⟩ := List.length_eq_one_iff.mp hlength
    split at h
    · next heq =>
      obtain rfl := pure_eq_ok.mp h
      rw [(List.cons.inj heq).1]
      rfl
    · next heq =>
      obtain rfl := pure_eq_ok.mp h
      rw [(List.cons.inj heq).1]
      rfl
    · simp at h
    · next heq => simp at heq
  · intro heq
    obtain rfl := heq
    cases value <;> exact ⟨rfl, rfl⟩

/-- A number passes exactly when it fits the bytes, if it has no more than 32. -/
theorem checkUint_eq_ok {value width : Nat} (hwidth : width ≤ 32) (hvalue : value < 256 ^ 32) :
    checkUint value width = .ok () ↔ value < 256 ^ width := by
  unfold checkUint
  split_ifs with h
  · refine iff_of_true rfl ?_
    rcases h with hwide | hfits
    · rwa [show width = 32 by omega]
    · exact hfits
  · exact iff_of_false (by simp) fun hfits => h (.inr hfits)

/-- An integer is read exactly from its bytes. -/
theorem decodeUint_eq_ok {bytes : Bytes} {width : UInt64} (hwidth : width ∈ uintWidths)
    {value : Value} :
    decodeUint bytes width = .ok value ↔
      bytes.length = width.toNat ∧ uintOfNat width (Bytes.toNatLittleEndian bytes) = value := by
  have hmax := (toNat_of_mem_uintWidths hwidth).2
  rw [decodeUint, check_bind_eq_ok, checkByteLength_eq_ok]
  refine and_congr_right fun hlength => ?_
  rw [if_neg (by omega), pure_eq_ok]

/-- Integers of up to eight bytes are words. -/
theorem pow_width_le {width : UInt64} (h : width ≤ 8) : 256 ^ width.toNat ≤ 2 ^ 64 := by
  have hwidth : width.toNat ≤ 8 := by simpa using UInt64.le_iff_toNat_le.mp h
  calc 256 ^ width.toNat ≤ 256 ^ 8 := Nat.pow_le_pow_right (by decide) hwidth
    _ = 2 ^ 64 := by norm_num

/-- A word of up to eight bytes is read exactly from the bytes that write it. -/
theorem decodeUint_eq_ok_uint {bytes : Bytes} {width : UInt64} (hwidth : width ∈ uintWidths)
    (hnarrow : width ≤ 8) {value : UInt64} :
    decodeUint bytes width = .ok (.uint value) ↔
      checkUint value.toNat width.toNat = .ok () ∧
        Bytes.littleEndian width.toNat value.toNat = bytes := by
  have hbound := Bytes.toNatLittleEndian_lt bytes
  rw [decodeUint_eq_ok hwidth, checkUint_eq_ok (toNat_of_mem_uintWidths hwidth).2
    (value.toNat_lt.trans_le (by decide)), uintOfNat, if_pos hnarrow, Value.uint.injEq]
  apply Iff.intro
  · intro h
    obtain ⟨hlength, rfl⟩ := h
    rw [hlength] at hbound
    have hvalue : (UInt64.ofNat (Bytes.toNatLittleEndian bytes)).toNat =
        Bytes.toNatLittleEndian bytes :=
      UInt64.toNat_ofNat_of_lt' (hbound.trans_le (pow_width_le hnarrow))
    rw [hvalue, Bytes.littleEndian_eq_iff hbound]
    exact ⟨hbound, hlength, rfl⟩
  · intro h
    obtain ⟨hvalue, h⟩ := h
    obtain ⟨hlength, hread⟩ := (Bytes.littleEndian_eq_iff hvalue).mp h
    rw [hread, UInt64.ofNat_toNat]
    exact ⟨hlength, rfl⟩

/-- A wider integer is read exactly from the bytes that write it. -/
theorem decodeUint_eq_ok_big {bytes : Bytes} {width : UInt64} (hwidth : width ∈ uintWidths)
    (hwide : 8 < width) {value : BitVec 256} :
    decodeUint bytes width = .ok (.big value) ↔
      checkUint value.toNat width.toNat = .ok () ∧
        Bytes.littleEndian width.toNat value.toNat = bytes := by
  have hbound := Bytes.toNatLittleEndian_lt bytes
  have hmax := (toNat_of_mem_uintWidths hwidth).2
  have hlimit : 256 ^ width.toNat ≤ 2 ^ 256 :=
    (Nat.pow_le_pow_right (by decide) hmax).trans (by norm_num)
  rw [decodeUint_eq_ok hwidth, checkUint_eq_ok hmax (value.isLt.trans_le (by norm_num)), uintOfNat,
    if_neg (UInt64.not_le.mpr hwide), Value.big.injEq]
  apply Iff.intro
  · intro h
    obtain ⟨hlength, rfl⟩ := h
    rw [hlength] at hbound
    rw [BitVec.toNat_ofNat, Nat.mod_eq_of_lt (hbound.trans_le hlimit),
      Bytes.littleEndian_eq_iff hbound]
    exact ⟨hbound, hlength, rfl⟩
  · intro h
    obtain ⟨hvalue, h⟩ := h
    obtain ⟨hlength, hread⟩ := (Bytes.littleEndian_eq_iff hvalue).mp h
    rw [hread, BitVec.ofNat_toNat, BitVec.setWidth_eq]
    exact ⟨hlength, rfl⟩

/-- A bit string of given length is read exactly from the bytes that pack it. -/
theorem decodeBitvector_eq_ok {bytes : Bytes} {length : Nat} (hlength : length + 7 < wordLimit)
    {bits : List Bool} :
    decodeBitvector bytes length = .ok bits ↔ bits.length = length ∧ Bits.pack bits = bytes := by
  simp only [decodeBitvector, bytesForBits_eq hlength, bind_eq_ok (α := Nat), Stop.orTrap_eq_ok, Except.ok.injEq,
    exists_eq_left', check_bind_eq_ok, checkByteLength_eq_ok, Bits.pack_eq_iff_take_drop]
  have htake : bytes.length = (length + 7) / 8 →
      ((bytes.flatMap Bits.ofByte).take length).length = length := fun h => by
    rw [List.length_take, Bits.length_flatMap_ofByte]
    omega
  have hdrop {last : UInt8} (h : bytes.length = (length + 7) / 8)
      (hlast : bytes.getLast? = some last) (hused : length % 8 ≠ 0) :
      last.toNat >>> (length % 8) = 0 ↔
        (bytes.flatMap Bits.ofByte).drop length =
          List.replicate (8 * bytes.length - length) false := by
    rw [Bits.shiftRight_eq_zero_iff, ← Bits.drop_flatMap_ofByte hlast (by omega),
      show 8 * (bytes.length - 1) + length % 8 = length by omega,
      show 8 * bytes.length - length = 8 - length % 8 by omega]
  apply Iff.intro
  · intro h
    obtain ⟨hbytes, h⟩ := h
    split_ifs at h with hused
    · obtain ⟨-, rfl⟩ := Bits.unpack_eq_ok.mp (Stop.orTrap_eq_ok.mp h)
      rw [htake hbytes]
      refine ⟨rfl, hbytes, rfl, ?_⟩
      rw [List.drop_eq_nil_of_le (by rw [Bits.length_flatMap_ofByte]; omega),
        show 8 * bytes.length - length = 0 by omega, List.replicate_zero]
    · split at h
      · next last hlast =>
        split_ifs at h with hpadding
        · obtain ⟨-, rfl⟩ := Bits.unpack_eq_ok.mp (Stop.orTrap_eq_ok.mp h)
          rw [htake hbytes]
          exact ⟨rfl, hbytes, rfl, (hdrop hbytes hlast hused).mp hpadding⟩
        · simp at h
      · simp at h
  · intro h
    obtain ⟨rfl, hbytes, hfront, hrest⟩ := h
    refine ⟨hbytes, ?_⟩
    have hunpack : Bits.unpack bytes bits.length = .ok bits :=
      Bits.unpack_eq_ok.mpr ⟨by omega, hfront⟩
    split_ifs with hused
    · rw [Stop.orTrap_eq_ok, hunpack]
    · split
      · next last hlast =>
        rw [if_pos ((hdrop hbytes hlast hused).mpr hrest), Stop.orTrap_eq_ok, hunpack]
      · next hnone =>
        rw [List.getLast?_eq_none_iff.mp hnone, List.length_nil] at hbytes
        omega

/-- A bit string is read exactly from the bytes that pack it with its delimiter, if its length is
allowed and a word. -/
theorem decodeBitlist_eq_ok_iff {bytes : Bytes} {limit : Nat} {bits : List Bool} :
    decodeBitlist bytes limit = .ok bits ↔
      bits.length < wordLimit ∧ bits.length ≤ limit ∧ Bits.packDelimited bits = bytes := by
  rw [decodeBitlist, Bits.packDelimited, Bits.pack_eq_iff]
  apply Iff.intro
  · intro h
    split at h
    · simp at h
    · next last hlast =>
      split_ifs at h with hzero
      · simp at h
      simp only [bind_eq_ok, Stop.orTrap_eq_ok, Word.mul_eq_ok, Word.add_eq_ok] at h
      obtain ⟨_, ⟨-, rfl⟩, _, ⟨hword, rfl⟩, h⟩ := h
      split_ifs at h with hover
      · simp at h
      obtain ⟨hroom, rfl⟩ := Bits.unpack_eq_ok.mp (Stop.orTrap_eq_ok.mp h)
      have hplace : last.toNat.log2 < 8 := by
        by_contra hplace
        have := Nat.log2_self_le (n := last.toNat) (by simpa [← UInt8.toNat_inj] using hzero)
        have := Nat.pow_le_pow_right (n := 2) (by decide) (Nat.le_of_not_lt hplace)
        have := last.toNat_lt
        omega
      have hdrop := (Bits.log2_eq_iff last hplace).mp ⟨hzero, rfl⟩
      rw [← Bits.drop_flatMap_ofByte hlast (by omega), Nat.mul_comm 8] at hdrop
      refine ⟨(List.length_take_le _ _).trans_lt hword,
        (List.length_take_le _ _).trans (Nat.not_lt.mp hover), 7 - last.toNat.log2, by omega, ?_⟩
      rw [List.append_assoc, List.singleton_append, ← hdrop, List.take_append_drop]
  · intro h
    obtain ⟨hword, hbits, padding, hpadding, h⟩ := h
    have hlength := congrArg List.length h
    simp only [Bits.length_flatMap_ofByte, List.length_append, List.length_singleton,
      List.length_replicate] at hlength
    cases hlast : bytes.getLast? with
    | none =>
      rw [List.getLast?_eq_none_iff.mp hlast, List.length_nil] at hlength
      omega
    | some last =>
      have hdrop := Bits.drop_flatMap_ofByte hlast (by omega : 7 - padding ≤ 8)
      rw [h, show 8 * (bytes.length - 1) + (7 - padding) = bits.length by omega,
        List.append_assoc, List.drop_left, List.singleton_append] at hdrop
      obtain ⟨hzero, hlog⟩ := (Bits.log2_eq_iff last (by omega : 7 - padding < 8)).mpr
        (by rw [← hdrop, show 7 - (7 - padding) = padding by omega])
      have hposition : (bytes.length - 1) * 8 + last.toNat.log2 = bits.length := by omega
      simp only [if_neg hzero, bind_eq_ok, Stop.orTrap_eq_ok, Word.mul_eq_ok, Word.add_eq_ok]
      refine ⟨_, ⟨by omega, rfl⟩, _, ⟨by omega, rfl⟩, ?_⟩
      rw [hposition, if_neg (by omega), Stop.orTrap_eq_ok, Bits.unpack_eq_ok, h]
      exact ⟨by omega, by rw [List.append_assoc, List.take_left]⟩

/-- A bit string of bounded length is read exactly from the bytes that pack it with its
delimiter. -/
theorem decodeBitlist_eq_ok {bytes : Bytes} {limit : Nat} (hlimit : limit < wordLimit)
    {bits : List Bool} :
    decodeBitlist bytes limit = .ok bits ↔
      bits.length ≤ limit ∧ Bits.packDelimited bits = bytes := by
  rw [decodeBitlist_eq_ok_iff]
  exact and_iff_right_of_imp fun h => h.1.trans_lt hlimit

/-- A sequence is cut exactly into the elements that make it up. -/
theorem cutElements_eq_ok {bytes : Bytes} {length limit : Nat} (hlength : 0 < length)
    {items : List Bytes} :
    cutElements bytes length limit = .ok items ↔
      items.length ≤ limit ∧ (∀ item ∈ items, item.length = length) ∧ items.flatten = bytes := by
  have hcount (hitems : ∀ item ∈ items, item.length = length) :
      items.flatten.length / length = items.length := by
    rw [Bytes.length_flatten_of_full hitems, Nat.mul_div_cancel _ hlength]
  rw [← Bytes.pieces_eq_iff hlength, cutElements, if_neg (by omega)]
  apply Iff.intro
  · intro h
    split_ifs at h with hpartial
    · simp at h
    · dsimp only at h
      split_ifs at h with hover
      · simp at h
      rw [ne_eq, not_not] at hpartial
      obtain rfl := pure_eq_ok.mp h
      have hdvd := Nat.dvd_of_mod_eq_zero hpartial
      refine ⟨?_, hdvd, rfl⟩
      have := hcount (Bytes.length_of_mem_pieces hlength hdvd)
      rw [Bytes.flatten_pieces hlength] at this
      omega
  · intro h
    obtain ⟨hlimit, hdvd, rfl⟩ := h
    have := hcount (Bytes.length_of_mem_pieces hlength hdvd)
    rw [Bytes.flatten_pieces hlength] at this
    rw [if_neg (by simpa using Nat.mod_eq_zero_of_dvd hdvd), if_neg (by omega), pure_eq_ok]

end BeaconSsz

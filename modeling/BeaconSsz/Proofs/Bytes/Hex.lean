import BeaconSsz.Bytes.Hex
import BeaconSsz.Proofs.Bytes
import Mathlib.Tactic.SplitIfs

/-!
# Hexadecimal text up to the case of its letters

Digits are read as a byte string exactly when they are the digits that the byte string is written
with, in letters of either case. So a byte string has one spelling apart from the case, and an odd
number of digits is none.
-/

namespace BeaconSsz.Hex

/-- The code of a digit. -/
theorem toNat_digit : ∀ n < 16, (digit n).toNat = if n < 10 then 48 + n else 87 + n := by
  decide

/-- Digits are written in small letters. -/
theorem toLower_digit : ∀ n < 16, (digit n).toLower = digit n := by
  decide

/-- The digits of a byte string are those of numbers below sixteen. -/
theorem exists_digit_of_mem_encode {c : Char} {bytes : Bytes} (h : c ∈ encode bytes) :
    ∃ n < 16, c = digit n := by
  simp only [encode, List.mem_flatMap, encodeByte, List.mem_cons, List.not_mem_nil, or_false] at h
  obtain ⟨byte, -, rfl | rfl⟩ := h
  · exact ⟨_, Nat.div_lt_of_lt_mul byte.toNat_lt, rfl⟩
  · exact ⟨_, Nat.mod_lt _ (by decide), rfl⟩

/-- There are two digits for each byte. -/
theorem length_encode (bytes : Bytes) : (encode bytes).length = 2 * bytes.length := by
  induction bytes with
  | nil => rfl
  | cons byte bytes ih =>
    rw [encode, List.flatMap_cons, List.length_append, ← encode, ih, encodeByte, List.length_cons]
    simp only [List.length_cons, List.length_nil]
    omega

/-- Small letters lie 32 codes behind the capital ones. -/
theorem toNat_toLower (c : Char) :
    c.toLower.toNat = if 65 ≤ c.toNat ∧ c.toNat ≤ 90 then c.toNat + 32 else c.toNat := by
  have hrange : c.val ≥ 'A'.val ∧ c.val ≤ 'Z'.val ↔ 65 ≤ c.toNat ∧ c.toNat ≤ 90 := by
    rw [ge_iff_le, UInt32.le_iff_toNat_le, UInt32.le_iff_toNat_le]
    rfl
  unfold Char.toLower
  split_ifs with hcapital hcode hcode
  · have hsum : (c.val + ('a'.val - 'A'.val)).toNat = (c.toNat + 32) % 2 ^ 32 :=
      UInt32.toNat_add ..
    rw [Nat.mod_eq_of_lt (by omega)] at hsum
    exact hsum
  · exact absurd (hrange.mp hcapital) hcode
  · exact absurd (hrange.mpr hcode) hcapital
  · rfl

/-- The value of a digit follows from its code. -/
theorem digitValue?_eq (c : Char) :
    digitValue? c =
      if 48 ≤ c.toNat ∧ c.toNat ≤ 57 then some (c.toNat - 48)
      else if 97 ≤ c.toNat ∧ c.toNat ≤ 102 then some (c.toNat - 87)
      else if 65 ≤ c.toNat ∧ c.toNat ≤ 70 then some (c.toNat - 55)
      else none := by
  simp only [digitValue?, Char.le_def, UInt32.le_iff_toNat_le]
  rfl

/-- A character is a digit of a value exactly when it is the digit of that value in letters of
either case. -/
theorem digitValue?_eq_some {c : Char} {n : ℕ} :
    digitValue? c = some n ↔ n < 16 ∧ c.toLower = digit n := by
  rw [digitValue?_eq, ← Char.toNat_inj, toNat_toLower]
  constructor
  · intro h
    have hn : n < 16 := by
      split_ifs at h <;> obtain rfl := Option.some.inj h <;> omega
    refine ⟨hn, ?_⟩
    rw [toNat_digit n hn]
    split_ifs at h <;> obtain rfl := Option.some.inj h <;> split_ifs <;> omega
  · rintro ⟨hn, h⟩
    rw [toNat_digit n hn] at h
    split_ifs at h ⊢ <;> first | omega | exact congrArg some (by omega)

/-- Two characters are digits of a byte exactly when they are the digits that the byte is written
with, in letters of either case. -/
theorem encodeByte_eq_iff {byte : UInt8} {c d : Char} :
    encodeByte byte = [c.toLower, d.toLower] ↔
      ∃ high low, digitValue? c = some high ∧ digitValue? d = some low ∧
        UInt8.ofNat (16 * high + low) = byte := by
  have hbyte := byte.toNat_lt
  simp only [encodeByte, List.cons.injEq, and_true, digitValue?_eq_some]
  constructor
  · rintro ⟨hc, hd⟩
    refine ⟨_, _, ⟨by omega, hc.symm⟩, ⟨by omega, hd.symm⟩, ?_⟩
    rw [Nat.div_add_mod, UInt8.ofNat_toNat]
  · rintro ⟨high, low, ⟨hhigh, hc⟩, ⟨hlow, hd⟩, rfl⟩
    rw [UInt8.toNat_ofNat_of_lt' (by rw [UInt8.size]; omega), hc, hd]
    exact ⟨by congr 1; omega, by congr 1; omega⟩

/-- No digits are read as no bytes. -/
theorem decode?_nil : decode? [] = some [] := by
  simp [decode?]

/-- One digit is not a byte. -/
theorem decode?_singleton (c : Char) : decode? [c] = none := by
  simp [decode?]

/-- The first two digits are read as the first byte, and the others as the others. -/
theorem decode?_cons_cons {c d : Char} {digits : List Char} {bytes : Bytes} :
    decode? (c :: d :: digits) = some bytes ↔
      ∃ high low rest, digitValue? c = some high ∧ digitValue? d = some low ∧
        decode? digits = some rest ∧ bytes = UInt8.ofNat (16 * high + low) :: rest := by
  have hlength : (c :: d :: digits).length % 2 = digits.length % 2 := by
    rw [List.length_cons, List.length_cons]
    omega
  have hpieces : Bytes.pieces 2 (c :: d :: digits) = [c, d] :: Bytes.pieces 2 digits :=
    Bytes.pieces_of_ne_nil (by decide) (List.cons_ne_nil _ _)
  rw [decode?, hlength, hpieces, decode?]
  cases hc : digitValue? c with
  | none => simp [hc]
  | some high =>
    cases hd : digitValue? d with
    | none => simp [hc, hd]
    | some low =>
      have hpair : pairValue [c, d] = UInt8.ofNat (16 * high + low) := by simp [pairValue, hc, hd]
      simp [hc, hd, hpair, @eq_comm _ bytes]

/-- Digits are read as a byte string exactly when they are the digits that the byte string is
written with, in letters of either case. -/
theorem decode?_eq_some : {digits : List Char} → {bytes : Bytes} →
    (decode? digits = some bytes ↔ digits.map Char.toLower = encode bytes)
  | [], bytes => by
    rw [decode?_nil]
    cases bytes <;> simp [encode, encodeByte]
  | [c], bytes => by
    rw [decode?_singleton]
    cases bytes <;> simp [encode, encodeByte]
  | c :: d :: digits, [] => by
    rw [decode?_cons_cons]
    simp [encode]
  | c :: d :: digits, byte :: bytes => by
    have hcons : (c :: d :: digits).map Char.toLower = encode (byte :: bytes) ↔
        encodeByte byte = [c.toLower, d.toLower] ∧ digits.map Char.toLower = encode bytes := by
      simp [encode, encodeByte, eq_comm, and_assoc]
    rw [decode?_cons_cons, hcons, encodeByte_eq_iff, ← decode?_eq_some]
    constructor
    · rintro ⟨high, low, rest, hc, hd, hrest, heq⟩
      obtain ⟨rfl, rfl⟩ := List.cons.inj heq
      exact ⟨⟨high, low, hc, hd, rfl⟩, hrest⟩
    · rintro ⟨⟨high, low, hc, hd, rfl⟩, hrest⟩
      exact ⟨high, low, bytes, hc, hd, hrest, rfl⟩

end BeaconSsz.Hex

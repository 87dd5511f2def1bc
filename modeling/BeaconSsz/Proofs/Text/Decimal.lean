import BeaconSsz.Text.Decimal
import Mathlib.Data.Nat.Notation
import Mathlib.Tactic.SplitIfs

/-!
# Decimal numbers are spelled in one way

A text is read as a number exactly when it is the text that the number is shown as. Signs, leading
zeros and blanks are refused with everything else that no number is shown as.
-/

namespace BeaconSsz.Decimal

/-- The digits are the characters of ten codes. -/
theorem isDigit_iff {c : Char} : isDigit c = true ↔ 48 ≤ c.toNat ∧ c.toNat ≤ 57 := by
  rw [isDigit, Bool.and_eq_true, decide_eq_true_eq, decide_eq_true_eq, Char.le_def, Char.le_def,
    UInt32.le_iff_toNat_le, UInt32.le_iff_toNat_le]
  rfl

/-- A digit is below ten. -/
theorem digitValue_lt {c : Char} (h : isDigit c = true) : digitValue c < 10 := by
  have := isDigit_iff.mp h
  rw [digitValue]
  omega

/-- A digit is the character of its value. -/
theorem digitChar_digitValue {c : Char} (h : isDigit c = true) :
    Nat.digitChar (digitValue c) = c := by
  have := isDigit_iff.mp h
  rw [← Char.toNat_inj, Nat.toNat_digitChar_of_lt_ten (digitValue_lt h), digitValue]
  omega

/-- A number that is not zero is shown with another first digit than zero. -/
theorem toDigits_eq_cons {n : ℕ} (h : 0 < n) :
    ∃ c rest, Nat.toDigits 10 n = c :: rest ∧ c ≠ '0' := by
  induction n using Nat.strongRecOn with
  | _ n ih =>
    rw [Nat.toDigits_eq_if (by decide)]
    split_ifs with hn
    · exact ⟨_, [], rfl, mt Nat.digitChar_eq_zero.mp (by omega)⟩
    · obtain ⟨c, rest, heq, hc⟩ := ih (n / 10) (by omega) (by omega)
      exact ⟨c, _, by rw [heq, List.cons_append], hc⟩

/-- The text that a number is shown as is spelled as it should be. -/
theorem isCanonical_toDigits (n : ℕ) : isCanonical (Nat.toDigits 10 n) = true := by
  have hdigits : (Nat.toDigits 10 n).all isDigit = true :=
    List.all_eq_true.mpr fun c hc =>
      Nat.isDigit_of_mem_toDigits (by decide) (by decide) hc
  rcases Nat.eq_zero_or_pos n with rfl | hn
  · rfl
  · obtain ⟨c, rest, heq, hc⟩ := toDigits_eq_cons hn
    rw [heq] at hdigits ⊢
    rw [isCanonical]
    · exact hdigits
    · simp
    · intro next rest' h
      exact hc (List.cons.inj h).1

/-- The text that a number is shown as spells the number. -/
theorem valueFrom_toDigits (n : ℕ) : valueFrom 0 (Nat.toDigits 10 n) = n :=
  Nat.ofDigitChars_eq_foldl.symm.trans Nat.ofDigitChars_ten_toDigits

/-- Digits behind a number already read, which is not zero, are the last ones of the number read
in the end. -/
theorem toDigits_valueFrom {n : ℕ} (hn : 0 < n) {digits : List Char}
    (h : digits.all isDigit = true) :
    Nat.toDigits 10 (valueFrom n digits) = Nat.toDigits 10 n ++ digits := by
  -- The number already read is not zero, so its own digits stay in front of the next one.
  induction digits generalizing n with
  | nil => exact (List.append_nil _).symm
  | cons c digits ih =>
    rw [List.all_cons, Bool.and_eq_true] at h
    have hnext : 0 < 10 * n + digitValue c := by omega
    calc Nat.toDigits 10 (valueFrom n (c :: digits))
      _ = Nat.toDigits 10 (10 * n + digitValue c) ++ digits := ih hnext h.2
      _ = Nat.toDigits 10 n ++ Nat.toDigits 10 (digitValue c) ++ digits := by
        rw [Nat.toDigits_append_toDigits (by decide) hn (digitValue_lt h.1)]
      _ = Nat.toDigits 10 n ++ c :: digits := by
        rw [Nat.toDigits_of_lt_base (digitValue_lt h.1), digitChar_digitValue h.1,
          List.append_assoc, List.singleton_append]

/-- A text that is spelled as it should be is the one that its number is shown as. -/
theorem toDigits_of_isCanonical {text : List Char} (h : isCanonical text = true) :
    Nat.toDigits 10 (valueFrom 0 text) = text := by
  match text, h with
  | [c], h =>
    have hc : isDigit c = true := by simpa [isCanonical] using h
    have hvalue : valueFrom 0 [c] = digitValue c := by simp [valueFrom]
    rw [hvalue, Nat.toDigits_of_lt_base (digitValue_lt hc), digitChar_digitValue hc]
  | c :: next :: rest, h =>
    have hzero : c ≠ '0' := by
      rintro rfl
      simp [isCanonical] at h
    rw [isCanonical, List.all_cons, Bool.and_eq_true] at h
    · have hpos : digitValue c ≠ 0 := fun hvalue =>
        hzero (by rw [← digitChar_digitValue h.1, hvalue]; rfl)
      have hvalue : valueFrom 0 (c :: next :: rest) = valueFrom (digitValue c) (next :: rest) := by
        simp [valueFrom]
      rw [hvalue, toDigits_valueFrom (Nat.pos_of_ne_zero hpos) h.2,
        Nat.toDigits_of_lt_base (digitValue_lt h.1), digitChar_digitValue h.1,
        List.singleton_append]
    · simp
    · intro _ _ heq
      exact hzero (List.cons.inj heq).1

/-- A text is read as a number exactly when it is the text that the number is shown as, and the
number is below the limit. -/
theorem parse?_eq_some {limit n : ℕ} {text : List Char} :
    parse? limit text = some n ↔ text = (toString n).toList ∧ n < limit := by
  rw [parse?, Nat.toString_eq_repr, Nat.toList_repr]
  constructor
  · intro h
    split_ifs at h with hcheck
    rw [Bool.and_eq_true, decide_eq_true_eq] at hcheck
    obtain rfl := Option.some.inj h
    exact ⟨(toDigits_of_isCanonical hcheck.1).symm, hcheck.2⟩
  · rintro ⟨rfl, hn⟩
    rw [isCanonical_toDigits, valueFrom_toDigits, Bool.true_and, decide_eq_true hn, if_pos rfl]

end BeaconSsz.Decimal

import BeaconSsz.InputFile
import BeaconSsz.Proofs.Text.Interface
import Mathlib.Data.List.Basic
import Mathlib.Data.List.TakeWhile

/-!
# What the contents of a file can stand for

Contents are taken as they are unless they are hexadecimal text between blanks. So contents with a
byte that no such text has are taken as they are, and what is read from text is shorter than the
text. Conversely, the text that a byte string is written as stands for it, between any blanks.
-/

namespace BeaconSsz

namespace InputFile

variable {contents other : Bytes}

/-- Trimming takes blanks away at both ends, and nothing else. -/
theorem exists_eq_trim (contents : Bytes) : ∃ front back, contents = front ++ trim contents ++ back ∧
    (∀ byte ∈ front, isBlank byte = true) ∧ ∀ byte ∈ back, isBlank byte = true := by
  refine ⟨contents.takeWhile isBlank,
    ((contents.dropWhile isBlank).reverse.takeWhile isBlank).reverse, ?_, ?_, ?_⟩
  · rw [trim, List.append_assoc, ← List.reverse_append, List.takeWhile_append_dropWhile,
      List.reverse_reverse, List.takeWhile_append_dropWhile]
  · exact fun byte hbyte => List.mem_takeWhile_imp hbyte
  · exact fun byte hbyte => List.mem_takeWhile_imp (List.mem_reverse.mp hbyte)

/-- Nothing is dropped from the front of something without blanks. -/
theorem dropWhile_eq_self {text : Bytes} (h : ∀ byte ∈ text, isBlank byte = false) :
    text.dropWhile isBlank = text := by
  rw [List.dropWhile_eq_self_iff]
  intro hlength
  rw [h _ (List.getElem_mem hlength)]
  exact Bool.false_ne_true

/-- Blanks around something without blanks are taken away. -/
theorem trim_eq {front text back : Bytes} (hfront : ∀ byte ∈ front, isBlank byte = true)
    (hback : ∀ byte ∈ back, isBlank byte = true) (htext : ∀ byte ∈ text, isBlank byte = false) :
    trim (front ++ text ++ back) = text := by
  rw [trim, List.append_assoc, List.dropWhile_append_of_pos hfront]
  cases text with
  | nil =>
    rw [List.nil_append, List.dropWhile_eq_nil_iff.mpr hback]
    rfl
  | cons first rest =>
    have hkept : (first :: rest ++ back).dropWhile isBlank = first :: rest ++ back := by
      rw [List.cons_append, List.dropWhile_cons_of_neg]
      rw [htext first List.mem_cons_self]
      exact Bool.false_ne_true
    rw [hkept, List.reverse_append, List.dropWhile_append_of_pos (by simpa using hback),
      dropWhile_eq_self fun byte hbyte => htext byte (List.mem_reverse.mp hbyte),
      List.reverse_reverse]

/-- Contents are taken as they are, or they are digits behind a marker between blanks. -/
theorem bytesOf?_cases (contents : Bytes) : bytesOf? contents = some contents ∨
    ∃ front digits back, contents = front ++ 0x30 :: 0x78 :: digits ++ back ∧
      (∀ byte ∈ front, isBlank byte = true) ∧ (∀ byte ∈ back, isBlank byte = true) ∧
      (∀ byte ∈ digits, (Hex.digitValue? (charOf byte)).isSome) ∧
      bytesOf? contents = Hex.decode? (digits.map charOf) := by
  obtain ⟨front, back, hcontents, hfront, hback⟩ := exists_eq_trim contents
  unfold bytesOf?
  split
  · next digits htrim =>
    split
    · next hdigits =>
      rw [htrim] at hcontents
      exact .inr ⟨front, digits, back, hcontents, hfront, hback, by simpa using hdigits, rfl⟩
    · exact .inl rfl
  · exact .inl rfl

/-- Contents with a zero are taken as they are: no text has one. -/
theorem bytesOf?_of_zero_mem (h : (0 : UInt8) ∈ contents) : bytesOf? contents = some contents := by
  rcases bytesOf?_cases contents with hraw | ⟨front, digits, back, rfl, hfront, hback, hdigits, -⟩
  · exact hraw
  · simp only [List.mem_append, List.mem_cons] at h
    rcases h with (h | h | h | h) | h
    · exact absurd (hfront 0 h) (by decide)
    · exact absurd h (by decide)
    · exact absurd h (by decide)
    · exact absurd (hdigits 0 h) (by decide)
    · exact absurd (hback 0 h) (by decide)

/-- What is read from contents is the contents or something shorter. -/
theorem length_lt_of_bytesOf? (h : bytesOf? contents = some other) (hother : other ≠ contents) :
    other.length < contents.length := by
  rcases bytesOf?_cases contents with hraw | ⟨front, digits, back, rfl, -, -, -, hread⟩
  · rw [hraw, Option.some_inj] at h
    exact absurd h.symm hother
  · rw [hread] at h
    have hlength := hexText.length_of_decode? h
    rw [List.length_map] at hlength
    simp only [List.length_append, List.length_cons]
    omega

/-- The contents of a file that holds a text. -/
def ofText (text : String) : Bytes :=
  text.toUTF8.data.toList

/-- The byte of a character, as far as it has one. -/
def byteOf (c : Char) : UInt8 :=
  UInt8.ofNat c.toNat

/-- A text of ASCII characters has one byte for each of them. -/
theorem ofText_ofList {cs : List Char} (h : ∀ c ∈ cs, c.toNat < 128) :
    ofText (String.ofList cs) = cs.map byteOf := by
  have hchar (c : Char) (hc : c ∈ cs) : String.utf8EncodeChar c = [byteOf c] := by
    have hsize : c.utf8Size = 1 := by
      rw [Char.utf8Size, if_pos]
      exact UInt32.le_iff_toNat_le.mpr (Nat.le_of_lt_succ (h c hc))
    exact String.utf8EncodeChar_eq_singleton hsize
  rw [ofText, String.toUTF8, String.toByteArray_ofList, List.utf8Encode, List.toList_data_toByteArray,
    List.flatMap_congr hchar, List.map_eq_flatMap]

/-- A digit is an ASCII character that is no blank and is read back from its byte. -/
theorem byteOf_digit : ∀ n < 16, (Hex.digit n).toNat < 128 ∧
    isBlank (byteOf (Hex.digit n)) = false ∧ charOf (byteOf (Hex.digit n)) = Hex.digit n := by
  decide

/-- The contents of a file that holds the marked digits of a byte string. -/
theorem ofText_markedText (bytes : Bytes) :
    ofText (Hex.markedText bytes) = 0x30 :: 0x78 :: (Hex.encode bytes).map byteOf := by
  rw [Hex.markedText, ofText_ofList]
  · rfl
  · simp only [List.forall_mem_cons]
    refine ⟨by decide, by decide, fun c hc => ?_⟩
    obtain ⟨n, hn, rfl⟩ := hexText.exists_digit hc
    exact (byteOf_digit n hn).1

/-- Marked digits stand for the byte string that they are written for, between any blanks. -/
theorem bytesOf?_markedText {front back : Bytes} (hfront : ∀ byte ∈ front, isBlank byte = true)
    (hback : ∀ byte ∈ back, isBlank byte = true) (bytes : Bytes) :
    bytesOf? (front ++ ofText (Hex.markedText bytes) ++ back) = some bytes := by
  have hdigits (c : Char) (hc : c ∈ Hex.encode bytes) :
      isBlank (byteOf c) = false ∧ charOf (byteOf c) = c := by
    obtain ⟨n, hn, rfl⟩ := hexText.exists_digit hc
    exact (byteOf_digit n hn).2
  have hchars : ((Hex.encode bytes).map byteOf).map charOf = Hex.encode bytes := by
    rw [List.map_map]
    exact (List.map_congr_left fun c hc => (hdigits c hc).2).trans (List.map_id _)
  have hread := hexText.decode?_encode bytes
  have hall : ((Hex.encode bytes).map byteOf).all
      (fun byte => (Hex.digitValue? (charOf byte)).isSome) = true := by
    simp only [List.all_eq_true, List.forall_mem_map]
    intro c hc
    rw [(hdigits c hc).2]
    obtain ⟨n, hn, rfl⟩ := hexText.exists_digit hc
    rw [Hex.digitValue?_eq_some.mpr ⟨hn, Hex.toLower_digit n hn⟩, Option.isSome_some]
  have htrim : trim (front ++ ofText (Hex.markedText bytes) ++ back) =
      0x30 :: 0x78 :: (Hex.encode bytes).map byteOf := by
    rw [← ofText_markedText]
    refine trim_eq hfront hback ?_
    rw [ofText_markedText]
    simp only [List.forall_mem_cons, List.forall_mem_map]
    exact ⟨rfl, rfl, fun c hc => (hdigits c hc).1⟩
  simp only [bytesOf?, htrim, hall, hchars, hread, ↓reduceIte]

end InputFile

end BeaconSsz

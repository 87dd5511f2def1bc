import BeaconSsz.Proofs.Bytes.Hex
import BeaconSsz.Proofs.Json.Text
import BeaconSsz.Proofs.Text.Decimal

/-!
# What is relied on of the formats of texts

Byte strings are shown as hexadecimal digits, integers in decimal and values as JSON. What writes
and reads these texts is no concern of records and their encodings: they rely on three interfaces,
which say what is read from what is written and from which other texts. The writers and readers in
use have these interfaces, and others that have them could take their place.
-/

namespace BeaconSsz

/-- What is relied on of the digits that byte strings are written with and read from. -/
structure HexText (encode : Bytes → List Char) (decode? : List Char → Option Bytes) : Prop where
  /-- The digits that a byte string is written with are read as it, in letters of either case, and
  no others. -/
  decode?_eq_some {digits : List Char} {bytes : Bytes} :
    decode? digits = some bytes ↔ digits.map Char.toLower = encode bytes
  /-- There are two digits for each byte. -/
  length_encode (bytes : Bytes) : (encode bytes).length = 2 * bytes.length
  /-- The digits are those of numbers below sixteen. -/
  exists_digit {c : Char} {bytes : Bytes} : c ∈ encode bytes → ∃ n < 16, c = Hex.digit n

/-- What is relied on of the texts that integers are written as and read from. -/
structure DecimalText (write : ℕ → String) (parse? : ℕ → List Char → Option ℕ) : Prop where
  /-- The text that an integer below the limit is written as is read as it, and no other. -/
  parse?_eq_some {limit n : ℕ} {text : List Char} :
    parse? limit text = some n ↔ text = (write n).toList ∧ n < limit

/-- What is relied on of the texts that JSON is written as and read from, and of the bytes of these
texts. -/
structure JsonText (pretty : Json → String) (parse? : String → Option Json)
    (parseBytes? : Bytes → Option Json) : Prop where
  /-- The text of a value is read as the value, among any blanks. -/
  parse?_pretty {json : Json} (hlegible : json.Legible Json.maxNesting) {front back : List Char}
    (hfront : ∀ c ∈ front, Json.isBlank c = true) (hback : ∀ c ∈ back, Json.isBlank c = true) :
    parse? (String.ofList front ++ pretty json ++ String.ofList back) = some json
  /-- The bytes of a text are read as the text. -/
  parseBytes?_toUTF8 (text : String) : parseBytes? text.toUTF8.data.toList = parse? text

namespace HexText

variable {encode : Bytes → List Char} {decode? : List Char → Option Bytes}

/-- The digits of a byte string are written in small letters. -/
theorem map_toLower_encode (h : HexText encode decode?) (bytes : Bytes) :
    (encode bytes).map Char.toLower = encode bytes := by
  refine (List.map_congr_left fun c hc => ?_).trans (List.map_id _)
  obtain ⟨n, hn, rfl⟩ := h.exists_digit hc
  exact Hex.toLower_digit n hn

/-- A byte string is read from the digits that it is written with. -/
theorem decode?_encode (h : HexText encode decode?) (bytes : Bytes) :
    decode? (encode bytes) = some bytes :=
  h.decode?_eq_some.mpr (h.map_toLower_encode bytes)

/-- Two digits are read as one byte. -/
theorem length_of_decode? (h : HexText encode decode?) {digits : List Char} {bytes : Bytes}
    (hread : decode? digits = some bytes) : digits.length = 2 * bytes.length := by
  rw [← h.length_encode, ← h.decode?_eq_some.mp hread, List.length_map]

end HexText

/-- Different integers are written as different texts. -/
theorem DecimalText.write_inj {write : ℕ → String} {parse? : ℕ → List Char → Option ℕ}
    (h : DecimalText write parse?) {m n : ℕ} : write m = write n ↔ m = n := by
  refine ⟨fun heq => ?_, congrArg write⟩
  have hm : parse? (max m n + 1) (write m).toList = some m :=
    h.parse?_eq_some.mpr ⟨rfl, by omega⟩
  have hn : parse? (max m n + 1) (write n).toList = some n :=
    h.parse?_eq_some.mpr ⟨rfl, by omega⟩
  exact Option.some.inj (hm.symm.trans (heq ▸ hn))

/-- Byte strings are written and read so. -/
theorem hexText : HexText Hex.encode Hex.decode? where
  decode?_eq_some := Hex.decode?_eq_some
  length_encode := Hex.length_encode
  exists_digit := Hex.exists_digit_of_mem_encode

/-- Integers are written and read so. -/
theorem decimalText : DecimalText toString Decimal.parse? where
  parse?_eq_some := Decimal.parse?_eq_some

/-- JSON is written and read so. -/
theorem jsonText : JsonText Json.pretty Json.parse? Json.parseBytes? where
  parse?_pretty := Json.parse?_pretty
  parseBytes?_toUTF8 := Json.parseBytes?_toUTF8

end BeaconSsz

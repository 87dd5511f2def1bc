import BeaconSsz.Bytes

/-!
# Hexadecimal text

Bytes are written with two lower-case digits each, high half first. Reading accepts digits of
either case, and refuses an odd number of digits or any other character.
-/

namespace BeaconSsz.Hex

/-- The lower-case digit of a number below sixteen. -/
def digit (n : Nat) : Char :=
  if n < 10 then Char.ofNat (48 + n) else Char.ofNat (87 + n)

/-- The value of a hexadecimal digit of either case. -/
def digitValue? (c : Char) : Option Nat :=
  if '0' ≤ c ∧ c ≤ '9' then some (c.toNat - 48)
  else if 'a' ≤ c ∧ c ≤ 'f' then some (c.toNat - 87)
  else if 'A' ≤ c ∧ c ≤ 'F' then some (c.toNat - 55)
  else none

/-- The two digits of a byte. -/
def encodeByte (byte : UInt8) : List Char :=
  [digit (byte.toNat / 16), digit (byte.toNat % 16)]

/-- The digits of a byte string. -/
def encode (bytes : Bytes) : List Char :=
  bytes.flatMap encodeByte

/-- The byte written by a pair of digits. -/
def pairValue (pair : List Char) : UInt8 :=
  UInt8.ofNat (pair.foldl (fun n c => 16 * n + (digitValue? c).getD 0) 0)

/-- The bytes written by a text of digits, if it has an even number of digits and nothing else. -/
def decode? (digits : List Char) : Option Bytes :=
  if digits.length % 2 = 0 ∧ digits.all (fun c => (digitValue? c).isSome) then
    some ((Bytes.pieces 2 digits).map pairValue)
  else
    none

/-- The digits of a byte string as a text. -/
def text (bytes : Bytes) : String :=
  String.ofList (encode bytes)

/-- The digits of a byte string as a text, behind the marker `0x`. -/
def markedText (bytes : Bytes) : String :=
  String.ofList ('0' :: 'x' :: encode bytes)

end BeaconSsz.Hex

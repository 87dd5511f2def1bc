import BeaconSsz.Bytes.Hex

/-!
# Contents of input files

A file holds the bytes of a value as they are, or as hexadecimal text behind `0x` with blanks
around it. What looks like hexadecimal text but has an odd number of digits is refused.
-/

namespace BeaconSsz.InputFile

/-- Whether a byte is a blank: a space, a tab, a line feed, a form feed or a carriage return. -/
def isBlank (byte : UInt8) : Bool :=
  byte = 0x20 || byte = 0x09 || byte = 0x0a || byte = 0x0c || byte = 0x0d

/-- The bytes without the blanks at both ends. -/
def trim (bytes : Bytes) : Bytes :=
  ((bytes.dropWhile isBlank).reverse.dropWhile isBlank).reverse

/-- The character of a byte, read as Latin text. -/
def charOf (byte : UInt8) : Char :=
  Char.ofNat byte.toNat

/-- The bytes that the contents of a file stand for; none if the digits do not come in pairs. -/
def bytesOf? (contents : Bytes) : Option Bytes :=
  match trim contents with
  | 0x30 :: 0x78 :: digits =>
    if digits.all (fun byte => (Hex.digitValue? (charOf byte)).isSome) then
      Hex.decode? (digits.map charOf)
    else some contents
  | _ => some contents

end BeaconSsz.InputFile

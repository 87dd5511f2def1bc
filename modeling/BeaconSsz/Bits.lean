import BeaconSsz.Bytes
import BeaconSsz.Trap

/-!
# Bit strings

A bit string is a list of booleans. Packed, bit `i` is bit `i % 8` of byte `i / 8`, least
significant first, and the unused high bits of the last byte are zero. A bit string of variable
length is packed with one set bit behind its last bit, the delimiter.
-/

namespace BeaconSsz.Bits

/-- The byte whose lowest bits are given, least significant first. -/
def toByte (bits : List Bool) : UInt8 :=
  UInt8.ofNat (bits.foldr (fun bit n => bit.toNat + 2 * n) 0)

/-- The eight bits of a byte, least significant first. -/
def ofByte (byte : UInt8) : List Bool :=
  (List.range 8).map byte.toNat.testBit

/-- Packs bits into bytes. -/
def pack (bits : List Bool) : Bytes :=
  (Bytes.pieces 8 bits).map toByte

/-- Packs bits into bytes, with the delimiter behind them. -/
def packDelimited (bits : List Bool) : Bytes :=
  pack (bits ++ [true])

/-- The first `count` bits of a byte string, which must have so many. -/
def unpack (bytes : Bytes) (count : Nat) : Except Trap (List Bool) :=
  if count ≤ 8 * bytes.length then .ok ((bytes.flatMap ofByte).take count)
  else .error (.indexOutOfBounds bytes.length bytes.length)

end BeaconSsz.Bits

/-!
# Byte strings

A byte string is a list of bytes. Numbers are written with the least significant byte first.
A byte string is cut into pieces of a given size from the front, so that only the last piece can
be shorter.
-/

namespace BeaconSsz

/-- A string of bytes. -/
abbrev Bytes := List UInt8

namespace Bytes

variable {α : Type}

/-- How many pieces of `size` elements it takes to hold `count` elements. -/
def pieceCount (count size : Nat) : Nat :=
  (count + (size - 1)) / size

/-- Cuts `count` pieces of `size` elements off the front, in front of the pieces already cut. -/
def cutPieces (size : Nat) : Nat → List (List α) → List α → List (List α)
  | 0, pieces, _ => pieces.reverse
  | count + 1, pieces, rest => cutPieces size count (rest.take size :: pieces) (rest.drop size)

/-- All elements in pieces of `size` elements, of which only the last may be shorter. -/
def pieces (size : Nat) (elements : List α) : List (List α) :=
  cutPieces size (pieceCount elements.length size) [] elements

/-- The lowest `width` bytes of a number, least significant first. -/
def littleEndian : Nat → Nat → Bytes
  | 0, _ => []
  | width + 1, n => UInt8.ofNat (n % 256) :: littleEndian width (n / 256)

/-- The number whose bytes are given, least significant first. -/
def toNatLittleEndian : Bytes → Nat
  | [] => 0
  | byte :: rest => byte.toNat + 256 * toNatLittleEndian rest

/-- A byte string of zeros. -/
def zeros (count : Nat) : Bytes :=
  List.replicate count 0

end Bytes

end BeaconSsz

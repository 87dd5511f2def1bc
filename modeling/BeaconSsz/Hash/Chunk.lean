import BeaconSsz.Bytes

/-!
# Chunks

A chunk is the unit of hashing: a leaf of a tree, or the root of a subtree. Byte strings are cut
into chunks from the front, and the last one is padded with zeros.
-/

namespace BeaconSsz

/-- Exactly 32 bytes. -/
structure Chunk where
  bytes : Bytes
  length_eq : bytes.length = 32
  deriving DecidableEq

namespace Chunk

/-- The chunk of 32 zero bytes. -/
def zero : Chunk :=
  ⟨Bytes.zeros 32, rfl⟩

/-- The first 32 bytes of a byte string, padded with zeros. -/
def ofBytes (bytes : Bytes) : Chunk :=
  if h : bytes.length = 32 then ⟨bytes, h⟩
  else ⟨(bytes ++ Bytes.zeros 32).take 32, by simp [Bytes.zeros]⟩

theorem bytes_ofBytes (bytes : Bytes) :
    (ofBytes bytes).bytes = (bytes ++ Bytes.zeros 32).take 32 := by
  unfold ofBytes
  split
  · next h => simp [h]
  · rfl

/-- Cuts bytes into chunks, padding the last one with zeros. -/
def pack (bytes : Bytes) : List Chunk :=
  (Bytes.pieces 32 bytes).map ofBytes

end Chunk

end BeaconSsz

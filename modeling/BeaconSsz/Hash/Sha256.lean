import BeaconSsz.Hash.Chunk

/-!
# SHA-256

The hash function of the tree. A message is padded to whole blocks of 64 bytes with a set bit,
zeros and its length in bits; every block is stretched to 64 words and stirred into a state of
eight words. Words are 32 bits and their sums wrap.
-/

namespace BeaconSsz.Sha256

/-- The eight words carried from block to block. -/
structure State where
  a : UInt32
  b : UInt32
  c : UInt32
  d : UInt32
  e : UInt32
  f : UInt32
  g : UInt32
  h : UInt32

/-- The fractional parts of the square roots of the first eight primes. -/
def State.start : State :=
  ⟨0x6a09e667, 0xbb67ae85, 0x3c6ef372, 0xa54ff53a,
    0x510e527f, 0x9b05688c, 0x1f83d9ab, 0x5be0cd19⟩

/-- The fractional parts of the cube roots of the first 64 primes. -/
def roundConstants : List UInt32 :=
  [0x428a2f98, 0x71374491, 0xb5c0fbcf, 0xe9b5dba5, 0x3956c25b, 0x59f111f1, 0x923f82a4, 0xab1c5ed5,
    0xd807aa98, 0x12835b01, 0x243185be, 0x550c7dc3, 0x72be5d74, 0x80deb1fe, 0x9bdc06a7, 0xc19bf174,
    0xe49b69c1, 0xefbe4786, 0x0fc19dc6, 0x240ca1cc, 0x2de92c6f, 0x4a7484aa, 0x5cb0a9dc, 0x76f988da,
    0x983e5152, 0xa831c66d, 0xb00327c8, 0xbf597fc7, 0xc6e00bf3, 0xd5a79147, 0x06ca6351, 0x14292967,
    0x27b70a85, 0x2e1b2138, 0x4d2c6dfc, 0x53380d13, 0x650a7354, 0x766a0abb, 0x81c2c92e, 0x92722c85,
    0xa2bfe8a1, 0xa81a664b, 0xc24b8b70, 0xc76c51a3, 0xd192e819, 0xd6990624, 0xf40e3585, 0x106aa070,
    0x19a4c116, 0x1e376c08, 0x2748774c, 0x34b0bcb5, 0x391c0cb3, 0x4ed8aa4a, 0x5b9cca4f, 0x682e6ff3,
    0x748f82ee, 0x78a5636f, 0x84c87814, 0x8cc70208, 0x90befffa, 0xa4506ceb, 0xbef9a3f7, 0xc67178f2]

/-- Rotates a word to the right by less than 32 places. -/
@[inline] def rotate (word places : UInt32) : UInt32 :=
  (word >>> places) ||| (word <<< (32 - places))

/-- The mixing function of the older of the two stretched words. -/
@[inline] def stretchOld (word : UInt32) : UInt32 :=
  rotate word 7 ^^^ rotate word 18 ^^^ (word >>> 3)

/-- The mixing function of the newer of the two stretched words. -/
@[inline] def stretchNew (word : UInt32) : UInt32 :=
  rotate word 17 ^^^ rotate word 19 ^^^ (word >>> 10)

/-- Stretches a schedule, newest word first, by `count` words. -/
def stretch : Nat → List UInt32 → List UInt32
  | count + 1, words@(_ :: w₂ :: _ :: _ :: _ :: _ :: w₇ :: _ :: _ :: _ :: _ :: _ :: _ :: _ ::
      w₁₅ :: w₁₆ :: _) =>
    stretch count ((stretchNew w₂ + w₇ + stretchOld w₁₅ + w₁₆) :: words)
  | _, words => words

/-- Stirs the words of a schedule, oldest first, each with its round constant, into eight words. -/
def rounds (a b c d e f g h : UInt32) : List UInt32 → List UInt32 → State
  | constant :: constants, word :: words =>
    let mixed := h + (rotate e 6 ^^^ rotate e 11 ^^^ rotate e 25) + ((e &&& f) ^^^ (~~~e &&& g)) +
      constant + word
    let folded := (rotate a 2 ^^^ rotate a 13 ^^^ rotate a 22) +
      ((a &&& b) ^^^ (a &&& c) ^^^ (b &&& c))
    rounds (mixed + folded) a b c (d + mixed) e f g constants words
  | _, _ => ⟨a, b, c, d, e, f, g, h⟩

/-- The words of a block, most significant byte first, in front of the words already read. -/
def blockWords : List UInt32 → Bytes → List UInt32
  | words, p :: q :: r :: s :: rest =>
    blockWords
      (((p.toUInt32 <<< 24) ||| (q.toUInt32 <<< 16) ||| (r.toUInt32 <<< 8) ||| s.toUInt32) :: words)
      rest
  | words, _ => words

/-- The schedule of a block of 64 bytes, oldest word first: its words, and those stretched from
them. -/
def schedule (block : Bytes) : List UInt32 :=
  (stretch 48 (blockWords [] block)).reverse

/-- Stirs the schedule of a block into the state. -/
def State.absorb (s : State) (schedule : List UInt32) : State :=
  let t := rounds s.a s.b s.c s.d s.e s.f s.g s.h roundConstants schedule
  ⟨s.a + t.a, s.b + t.b, s.c + t.c, s.d + t.d, s.e + t.e, s.f + t.f, s.g + t.g, s.h + t.h⟩

/-- What follows a message of `length` bytes: a set bit, zeros, and the length in bits. -/
def padding (length : Nat) : Bytes :=
  0x80 :: (Bytes.zeros ((119 - length % 64) % 64) ++ (Bytes.littleEndian 8 (8 * length)).reverse)

/-- The bytes of a word, most significant first, in front of others. -/
def putWord (word : UInt32) (rest : Bytes) : Bytes :=
  (word >>> 24).toUInt8 :: (word >>> 16).toUInt8 :: (word >>> 8).toUInt8 :: word.toUInt8 :: rest

/-- The bytes of a state. -/
def State.chunk (s : State) : Chunk :=
  ⟨putWord s.a (putWord s.b (putWord s.c (putWord s.d (putWord s.e (putWord s.f (putWord s.g
    (putWord s.h []))))))), rfl⟩

/-- The hash of a message. -/
def hash (message : Bytes) : Chunk :=
  ((Bytes.pieces 64 (message ++ padding message.length)).foldl
    (fun s block => s.absorb (schedule block)) State.start).chunk

/-- The schedule of the block that follows a message of one block. -/
def closingSchedule : List UInt32 :=
  schedule (padding 64)

/-- The hash of two nodes one after the other, which are one block together. -/
def combine (left right : Chunk) : Chunk :=
  ((State.start.absorb (schedule (left.bytes ++ right.bytes))).absorb closingSchedule).chunk

/-- Two nodes are hashed as the message of their bytes. -/
theorem combine_eq_hash (left right : Chunk) :
    combine left right = hash (left.bytes ++ right.bytes) := by
  have message : (left.bytes ++ right.bytes).length = 64 := by
    simp [left.length_eq, right.length_eq]
  have closing : (padding 64).length = 64 := by decide
  have blocks : Bytes.pieces 64 (left.bytes ++ right.bytes ++ padding 64) =
      [left.bytes ++ right.bytes, padding 64] := by
    generalize left.bytes ++ right.bytes = m at message
    simp [Bytes.pieces, Bytes.pieceCount, Bytes.cutPieces, message, closing, List.take_of_length_le]
  rw [combine, hash, message, blocks, closingSchedule, List.foldl, List.foldl, List.foldl]

end BeaconSsz.Sha256

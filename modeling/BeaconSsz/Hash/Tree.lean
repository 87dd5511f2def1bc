import BeaconSsz.Trap
import BeaconSsz.Hash.Sha256

/-!
# Hash trees

The root of a list of chunks under a limit is the root of the perfect binary tree that has at
least `limit` leaves, of which the first are the chunks and the rest are zero. Only the part of
the tree that holds chunks is hashed: an empty subtree is looked up by its height.

The function that combines two nodes is a parameter, so that what holds of the trees holds for
every such function.
-/

namespace BeaconSsz

/-- A way to combine two nodes, with the roots of its all-zero trees. -/
structure TreeHash where
  combine : Chunk → Chunk → Chunk
  /-- The root of the perfect tree of a given height whose leaves are all zero. -/
  zeroRoot : Nat → Chunk
  zeroRoot_zero : zeroRoot 0 = Chunk.zero
  zeroRoot_succ (height : Nat) : zeroRoot (height + 1) = combine (zeroRoot height) (zeroRoot height)

/-- No tree is taller than this, since limits are words. -/
def maxHeight : Nat := 64

namespace TreeHash

/-- The root of the all-zero tree, computed from the leaves up. -/
def computeZeroRoot (combine : Chunk → Chunk → Chunk) : Nat → Chunk
  | 0 => Chunk.zero
  | height + 1 =>
    let below := computeZeroRoot combine height
    combine below below

/-- The roots of the all-zero trees of the lowest heights, starting from `root`. -/
def zeroRoots (combine : Chunk → Chunk → Chunk) : Nat → Chunk → List Chunk
  | 0, root => [root]
  | count + 1, root => root :: zeroRoots combine count (combine root root)

/-- An entry of the table is the root computed from the leaves up. -/
theorem zeroRoots_getElem? (combine : Chunk → Chunk → Chunk) (count base index : Nat)
    (root : Chunk)
    (h : (zeroRoots combine count (computeZeroRoot combine base))[index]? = some root) :
    root = computeZeroRoot combine (base + index) := by
  induction count generalizing base index with
  | zero => cases index <;> simp_all [zeroRoots]
  | succ count ih =>
    cases index with
    | zero => simp_all [zeroRoots]
    | succ index =>
      have := ih (base + 1) index (by simpa [zeroRoots, computeZeroRoot] using h)
      rw [this]
      congr 1
      omega

/-- The tree hash of a combining function, with the roots of its all-zero trees tabulated. -/
def tabulated (combine : Chunk → Chunk → Chunk) (table : Array Chunk)
    (h : table = (zeroRoots combine maxHeight Chunk.zero).toArray) : TreeHash where
  combine := combine
  zeroRoot height := (table[height]?).getD (computeZeroRoot combine height)
  zeroRoot_zero := by simp [h, zeroRoots, maxHeight]
  zeroRoot_succ height := by
    have entry (index : Nat) :
        (table[index]?).getD (computeZeroRoot combine index) = computeZeroRoot combine index := by
      cases found : table[index]? with
      | none => rfl
      | some root =>
        have := zeroRoots_getElem? combine maxHeight 0 index root
          (by simpa [h, computeZeroRoot] using found)
        simpa using this
    rw [entry, entry, computeZeroRoot]

/-- The roots of the all-zero trees under SHA-256. -/
def sha256ZeroRoots : Array Chunk :=
  (zeroRoots Sha256.combine maxHeight Chunk.zero).toArray

/-- Trees hashed with SHA-256. -/
def sha256 : TreeHash :=
  tabulated Sha256.combine sha256ZeroRoots rfl

/-- The number of leaves of the perfect tree of a height. -/
def leafCount (height : Nat) : Nat :=
  Nat.pow 2 height

variable (H : TreeHash)

/-- The root of the all-zero tree of a height, which must not exceed the greatest height. -/
def zeroRoot? (height : Nat) : Except Trap Chunk :=
  if height ≤ maxHeight then .ok (H.zeroRoot height)
  else .error (.indexOutOfBounds (maxHeight + 1) height)

/-- The root of the perfect tree of a height whose first leaves are the chunks. -/
def rootOf : Nat → List Chunk → Chunk
  | height, [] => H.zeroRoot height
  | 0, chunk :: _ => chunk
  | height + 1, chunks =>
    if chunks.length ≤ leafCount height then H.combine (rootOf height chunks) (H.zeroRoot height)
    else
      H.combine (rootOf height (chunks.take (leafCount height)))
        (rootOf height (chunks.drop (leafCount height)))

/-- Each half of a tree holds its part of the chunks. -/
theorem rootOf_succ (height : Nat) (chunks : List Chunk) :
    H.rootOf (height + 1) chunks =
      H.combine (H.rootOf height (chunks.take (leafCount height)))
        (H.rootOf height (chunks.drop (leafCount height))) := by
  cases chunks with
  | nil => simp [rootOf, H.zeroRoot_succ]
  | cons chunk rest =>
    rw [rootOf.eq_3 _ _ _ (by simp)]
    split
    · next h => rw [List.take_of_length_le h, List.drop_eq_nil_of_le h, rootOf]
    · rfl

end TreeHash

/-- The height of the smallest perfect tree with at least `limit` leaves. -/
def treeHeight (limit : Nat) : Nat :=
  if limit ≤ 1 then 0 else (limit - 1).log2 + 1

/-- The root of the chunks under a limit, which must not be exceeded. -/
def merkleize (H : TreeHash) (chunks : List Chunk) (limit : Nat) : Except Trap Chunk :=
  if max limit 1 < chunks.length then .error (.chunkLimit chunks.length limit)
  else if chunks.isEmpty then H.zeroRoot? (treeHeight limit)
  else .ok (H.rootOf (treeHeight limit) chunks)

/-- Hashes a root with a length behind it, so that lists of different lengths differ. -/
def mixInLength (H : TreeHash) (root : Chunk) (length : Nat) : Chunk :=
  H.combine root (Chunk.ofBytes (Bytes.littleEndian 8 length))

/-- How many chunks hold `length` units at `perChunk` units a chunk. -/
def chunkCount (length perChunk : Nat) : Except Trap Nat := do
  let padded ← Word.add length perChunk
  return (padded - 1) / perChunk

end BeaconSsz

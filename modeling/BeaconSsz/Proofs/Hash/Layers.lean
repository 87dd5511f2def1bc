import BeaconSsz.Proofs.Hash.Commitment
import Mathlib.Order.Bounds.Basic

/-!
# Trees hashed layer by layer

The root of chunks under a limit is that of a perfect tree in which nothing is left out: its
leaves are the chunks and zero chunks behind them, and every other node is hashed from its two
children.

The same root comes out of a loop over sparse layers. A layer holds only the nodes above chunks;
a lone last node is paired with the root of the empty tree of its height. What is left out of a
layer is always a row of such roots, which is the invariant of the loop.
-/

namespace BeaconSsz

namespace TreeHash

variable (H : TreeHash)

/-- The layer above a sparse layer at a height. -/
def layerAbove (height : Nat) : List Chunk → List Chunk
  | left :: right :: rest => H.combine left right :: layerAbove height rest
  | [lone] => [H.combine lone (H.zeroRoot height)]
  | [] => []

/-- The layer so many levels above a sparse layer at a height. -/
def climb : (levels height : Nat) → List Chunk → List Chunk
  | 0, _, layer => layer
  | levels + 1, height, layer => climb levels (height + 1) (H.layerAbove height layer)

/-- There is a node above every pair of nodes, and above a lone one. -/
theorem length_layerAbove (height : Nat) (layer : List Chunk) :
    (H.layerAbove height layer).length = (layer.length + 1) / 2 := by
  induction layer using layerAbove.induct with
  | case1 left right rest ih =>
    rw [layerAbove, List.length_cons, ih, List.length_cons, List.length_cons]
    omega
  | case2 lone => simp [layerAbove]
  | case3 => rfl

/-- Pairs of roots of empty trees are roots of empty trees. -/
theorem pairUp_replicate_zeroRoot (height count : Nat) :
    pairUp H.combine (List.replicate (2 * count) (H.zeroRoot height)) =
      List.replicate count (H.zeroRoot (height + 1)) := by
  induction count with
  | zero => rfl
  | succ count ih =>
    rw [Nat.mul_succ, List.replicate_succ, List.replicate_succ, pairUp, ih, ← H.zeroRoot_succ]
    rfl

/-- One step of the loop: what is left out of the layer above are roots of empty trees again. -/
theorem pairUp_append_zeroRoots (height : Nat) (layer : List Chunk) {missing : Nat}
    (hEven : 2 ∣ layer.length + missing) :
    pairUp H.combine (layer ++ List.replicate missing (H.zeroRoot height)) =
      H.layerAbove height layer ++ List.replicate (missing / 2) (H.zeroRoot (height + 1)) := by
  induction layer using layerAbove.induct with
  | case1 left right rest ih =>
    have hRest : 2 ∣ rest.length + missing := by
      rw [List.length_cons, List.length_cons] at hEven
      omega
    rw [List.cons_append, List.cons_append, pairUp, ih hRest, layerAbove, List.cons_append]
  | case2 lone =>
    rw [List.length_singleton] at hEven
    obtain ⟨count, rfl⟩ : ∃ count, missing = 2 * count + 1 := ⟨missing / 2, by omega⟩
    have hHalf : (2 * count + 1) / 2 = count := by omega
    rw [List.singleton_append, List.replicate_succ, pairUp, pairUp_replicate_zeroRoot, layerAbove,
      hHalf, List.singleton_append]
  | case3 =>
    rw [List.length_nil, Nat.zero_add] at hEven
    obtain ⟨count, rfl⟩ := hEven
    rw [List.nil_append, pairUp_replicate_zeroRoot, layerAbove, List.nil_append,
      Nat.mul_div_cancel_left count (by decide)]

/-- A whole run of the loop: it ends at the root of the layer with all of its nodes. -/
theorem layerRoot_append_zeroRoots {levels height missing : Nat} {layer : List Chunk}
    (hFull : layer.length + missing = 2 ^ levels) :
    layerRoot H.combine levels (layer ++ List.replicate missing (H.zeroRoot height)) =
      (H.climb levels height layer).headD (H.zeroRoot (height + levels)) := by
  induction levels generalizing height missing layer with
  | zero =>
    rw [Nat.pow_zero] at hFull
    cases layer with
    | nil =>
      rw [List.length_nil, Nat.zero_add] at hFull
      rw [hFull]
      rfl
    | cons node rest => rfl
  | succ levels ih =>
    -- A layer and what is missing from it are halved together, so the layer above is full again.
    rw [Nat.pow_succ] at hFull
    have hAbove : (H.layerAbove height layer).length + missing / 2 = 2 ^ levels := by
      rw [length_layerAbove]
      omega
    rw [layerRoot, H.pairUp_append_zeroRoots height layer ⟨2 ^ levels, by omega⟩, ih hAbove, climb,
      Nat.add_right_comm, Nat.add_assoc]

/-- The root of chunks in a perfect tree is found by the loop. -/
theorem layerRoot_padded {height : Nat} {chunks : List Chunk} (h : chunks.length ≤ 2 ^ height) :
    layerRoot H.combine height (padded height chunks) =
      (H.climb height 0 chunks).headD (H.zeroRoot height) := by
  have hFull : chunks.length + (2 ^ height - chunks.length) = 2 ^ height := by omega
  rw [padded, ← H.zeroRoot_zero, H.layerRoot_append_zeroRoots hFull, Nat.zero_add]

end TreeHash

namespace HashTree

/-- All leaves of the tree are chunks, at the same depth. -/
def Perfect : Nat → HashTree → Prop
  | 0, chunk _ => True
  | height + 1, node left right => left.Perfect height ∧ right.Perfect height
  | _, _ => False

/-- The chunks at the bottom of a tree, from left to right. -/
def leaves : HashTree → List Chunk
  | chunk content => [content]
  | empty _ => []
  | node left right => left.leaves ++ right.leaves

/-- The perfect tree of a height over so many chunks. -/
def full : Nat → List Chunk → HashTree
  | 0, layer => chunk (layer.headD Chunk.zero)
  | height + 1, layer =>
    node (full height (layer.take (2 ^ height))) (full height (layer.drop (2 ^ height)))

/-- A perfect tree has a power of two of leaves. -/
theorem Perfect.length_leaves {height : Nat} {tree : HashTree} (h : tree.Perfect height) :
    tree.leaves.length = 2 ^ height := by
  induction height generalizing tree with
  | zero =>
    cases tree with
    | chunk content => rfl
    | _ => exact h.elim
  | succ height ih =>
    cases tree with
    | node left right =>
      rw [leaves, List.length_append, ih h.1, ih h.2, Nat.pow_succ, Nat.mul_two]
    | _ => exact h.elim

/-- A perfect tree is known by its height and its leaves. -/
theorem Perfect.eq_full {height : Nat} {tree : HashTree} (h : tree.Perfect height) :
    tree = full height tree.leaves := by
  induction height generalizing tree with
  | zero =>
    cases tree with
    | chunk content => rfl
    | _ => exact h.elim
  | succ height ih =>
    cases tree with
    | node left right =>
      have hLeft := Perfect.length_leaves h.1
      rw [leaves, full, List.take_left' hLeft, List.drop_left' hLeft, ← ih h.1, ← ih h.2]
    | _ => exact h.elim

section Full

variable {height : Nat} {layer : List Chunk}

/-- A layer with a power of two of chunks has two halves. -/
theorem length_halves (h : layer.length = 2 ^ (height + 1)) :
    (layer.take (2 ^ height)).length = 2 ^ height ∧
      (layer.drop (2 ^ height)).length = 2 ^ height := by
  rw [Nat.pow_succ] at h
  rw [List.length_take, List.length_drop]
  omega

/-- The tree over a layer is perfect. -/
theorem perfect_full (height : Nat) (layer : List Chunk) : (full height layer).Perfect height := by
  induction height generalizing layer with
  | zero => trivial
  | succ height ih => exact ⟨ih _, ih _⟩

/-- The leaves of the tree over a layer are the layer. -/
theorem leaves_full (h : layer.length = 2 ^ height) : (full height layer).leaves = layer := by
  induction height generalizing layer with
  | zero =>
    match layer, h with
    | [content], _ => rfl
  | succ height ih =>
    obtain ⟨hFront, hBack⟩ := length_halves h
    rw [full, leaves, ih hFront, ih hBack, List.take_append_drop]

/-- The root of the tree over a layer is the root of the layer. -/
theorem root_full (H : TreeHash) (h : layer.length = 2 ^ height) :
    (full height layer).root H = layerRoot H.combine height layer := by
  induction height generalizing layer with
  | zero => rfl
  | succ height ih =>
    obtain ⟨hFront, hBack⟩ := length_halves h
    rw [full, root, ih hFront, ih hBack, layerRoot_succ H.combine h]

/-- There is exactly one perfect tree over a layer. -/
theorem perfect_and_leaves_iff (h : layer.length = 2 ^ height) (tree : HashTree) :
    tree.Perfect height ∧ tree.leaves = layer ↔ tree = full height layer := by
  apply Iff.intro
  · intro hTree
    obtain ⟨hPerfect, rfl⟩ := hTree
    exact hPerfect.eq_full
  · intro hTree
    obtain rfl := hTree
    exact ⟨perfect_full height layer, leaves_full h⟩

end Full

end HashTree

/-- The height of the tree under a limit is the least one at which it has enough leaves. -/
theorem isLeast_treeHeight (limit : Nat) :
    IsLeast {height | max limit 1 ≤ 2 ^ height} (treeHeight limit) := by
  apply And.intro
  · exact max_le (HashTree.le_two_pow_treeHeight limit) Nat.one_le_two_pow
  · intro height hRoom
    rw [treeHeight_eq_clog]
    exact Nat.clog_le_of_le_pow ((le_max_left limit 1).trans hRoom)

/-- The height of the tree under a limit, from the leading zeros of the word below the limit. -/
theorem treeHeight_eq_sub_clz {limit : Nat} (hLimit : limit < 2 ^ 64) :
    treeHeight limit =
      if limit ≤ 1 then 0 else 64 - (BitVec.ofNat 64 (limit - 1)).clz.toNat := by
  rw [treeHeight]
  split
  · rfl
  · next hMany =>
    have hWord : (BitVec.ofNat 64 (limit - 1)).toNat = limit - 1 := by
      rw [BitVec.toNat_ofNat, Nat.mod_eq_of_lt (by omega)]
    have hNonzero : BitVec.ofNat 64 (limit - 1) ≠ 0#64 := by
      intro hZero
      rw [hZero, BitVec.toNat_zero] at hWord
      omega
    have hLog := Bits.log2_add_clz hNonzero
    rw [hWord] at hLog
    omega

/-- Merkleization traps exactly if there are more chunks than the limit, or than one if the limit
is zero. Otherwise it gives the root of the one perfect tree, of the least height with enough
leaves for the limit, whose leaves are the chunks and zero chunks behind them, and so does the
loop over sparse layers. -/
theorem merkleize_eq_perfect_root (H : TreeHash) (chunks : List Chunk) (limit : Nat)
    (hLimit : limit < 2 ^ 64) :
    (∀ trap, merkleize H chunks limit = .error trap ↔
      max limit 1 < chunks.length ∧ .chunkLimit chunks.length limit = trap) ∧
    (chunks.length ≤ max limit 1 →
      ∃ height tree, IsLeast {height | max limit 1 ≤ 2 ^ height} height ∧
        (∀ other : HashTree, other.Perfect height ∧
          other.leaves = chunks ++ List.replicate (2 ^ height - chunks.length) Chunk.zero ↔
            other = tree) ∧
        merkleize H chunks limit = .ok (tree.root H) ∧
        merkleize H chunks limit = .ok ((H.climb height 0 chunks).headD (H.zeroRoot height))) := by
  have hOk (hChunks : chunks.length ≤ max limit 1) := merkleize_eq_ok H hLimit hChunks
  refine ⟨fun trap => ?_, fun hChunks => ?_⟩
  · by_cases hMany : max limit 1 < chunks.length
    · rw [merkleize, if_pos hMany, Except.error.injEq]
      exact (and_iff_right hMany).symm
    · rw [hOk (by omega)]
      exact iff_of_false (by simp) fun h => hMany h.1
  · have hHeight := isLeast_treeHeight limit
    have hRoom : chunks.length ≤ 2 ^ treeHeight limit := hChunks.trans hHeight.1
    have hFull := length_padded hRoom
    refine ⟨treeHeight limit, HashTree.full (treeHeight limit) (padded (treeHeight limit) chunks),
      hHeight, HashTree.perfect_and_leaves_iff hFull, ?_, ?_⟩
    · rw [hOk hChunks, HashTree.root_full H hFull, paddedRoot, treeHeight_eq_clog]
    · rw [hOk hChunks, ← H.layerRoot_padded hRoom, paddedRoot, treeHeight_eq_clog]

/-- Under the greatest limit, the perfect tree over a chunk and zero chunks has height 64. Under
the limit zero there is room for one chunk, and two trap. -/
theorem merkleize_sha256_limits :
    (∃ tree : HashTree, tree.Perfect 64 ∧
      merkleize TreeHash.sha256 [Chunk.zero] 18446744073709551615 =
        .ok (tree.root TreeHash.sha256)) ∧
    merkleize TreeHash.sha256 [Chunk.zero, Chunk.zero] 0 = .error (.chunkLimit 2 0) := by
  apply And.intro
  · obtain ⟨height, tree, hLeast, hTree, hRoot, -⟩ :=
      (merkleize_eq_perfect_root TreeHash.sha256 [Chunk.zero] 18446744073709551615
        (by decide)).2 (by decide)
    have hHeight : height = 64 := hLeast.unique (isLeast_treeHeight 18446744073709551615)
    subst hHeight
    exact ⟨tree, ((hTree tree).mpr rfl).1, hRoot⟩
  · exact ((merkleize_eq_perfect_root TreeHash.sha256 [Chunk.zero, Chunk.zero] 0
      (by decide)).1 _).mpr ⟨by decide, rfl⟩

end BeaconSsz

import BeaconSsz.Hash.Tree
import BeaconSsz.Proofs.Result
import Mathlib.Data.Nat.Log
import Mathlib.Tactic.Ring

/-!
# The fully padded tree

The reference for the root of chunks under a limit: the chunks are followed by zero chunks up to
the next power of two of the limit, and the layers are hashed pairwise from the bottom up. The
sparse computation looks up the roots of empty subtrees instead and splits the chunks from the top
down. Both give the same root for every way to combine two nodes.
-/

namespace BeaconSsz

/-- Combines the nodes of a layer pairwise. -/
def pairUp (combine : Chunk → Chunk → Chunk) : List Chunk → List Chunk
  | left :: right :: rest => combine left right :: pairUp combine rest
  | _ => []

/-- The root of a full layer of `2 ^ height` nodes, computed one layer after the other. -/
def layerRoot (combine : Chunk → Chunk → Chunk) : Nat → List Chunk → Chunk
  | 0, layer => layer.headD Chunk.zero
  | height + 1, layer => layerRoot combine height (pairUp combine layer)

/-- The chunks and zero chunks behind them, as many as a tree of a height has leaves. -/
def padded (height : Nat) (chunks : List Chunk) : List Chunk :=
  chunks ++ List.replicate (2 ^ height - chunks.length) Chunk.zero

/-- The root of the tree over the chunks, padded to the next power of two of the limit. -/
def paddedRoot (combine : Chunk → Chunk → Chunk) (chunks : List Chunk) (limit : Nat) : Chunk :=
  layerRoot combine (Nat.clog 2 limit) (padded (Nat.clog 2 limit) chunks)

section Layers

variable (combine : Chunk → Chunk → Chunk)

/-- There are half as many pairs as nodes. -/
theorem length_pairUp (layer : List Chunk) :
    (pairUp combine layer).length = layer.length / 2 := by
  induction layer using pairUp.induct with
  | case1 left right rest ih =>
    simp only [pairUp, List.length_cons, ih]
    omega
  | case2 layer h =>
    match layer, h with
    | [], _ | [_], _ => simp [pairUp]
    | left :: right :: rest, h => exact (h left right rest rfl).elim

/-- The pairs in front are those of the nodes in front. -/
theorem pairUp_take (count : Nat) (layer : List Chunk) :
    pairUp combine (layer.take (2 * count)) = (pairUp combine layer).take count := by
  induction count generalizing layer with
  | zero => simp [pairUp]
  | succ count ih =>
    rw [Nat.mul_succ]
    match layer with
    | [] | [_] => simp [pairUp]
    | left :: right :: rest => simp [pairUp, ih]

/-- The pairs behind are those of the nodes behind. -/
theorem pairUp_drop (count : Nat) (layer : List Chunk) :
    pairUp combine (layer.drop (2 * count)) = (pairUp combine layer).drop count := by
  induction count generalizing layer with
  | zero => simp
  | succ count ih =>
    rw [Nat.mul_succ]
    match layer with
    | [] | [_] => simp [pairUp]
    | left :: right :: rest => simp [pairUp, ih]

/-- The root of a layer combines the roots of its halves. -/
theorem layerRoot_succ {height : Nat} {layer : List Chunk}
    (hlayer : layer.length = 2 ^ (height + 1)) :
    layerRoot combine (height + 1) layer =
      combine (layerRoot combine height (layer.take (2 ^ height)))
        (layerRoot combine height (layer.drop (2 ^ height))) := by
  induction height generalizing layer with
  | zero =>
    match layer, hlayer with
    | [left, right], _ => rfl
  | succ height ih =>
    have hpairs : (pairUp combine layer).length = 2 ^ (height + 1) := by
      rw [length_pairUp, hlayer, Nat.pow_succ, Nat.mul_div_cancel _ (by decide)]
    rw [layerRoot, ih hpairs, ← pairUp_take, ← pairUp_drop, ← Nat.pow_succ']
    rfl

end Layers

/-- Padded chunks are as many as the tree has leaves. -/
theorem length_padded {height : Nat} {chunks : List Chunk} (h : chunks.length ≤ 2 ^ height) :
    (padded height chunks).length = 2 ^ height := by
  rw [padded, List.length_append, List.length_replicate]
  omega

/-- The front half of padded chunks is the padded front of the chunks. -/
theorem take_padded (height : Nat) (chunks : List Chunk) :
    (padded (height + 1) chunks).take (2 ^ height) = padded height (chunks.take (2 ^ height)) := by
  have hdouble : 2 ^ (height + 1) = 2 ^ height + 2 ^ height := by rw [Nat.pow_succ, Nat.mul_two]
  rw [padded, padded, List.take_append, List.take_replicate, List.length_take]
  congr 2
  omega

/-- The back half of padded chunks is the padded rest of the chunks. -/
theorem drop_padded (height : Nat) (chunks : List Chunk) :
    (padded (height + 1) chunks).drop (2 ^ height) = padded height (chunks.drop (2 ^ height)) := by
  have hdouble : 2 ^ (height + 1) = 2 ^ height + 2 ^ height := by rw [Nat.pow_succ, Nat.mul_two]
  rw [padded, padded, List.drop_append, List.drop_replicate, List.length_drop]
  congr 2
  omega

/-- The sparse root is the root of the padded tree. -/
theorem TreeHash.rootOf_eq_layerRoot (H : TreeHash) {height : Nat} {chunks : List Chunk}
    (h : chunks.length ≤ 2 ^ height) :
    H.rootOf height chunks = layerRoot H.combine height (padded height chunks) := by
  induction height generalizing chunks with
  | zero =>
    match chunks, h with
    | [], _ => exact H.zeroRoot_zero
    | [_], _ => rfl
  | succ height ih =>
    have hdouble : 2 ^ (height + 1) = 2 ^ height + 2 ^ height := by rw [Nat.pow_succ, Nat.mul_two]
    have hleaves : leafCount height = 2 ^ height := rfl
    rw [layerRoot_succ H.combine (length_padded h), take_padded, drop_padded, rootOf_succ, hleaves,
      ih (by rw [List.length_take]; omega), ih (by rw [List.length_drop]; omega)]

/-- The height of the tree is the least one with enough leaves. -/
theorem treeHeight_eq_clog (limit : Nat) : treeHeight limit = Nat.clog 2 limit := by
  unfold treeHeight
  split
  · next h => exact (Nat.clog_of_right_le_one h 2).symm
  · next h =>
    have hpred : limit - 1 ≠ 0 := by omega
    have hle : limit ≤ 2 ^ ((limit - 1).log2 + 1) := by
      have := (Nat.log2_lt hpred).mp (Nat.lt_succ_self (limit - 1).log2)
      omega
    have hlt : 2 ^ (limit - 1).log2 < limit := by
      have := Nat.log2_self_le hpred
      omega
    exact le_antisymm ((Nat.lt_clog_iff_pow_lt (by decide)).mpr hlt) (Nat.clog_le_of_le_pow hle)

/-- A tree whose limit is a word is not taller than the table of empty subtrees. -/
theorem treeHeight_le_maxHeight {limit : Nat} (h : limit < wordLimit) :
    treeHeight limit ≤ maxHeight := by
  rw [treeHeight_eq_clog]
  exact Nat.clog_le_of_le_pow h.le

/-- Chunks within a limit have the root of the padded tree. -/
theorem merkleize_eq_ok (H : TreeHash) {chunks : List Chunk} {limit : Nat}
    (hword : limit < wordLimit) (hchunks : chunks.length ≤ max limit 1) :
    merkleize H chunks limit = .ok (paddedRoot H.combine chunks limit) := by
  have hroom : chunks.length ≤ 2 ^ Nat.clog 2 limit := by
    have := Nat.le_pow_clog (b := 2) (by decide) limit
    have : 0 < 2 ^ Nat.clog 2 limit := Nat.pow_pos (by decide)
    omega
  have hroot := H.rootOf_eq_layerRoot hroom
  rw [merkleize, if_neg (by omega), paddedRoot, ← hroot, treeHeight_eq_clog]
  split
  · next hempty =>
    rw [List.isEmpty_iff] at hempty
    subst hempty
    have hheight := treeHeight_le_maxHeight hword
    rw [treeHeight_eq_clog] at hheight
    rw [TreeHash.zeroRoot?, if_pos hheight, TreeHash.rootOf.eq_1]
  · rfl

end BeaconSsz

import BeaconSsz.Proofs.Hash.Packing
import BeaconSsz.Proofs.Hash.Padded

/-!
# Trees of hashings

A tree of hashings says what is hashed for a root, before any hash is computed: chunks at the
bottom, pairs of nodes above them, and empty subtrees whose roots are looked up. Every way to
combine two nodes gives the tree a root, and says which pairs are combined on the way.

If two trees built alike over equally many parts have one root, then their parts have the same
roots one by one, unless a pair combined in the one tree and a different pair combined in the
other give the same node.
-/

namespace BeaconSsz

/-- What is hashed for a root. -/
inductive HashTree where
  | chunk (content : Chunk)
  /-- The all-zero tree of a height. -/
  | empty (height : Nat)
  | node (left right : HashTree)

namespace HashTree

/-- The tree of a height over the given trees, with empty subtrees behind them. -/
def sparse : Nat → List HashTree → HashTree
  | height, [] => empty height
  | 0, tree :: _ => tree
  | height + 1, trees =>
    node (sparse height (trees.take (TreeHash.leafCount height)))
      (sparse height (trees.drop (TreeHash.leafCount height)))

/-- The tree over the given trees that has room for so many. -/
def limited (trees : List HashTree) (limit : Nat) : HashTree :=
  sparse (treeHeight limit) trees

/-- The tree over the chunks of a byte string that has room for so many. -/
def packed (bytes : Bytes) (limit : Nat) : HashTree :=
  limited ((Chunk.pack bytes).map chunk) limit

/-- A tree with a length behind it. -/
def withLength (tree : HashTree) (length : Nat) : HashTree :=
  node tree (chunk (Chunk.ofBytes (Bytes.littleEndian 8 length)))

variable (H : TreeHash)

/-- The root of a tree. -/
def root : HashTree → Chunk
  | chunk content => content
  | empty height => H.zeroRoot height
  | node left right => H.combine left.root right.root

/-- The pairs of nodes that are combined for the root of a tree. -/
def pairs : HashTree → List (Chunk × Chunk)
  | chunk _ => []
  | empty _ => []
  | node left right => (left.root H, right.root H) :: (left.pairs ++ right.pairs)

/-- An input of 64 bytes hashed in one tree and a different one hashed in the other have the same
digest. -/
def Collision (tree other : HashTree) : Prop :=
  ∃ pair ∈ tree.pairs H, ∃ pair' ∈ other.pairs H,
    pair.1.bytes ++ pair.2.bytes ≠ pair'.1.bytes ++ pair'.2.bytes ∧
      H.combine pair.1 pair.2 = H.combine pair'.1 pair'.2

/-- Two trees have one root, and no collision between them is the reason. -/
def Agree (tree other : HashTree) : Prop :=
  tree.root H = other.root H ∧ ¬Collision H tree other

section Roots

/-- The root of a tree over trees is that over their roots. -/
theorem root_sparse (height : Nat) (trees : List HashTree) :
    (sparse height trees).root H = H.rootOf height (trees.map (root H)) := by
  induction height generalizing trees with
  | zero =>
    cases trees with
    | nil => rw [sparse, List.map_nil, TreeHash.rootOf, root]
    | cons tree trees => rw [sparse, List.map_cons, TreeHash.rootOf]
  | succ height ih =>
    cases trees with
    | nil => rw [sparse, List.map_nil, TreeHash.rootOf, root]
    | cons tree trees =>
      rw [sparse, root, ih, ih, TreeHash.rootOf_succ, List.map_take, List.map_drop]
      simp

/-- Merkleization gives the root of the tree with room for the limit. -/
theorem root_limited {trees : List HashTree} {limit : Nat} {chunk : Chunk}
    (h : merkleize H (trees.map (root H)) limit = .ok chunk) :
    (limited trees limit).root H = chunk := by
  unfold merkleize at h
  rw [limited, root_sparse]
  split at h
  · simp at h
  · split at h
    · next hempty =>
      rw [List.isEmpty_iff] at hempty
      unfold TreeHash.zeroRoot? at h
      split at h
      · rw [hempty, TreeHash.rootOf]
        exact Except.ok.inj h
      · simp at h
    · exact Except.ok.inj h

/-- Merkleization of packed bytes gives the root of the tree over their chunks. -/
theorem root_packed {bytes : Bytes} {limit : Nat} {chunk : Chunk}
    (h : merkleize H (Chunk.pack bytes) limit = .ok chunk) :
    (packed bytes limit).root H = chunk := by
  refine root_limited H ?_
  rwa [List.map_map, show root H ∘ HashTree.chunk = id from rfl, List.map_id]

/-- The root of a tree with a length behind it. -/
theorem root_withLength (tree : HashTree) (length : Nat) :
    (tree.withLength length).root H = mixInLength H (tree.root H) length :=
  rfl

end Roots

section Agreement

variable {H} {tree other left right left' right' : HashTree}

/-- Chunks agree if they are equal. -/
theorem Agree.chunk_eq {content content' : Chunk} (h : Agree H (chunk content) (chunk content')) :
    content = content' :=
  h.1

/-- Trees between parts of which there is a collision have one themselves. -/
theorem Collision.mono (h : Collision H left left') (hpairs : left.pairs H ⊆ tree.pairs H)
    (hpairs' : left'.pairs H ⊆ other.pairs H) : Collision H tree other := by
  obtain ⟨pair, hpair, pair', hpair', hcollision⟩ := h
  exact ⟨pair, hpairs hpair, pair', hpairs' hpair', hcollision⟩

/-- Nodes that agree have children that agree. -/
theorem Agree.children (h : Agree H (node left right) (node left' right')) :
    Agree H left left' ∧ Agree H right right' := by
  obtain ⟨hroot, hcollision⟩ := h
  have hbytes : (left.root H).bytes ++ (right.root H).bytes =
      (left'.root H).bytes ++ (right'.root H).bytes := by
    by_contra hne
    exact hcollision ⟨_, List.mem_cons_self, _, List.mem_cons_self, hne, hroot⟩
  have hlength : (left.root H).bytes.length = (left'.root H).bytes.length := by
    rw [Chunk.length_eq, Chunk.length_eq]
  obtain ⟨hleft, hright⟩ := List.append_inj hbytes hlength
  refine ⟨⟨Chunk.eq_of_bytes hleft, fun h => hcollision (h.mono ?_ ?_)⟩,
    Chunk.eq_of_bytes hright, fun h => hcollision (h.mono ?_ ?_)⟩
  all_goals simp [pairs]

/-- Trees over equally many parts that agree have parts that agree. -/
theorem Agree.parts {height : Nat} {trees others : List HashTree}
    (h : Agree H (sparse height trees) (sparse height others))
    (hlength : trees.length = others.length) (hroom : trees.length ≤ 2 ^ height) :
    List.Forall₂ (Agree H) trees others := by
  induction height generalizing trees others with
  | zero =>
    match trees, others, hlength with
    | [], [], _ => exact List.Forall₂.nil
    | [tree], [other], _ => exact List.forall₂_cons.mpr ⟨h, List.Forall₂.nil⟩
  | succ height ih =>
    match trees, others, hlength with
    | [], [], _ => exact List.Forall₂.nil
    | tree :: trees, other :: others, hlength =>
      rw [sparse.eq_3 _ _ (by simp), sparse.eq_3 _ _ (by simp)] at h
      obtain ⟨hfront, hback⟩ := h.children
      have hleaves : TreeHash.leafCount height = 2 ^ height := rfl
      rw [hleaves] at hfront hback
      rw [Nat.pow_succ] at hroom
      have front := ih hfront (by rw [List.length_take, List.length_take, hlength])
        (by rw [List.length_take]; omega)
      have back := ih hback (by rw [List.length_drop, List.length_drop, hlength])
        (by rw [List.length_drop]; omega)
      rw [← List.take_append_drop (2 ^ height) (tree :: trees),
        ← List.take_append_drop (2 ^ height) (other :: others)]
      exact List.rel_append front back

/-- A limit leaves room for as many leaves as it says. -/
theorem le_two_pow_treeHeight (limit : Nat) : limit ≤ 2 ^ treeHeight limit := by
  rw [treeHeight_eq_clog]
  exact Nat.le_pow_clog (by decide) limit

/-- Trees over equally many parts within a limit that agree have parts that agree. -/
theorem Agree.limited_parts {limit : Nat} {trees others : List HashTree}
    (h : Agree H (limited trees limit) (limited others limit))
    (hlength : trees.length = others.length) (hroom : trees.length ≤ limit) :
    List.Forall₂ (Agree H) trees others :=
  h.parts hlength (hroom.trans (le_two_pow_treeHeight limit))

/-- A byte string of known length is known by its chunks. -/
theorem pack_inj {bytes others : Bytes} (hlength : bytes.length = others.length)
    (h : Chunk.pack bytes = Chunk.pack others) : bytes = others := by
  rw [pack_eq_chunksOf, pack_eq_chunksOf, chunksOf, chunksOf, hlength, List.map_inj_left] at h
  apply List.ext_getElem hlength
  intro k hk hk'
  have hindex : k / 32 < others.length ⌈/⌉ 32 := by
    rw [Nat.ceilDiv_eq_add_pred_div]
    omega
  have hbytes := congrArg Chunk.bytes (h _ (List.mem_range.mpr hindex))
  rw [bytes_chunkAt, bytes_chunkAt, List.map_inj_left] at hbytes
  have hbyte := hbytes (k % 32) (List.mem_range.mpr (Nat.mod_lt k (by decide)))
  rwa [Nat.div_add_mod, List.getD_eq_getElem _ _ hk, List.getD_eq_getElem _ _ hk'] at hbyte

/-- Packed byte strings of one length that agree are equal. -/
theorem Agree.packed_eq {limit : Nat} {bytes others : Bytes}
    (h : Agree H (packed bytes limit) (packed others limit))
    (hlength : bytes.length = others.length) (hroom : bytes.length ⌈/⌉ 32 ≤ limit) :
    bytes = others := by
  have hcount (bytes : Bytes) :
      ((Chunk.pack bytes).map HashTree.chunk).length = bytes.length ⌈/⌉ 32 := by
    rw [List.length_map, pack_eq_chunksOf, length_chunksOf]
  have hparts := h.limited_parts (by rw [hcount, hcount, hlength]) (by rwa [hcount])
  rw [List.forall₂_map_left_iff, List.forall₂_map_right_iff] at hparts
  exact pack_inj hlength (List.forall₂_eq_eq_eq ▸ hparts.imp fun _ _ h => h.chunk_eq)

/-- A length that is a word is known by the chunk behind the tree. -/
theorem Agree.withLength_eq {length length' : Nat} (hlength : length < 2 ^ 64)
    (hlength' : length' < 2 ^ 64)
    (h : Agree H (tree.withLength length) (other.withLength length')) :
    Agree H tree other ∧ length = length' := by
  obtain ⟨htree, hchunk⟩ := h.children
  refine ⟨htree, ?_⟩
  have hdigits (n : Nat) :
      (Chunk.ofBytes (Bytes.littleEndian 8 n)).bytes.take 8 = Bytes.littleEndian 8 n := by
    rw [Chunk.bytes_ofBytes, List.take_take, Nat.min_eq_left (by decide),
      List.take_left' (Bytes.length_littleEndian _ _)]
  have hwritten : Bytes.littleEndian 8 length = Bytes.littleEndian 8 length' := by
    rw [← hdigits length, hchunk.chunk_eq, hdigits]
  have hread := congrArg Bytes.toNatLittleEndian hwritten
  rwa [Bytes.toNatLittleEndian_littleEndian, Bytes.toNatLittleEndian_littleEndian,
    show 256 ^ 8 = 2 ^ 64 by rfl, Nat.mod_eq_of_lt hlength, Nat.mod_eq_of_lt hlength'] at hread

end Agreement

end HashTree

end BeaconSsz

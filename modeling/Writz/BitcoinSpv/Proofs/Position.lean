import Mathlib.Data.List.NodupEquivFin
import Writz.BitcoinSpv.Proofs.Inclusion
import Writz.Util.MerklePath

/-!
# Proofs: the position a Merkle proof pins

The proof that Bitcoin's algorithm builds for a leaf is accepted, and an accepted proof of the tree's
depth is a proof of the leaf that its index names. The index is read as many bits up as the proof is
long; what is above is never looked at.
-/

namespace Writz.Spv

open MerkleTree (path origin CollisionFree)

/-- Bitcoin's Merkle root over the txids of a block; none for no txids. -/
def computeMerkleRoot (C : Crypto) (txids : List (BytesN 32)) : Option (BytesN 32) :=
  MerkleTree.root (sha256d C) join txids

/-- The sibling hashes, leaf to root, of the transaction at `txIndex`. -/
def computeMerkleProof (C : Crypto) (txids : List (BytesN 32)) (txIndex : Nat) :
    Option (List (BytesN 32)) :=
  MerkleTree.siblings (sha256d C) join txids txIndex

/-- Every byte string hashed for the root over the txids and in the verification of a proof. -/
def climbedBytes (C : Crypto) (txids : List (BytesN 32)) (txid : BytesN 32) (txIndex : Nat)
    (proof : List (BytesN 32)) : List Bytes :=
  MerkleTree.nodes (sha256d C) join txids
    ++ MerkleTree.stepJoins (sha256d C) join txid (steps txIndex proof)

variable {C : Crypto}

/-- The loop's side tests are those of the index's bits. -/
theorem steps_eq_path (proof : List (BytesN 32)) : ∀ index, steps index proof = path index proof := by
  induction proof with
  | nil => intro index; rfl
  | cons sibling proof ih =>
    intro index
    rw [steps, path, ih, Nat.and_one_is_mod, Nat.shiftRight_one]

theorem verifyMerkleInclusion_iff {txid merkleRoot : BytesN 32} {txIndex : Nat}
    {proof : List (BytesN 32)} :
    verifyMerkleInclusion C txid txIndex proof merkleRoot = .ok () ↔
      MerkleTree.climb (sha256d C) join txid (path txIndex proof) = merkleRoot := by
  rw [verifyMerkleInclusion, foldProof_eq_climb, steps_eq_path]
  split_ifs with h
  · exact iff_of_true rfl h
  · exact iff_of_false (by rintro ⟨⟩) h

/-- Bitcoin's proof of a transaction is accepted, whatever the width of the tree. -/
theorem merkle_complete (C : Crypto) (txids : List (BytesN 32)) (i : Fin txids.length) :
    ∃ proof merkleRoot, computeMerkleProof C txids i = some proof ∧
      computeMerkleRoot C txids = some merkleRoot ∧
      verifyMerkleInclusion C txids[i] i proof merkleRoot = .ok () := by
  have hleaf : txids[i.val]? = some txids[i] := List.getElem?_eq_getElem i.isLt
  obtain ⟨proof, hproof, hroot⟩ :=
    @MerkleTree.climb_siblings Bytes (BytesN 32) (sha256d C) join txids i txids[i] hleaf
  exact ⟨proof, _, hproof, hroot, verifyMerkleInclusion_iff.mpr rfl⟩

/-- A proof of the tree's depth is accepted, and no two of the strings hashed collide. -/
structure Proves (C : Crypto) (txids : List (BytesN 32)) (merkleRoot txid : BytesN 32) (txIndex : Nat)
    (proof : List (BytesN 32)) : Prop where
  depth : proof.length = Nat.clog 2 txids.length
  free : CollisionFree (sha256d C) (climbedBytes C txids txid txIndex proof)
  accepted : verifyMerkleInclusion C txid txIndex proof merkleRoot = .ok ()

section

variable {txids : List (BytesN 32)} {merkleRoot txid : BytesN 32} {txIndex : Nat}
  {proof : List (BytesN 32)}

theorem Proves.width (h : Proves C txids merkleRoot txid txIndex proof) :
    txids.length ≤ 2 ^ proof.length := by
  rw [h.depth]
  exact Nat.le_pow_clog one_lt_two _

/-- An accepted proof of the tree's depth starts at the leaf that its index names. -/
theorem Proves.leaf (hroot : computeMerkleRoot C txids = some merkleRoot)
    (h : Proves C txids merkleRoot txid txIndex proof) :
    txids[origin txids.length proof.length txIndex]? = some txid := by
  have hproof := verifyMerkleInclusion_iff.mp h.accepted
  have hne : txids ≠ [] := by
    rintro rfl
    cases hroot
  -- the root is the only node of the level as many steps above the leaves as the proof has
  have hlevel := MerkleTree.rootWithin_eq (sha256d C) join txids.length txids (Nat.le_succ _)
  have hone := MerkleTree.length_iterate_levelUp (sha256d C) join proof.length txids hne h.width
  rw [show MerkleTree.rootWithin (sha256d C) join txids.length txids = some merkleRoot from hroot,
    ← h.depth] at hlevel
  obtain ⟨node, hnode⟩ := List.length_eq_one_iff.mp hone
  rw [hnode, ← hproof] at hlevel
  obtain rfl := Option.some.inj hlevel
  refine MerkleTree.leaf_of_climb join_injective h.free proof hnode ?_ ?_
  · rw [← steps_eq_path]
    exact List.subset_append_right _ _
  · intro j hj
    have hbelow := MerkleTree.joins_subset_nodesWithin (sha256d C) join txids.length txids
      (Nat.le_succ _) j (h.depth ▸ hj)
    exact List.Subset.trans hbelow (List.subset_append_left _ _)

theorem Proves.leaf_of_lt (hroot : computeMerkleRoot C txids = some merkleRoot)
    (h : Proves C txids merkleRoot txid txIndex proof) (hlow : txIndex % 2 ^ proof.length < txids.length) :
    txids[txIndex % 2 ^ proof.length]? = some txid := by
  have hleaf := h.leaf hroot
  rwa [← MerkleTree.origin_mod, MerkleTree.origin_eq_self _ h.width hlow] at hleaf

/-- Where the strings hashed do not collide, an accepted proof of the tree's depth proves the leaf that
the low bits of its index name: the leaf at that place if there is one. Two indexes of leaves for one
transaction mean that the block repeats it. -/
theorem proof_pins_position (hroot : computeMerkleRoot C txids = some merkleRoot)
    (h : Proves C txids merkleRoot txid txIndex proof) :
    txids[origin txids.length proof.length (txIndex % 2 ^ proof.length)]? = some txid ∧
      (txIndex % 2 ^ proof.length < txids.length →
        txids[txIndex % 2 ^ proof.length]? = some txid) ∧
      ∀ (txIndex' : Nat) (proof' : List (BytesN 32)),
        Proves C txids merkleRoot txid txIndex' proof' →
        txIndex < txids.length → txIndex' < txids.length → txIndex ≠ txIndex' →
          List.Duplicate txid txids := by
  -- a leaf's own index has no bits above the depth
  have hself : ∀ {i p}, Proves C txids merkleRoot txid i p → i < txids.length →
      txids[i]? = some txid := by
    intro i p hp hi
    have hleaf := hp.leaf hroot
    rwa [MerkleTree.origin_eq_self _ hp.width hi] at hleaf
  refine ⟨?_, h.leaf_of_lt hroot, ?_⟩
  · rw [MerkleTree.origin_mod]
    exact h.leaf hroot
  · intro txIndex' proof' h' hi hi' hne
    have hx := hself h hi
    have hx' := hself h' hi'
    rw [List.getElem?_eq_getElem hi, Option.some.injEq] at hx
    rw [List.getElem?_eq_getElem hi', Option.some.injEq] at hx'
    rw [List.duplicate_iff_exists_distinct_get]
    rcases Nat.lt_or_gt_of_ne hne with hlt | hlt
    · exact ⟨⟨txIndex, hi⟩, ⟨txIndex', hi'⟩, hlt, hx.symm, hx'.symm⟩
    · exact ⟨⟨txIndex', hi'⟩, ⟨txIndex, hi⟩, hlt, hx'.symm, hx.symm⟩

end

/-! ## Six transactions -/

namespace Demo

def leaf (i : UInt8) : BytesN 32 := ⟨List.replicate 32 i, rfl⟩

/-- The txids of a block of six transactions. -/
def txids : List (BytesN 32) := [leaf 0, leaf 1, leaf 2, leaf 3, leaf 4, leaf 5]

def node01 : BytesN 32 := bytesN 32 0x705ede9d42476fc3e5a978b042ce790a193678f46d19f47ec4ab46539c47b76d
def node23 : BytesN 32 := bytesN 32 0x1b12c142ca6fabe6cccf4aa52aff1f21882ec49da2dd4c1cf70abffcc45f591b
def node45 : BytesN 32 := bytesN 32 0x67ee825b2e0602f6c338c516d2be4aa1f06df6c3d98402bce7cac3517d8565a0
def node0123 : BytesN 32 :=
  bytesN 32 0xac41efca4951b1260054e1155fd8f6c3f42a5b521f1161b20f3c053d3159816c
def node4545 : BytesN 32 :=
  bytesN 32 0x204f8010ba7f3cbcd0ad3142c5ef96ba8b8834ec6f5ff6b0a4798f9e058cb33d
def txidsRoot : BytesN 32 :=
  bytesN 32 0x7a491a2d769983ce5b4d5fa9f189037ce4aa132e0b774a5e511cc24a42060ffd

/-- The nodes of the tree, with what they hash. -/
def hashed : List (Bytes × BytesN 32) :=
  [(join (leaf 0) (leaf 1), node01), (join (leaf 2) (leaf 3), node23), (join (leaf 4) (leaf 5), node45),
    (join node01 node23, node0123), (join node45 node45, node4545), (join node0123 node4545, txidsRoot)]

theorem hashed_eq : ∀ p ∈ hashed, sha256d crypto p.1 = p.2 := by decide +kernel

theorem hash01 : sha256d crypto (join (leaf 0) (leaf 1)) = node01 := hashed_eq (_, node01) (.head _)
theorem hash23 : sha256d crypto (join (leaf 2) (leaf 3)) = node23 := hashed_eq (_, node23) (.tail _ (.head _))
theorem hash45 : sha256d crypto (join (leaf 4) (leaf 5)) = node45 :=
  hashed_eq (_, node45) (.tail _ (.tail _ (.head _)))
theorem hash0123 : sha256d crypto (join node01 node23) = node0123 :=
  hashed_eq (_, node0123) (.tail _ (.tail _ (.tail _ (.head _))))
theorem hash4545 : sha256d crypto (join node45 node45) = node4545 :=
  hashed_eq (_, node4545) (.tail _ (.tail _ (.tail _ (.tail _ (.head _)))))
theorem hashRoot : sha256d crypto (join node0123 node4545) = txidsRoot :=
  hashed_eq (_, txidsRoot) (.tail _ (.tail _ (.tail _ (.tail _ (.tail _ (.head _))))))

/-- The fifth transaction's proof: the level above the last one duplicates its pair. -/
def fifthProof : List (BytesN 32) := [leaf 5, node45, node0123]

theorem txids_root : computeMerkleRoot crypto txids = some txidsRoot := by
  simp only [computeMerkleRoot, MerkleTree.root, MerkleTree.rootWithin, MerkleTree.levelUp,
    MerkleTree.joins, txids, List.length_cons, List.length_nil, List.map_cons, List.map_nil, hash01,
    hash23, hash45, hash0123, hash4545, hashRoot]
  rfl

theorem txids_nodes : MerkleTree.nodes (sha256d crypto) join txids = hashed.map Prod.fst := by
  simp only [MerkleTree.nodes, MerkleTree.nodesWithin, MerkleTree.levelUp, MerkleTree.joins, txids,
    List.length_cons, List.length_nil, List.map_cons, List.map_nil, hash01, hash23, hash45, hash0123,
    hash4545]
  rfl

/-- The fifth transaction is proved at its own index, and at one in the padding. -/
theorem fifth_proves {txIndex : Nat} (h : txIndex = 4 ∨ txIndex = 6) :
    Proves crypto txids txidsRoot (leaf 4) txIndex fifthProof := by
  refine ⟨by decide, ?_, ?_⟩
  · refine (MerkleTree.collisionFree_of_table hashed_eq (by decide)).subset ?_
    rw [climbedBytes, txids_nodes]
    refine List.append_subset.mpr ⟨List.Subset.refl _, ?_⟩
    rcases h with rfl | rfl <;>
      simp [fifthProof, steps, MerkleTree.stepJoins, MerkleTree.stepJoin, hash45, hash4545, hashed]
  · rw [verifyMerkleInclusion_iff]
    rcases h with rfl | rfl <;>
      simp [fifthProof, path, MerkleTree.stepJoin, hash45, hash4545, hashRoot]

end Demo

theorem proof_pins_position_six : Demo.txids[4]? = some (Demo.leaf 4) := by
  have hpins := proof_pins_position Demo.txids_root (Demo.fifth_proves (.inl rfl))
  exact hpins.2.1 (by decide)

/-- An index past the padded width is accepted; and in a block of six, one in the padding names the
fifth transaction and not the last. -/
theorem position_not_pinned :
    (¬∀ (txids : List (BytesN 32)) (merkleRoot txid : BytesN 32) (txIndex : Nat)
      (proof : List (BytesN 32)), computeMerkleRoot Demo.crypto txids = some merkleRoot →
      Proves Demo.crypto txids merkleRoot txid txIndex proof →
        txIndex < 2 ^ Nat.clog 2 txids.length) ∧
    ¬∀ (txids : List (BytesN 32)) (merkleRoot txid : BytesN 32) (txIndex : Nat)
      (proof : List (BytesN 32)), computeMerkleRoot Demo.crypto txids = some merkleRoot →
      Proves Demo.crypto txids merkleRoot txid txIndex proof →
      txIndex < 2 ^ Nat.clog 2 txids.length →
        txids[min txIndex (txids.length - 1)]? = some txid := by
  constructor
  · intro h
    have hempty : Proves Demo.crypto [Demo.leaf 0] (Demo.leaf 0) (Demo.leaf 0) 1 [] := by
      refine ⟨by decide, ?_, rfl⟩
      intro m hm
      cases hm
    have hbelow := h [Demo.leaf 0] (Demo.leaf 0) (Demo.leaf 0) 1 [] rfl hempty
    revert hbelow
    decide
  · intro h
    have hlast := h _ _ _ _ _ Demo.txids_root (Demo.fifth_proves (.inr rfl)) (by decide)
    revert hlast
    decide

end Writz.Spv

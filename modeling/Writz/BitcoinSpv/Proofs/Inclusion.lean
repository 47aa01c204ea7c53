import Writz.BitcoinSpv.Proofs.Effects
import Writz.BitcoinSpv.Deployment
import Writz.Util.MerkleTree

/-!
# Proofs: inclusion

`verify_transaction` rejects a 64-byte transaction, so a proof cannot start at a node of the tree. It
can still start below a leaf, where the block has a 64-byte transaction: its bytes are then the join
of a node and a sibling the prover chose.
-/

namespace Writz.Spv

/-- The bytes a Merkle tree node hashes. -/
def join (left right : BytesN 32) : Bytes := left.1 ++ right.1

theorem join_injective (a b c d : BytesN 32) (h : join a b = join c d) : a = c ∧ b = d := by
  obtain ⟨hac, hbd⟩ := List.append_inj h (by rw [a.2, c.2])
  exact ⟨Subtype.ext hac, Subtype.ext hbd⟩

theorem length_join (a b : BytesN 32) : (join a b).length = 64 := by
  rw [join, List.length_append, a.2, b.2]

/-- The Merkle root Bitcoin computes over the transactions of a block; a block has at least one. -/
def blockRoot (C : Crypto) (txs : List Bytes) : Option (BytesN 32) :=
  MerkleTree.root (sha256d C) join (txs.map (sha256d C))

/-- The bytes hashed at a step of a proof. -/
def nodeBytes (current : BytesN 32) (index : Nat) (sibling : BytesN 32) : Bytes :=
  if index &&& 1 = 1 then join sibling current else join current sibling

/-- The steps of a proof: whether the sibling is on the left, and the sibling. -/
def steps : Nat → List (BytesN 32) → List (Bool × BytesN 32)
  | _, [] => []
  | index, sibling :: proof => (decide (index &&& 1 = 1), sibling) :: steps (index >>> 1) proof

/-- Every byte string hashed for a block's tree and in the verification of a transaction. -/
def hashedBytes (C : Crypto) (txs : List Bytes) (rawTx : Bytes) (txIndex : Nat)
    (merkleProof : List (BytesN 32)) : List Bytes :=
  rawTx :: (txs ++ MerkleTree.nodes (sha256d C) join (txs.map (sha256d C))
    ++ MerkleTree.stepJoins (sha256d C) join (sha256d C rawTx) (steps txIndex merkleProof))

section

variable {C : Crypto}

theorem stepJoin_eq_nodeBytes (current : BytesN 32) (index : Nat) (sibling : BytesN 32) :
    MerkleTree.stepJoin join current (decide (index &&& 1 = 1), sibling)
      = nodeBytes current index sibling := by
  unfold MerkleTree.stepJoin nodeBytes
  simp only [decide_eq_true_eq]

/-- One turn of the loop hashes the bytes of its step. -/
theorem foldProof_cons (current : BytesN 32) (index : Nat) (sibling : BytesN 32)
    (proof : List (BytesN 32)) :
    foldProof C current index (sibling :: proof)
      = foldProof C (sha256d C (nodeBytes current index sibling)) (index >>> 1) proof := by
  rw [foldProof, parentNode, nodeBytes]
  split_ifs <;> rfl

/-- The loop climbs the steps. -/
theorem foldProof_eq_climb (proof : List (BytesN 32)) :
    ∀ current index, foldProof C current index proof
      = MerkleTree.climb (sha256d C) join current (steps index proof) := by
  induction proof with
  | nil => intro current index; rfl
  | cons sibling proof ih =>
    intro current index
    rw [foldProof_cons, steps, MerkleTree.climb_cons, stepJoin_eq_nodeBytes, ih]

theorem shiftRight_one_shiftRight (index n : Nat) : index >>> 1 >>> n = index >>> (n + 1) := by
  rw [← Nat.shiftRight_add, Nat.add_comm]

theorem foldProof_append (low high : List (BytesN 32)) :
    ∀ current index, foldProof C current index (low ++ high)
      = foldProof C (foldProof C current index low) (index >>> low.length) high := by
  induction low with
  | nil => intro current index; rfl
  | cons sibling low ih =>
    intro current index
    rw [List.cons_append, foldProof_cons, foldProof_cons, ih, shiftRight_one_shiftRight,
      List.length_cons]

/-- A split of the steps is a split of the proof. -/
theorem steps_eq_append {low high : List (Bool × BytesN 32)} {s : Bool × BytesN 32} :
    ∀ {proof : List (BytesN 32)} {index : Nat}, steps index proof = low ++ s :: high →
      ∃ below sibling above, proof = below ++ sibling :: above ∧ low = steps index below ∧
        s = (decide (index >>> below.length &&& 1 = 1), sibling) := by
  induction low with
  | nil =>
    intro proof index h
    cases proof with
    | nil => cases h
    | cons sibling proof =>
      obtain ⟨hs, -⟩ := List.cons.inj h
      exact ⟨[], sibling, proof, rfl, rfl, hs.symm⟩
  | cons t low ih =>
    intro proof index h
    cases proof with
    | nil => cases h
    | cons first proof =>
      obtain ⟨ht, h⟩ := List.cons.inj h
      obtain ⟨below, sibling, above, rfl, rfl, rfl⟩ := ih h
      refine ⟨first :: below, sibling, above, rfl, by rw [steps, ht], ?_⟩
      rw [shiftRight_one_shiftRight, List.length_cons]

/-! ## The checks on the block -/

/-- The block's header is stored, after the checkpoint, on the canonical index and deep enough. -/
def Confirmed (s : Storage) (blockHash : BytesN 32) (entry : HeaderEntry)
    (minConfirmations : Nat) : Prop :=
  ∃ config cp best, s.config = some config ∧ s.checkpoint = some cp ∧ s.bestTip = some best ∧
    s.headers.lookup blockHash = some entry ∧ cp.height < entry.height ∧
    entry.height ≤ best.height ∧ s.canonical.lookup entry.height = some blockHash ∧
    minConfirmations ≤ best.height - entry.height + 1

theorem confirmedHeader_iff {s : Storage} {blockHash : BytesN 32} {minConfirmations : Nat}
    {entry : HeaderEntry} :
    (∃ confirmations, confirmedHeader s blockHash minConfirmations = .ok (entry, confirmations)) ↔
      Confirmed s blockHash entry minConfirmations := by
  simp only [confirmedHeader, bind_eq_ok, failIf_eq_ok, okOr_eq_ok, Confirmed, not_le, not_or,
    not_lt, ne_eq, not_not]
  constructor
  · rintro ⟨_, config, hc, cp, hcp, entry', hentry, _, hlo, best, hbest, _, ⟨hhi, hcanon⟩, _, hconf,
      h⟩
    cases h
    exact ⟨config, cp, best, hc, hcp, hbest, hentry, hlo, hhi, hcanon, hconf⟩
  · rintro ⟨config, cp, best, hc, hcp, hbest, hentry, hlo, hhi, hcanon, hconf⟩
    exact ⟨_, config, hc, cp, hcp, entry, hentry, (), hlo, best, hbest, (), ⟨hhi, hcanon⟩, (),
      hconf, rfl⟩

/-- What `verify_transaction` checks. -/
theorem verifyTransaction_iff {s : Storage} {blockHash : BytesN 32} {merkleProof : List (BytesN 32)}
    {txIndex : Nat} {rawTx : Bytes} {minConfirmations : Nat} {entry : HeaderEntry}
    (hentry : s.headers.lookup blockHash = some entry) :
    (∃ result, verifyTransaction C s blockHash merkleProof txIndex rawTx minConfirmations
        = .ok result) ↔
      minConfirmations ≠ 0 ∧ rawTx ≠ [] ∧ rawTx.length ≠ 64 ∧
        Confirmed s blockHash entry minConfirmations ∧
          foldProof C (sha256d C rawTx) txIndex merkleProof = entry.merkleRoot := by
  simp only [verifyTransaction, bind_eq_ok, failIf_eq_ok, orErr_eq_ok, verifyMerkleInclusion]
  constructor
  · rintro ⟨_, _, hmin, _, hempty, _, hlen, ⟨entry', confirmations⟩, hconf, _, hroot, -⟩
    have hok := confirmedHeader_iff.mp ⟨confirmations, hconf⟩
    obtain ⟨_, _, _, -, -, -, hentry', -⟩ := hok
    obtain rfl : entry = entry' := Option.some.inj (hentry.symm.trans hentry')
    split_ifs at hroot with hr
    exact ⟨hmin, hempty, hlen, confirmedHeader_iff.mp ⟨confirmations, hconf⟩, hr⟩
  · rintro ⟨hmin, hempty, hlen, hconf, hroot⟩
    obtain ⟨confirmations, hconf⟩ := confirmedHeader_iff.mpr hconf
    exact ⟨_, (), hmin, (), hempty, (), hlen, (entry, confirmations), hconf, (), if_pos hroot, rfl⟩

/-! ## Soundness -/

/-- A transaction that is not the block's, with a proof that passes a transaction of the block: the
bytes of one of its steps are that transaction, and the siblings above prove it. -/
def Smuggled (C : Crypto) (txs : List Bytes) (rawTx : Bytes) (txIndex : Nat)
    (merkleProof : List (BytesN 32)) (merkleRoot : BytesN 32) : Prop :=
  rawTx ∉ txs ∧ ∃ below sibling above, merkleProof = below ++ sibling :: above ∧
    nodeBytes (foldProof C (sha256d C rawTx) txIndex below) (txIndex >>> below.length) sibling
      ∈ txs ∧
    foldProof C
      (sha256d C
        (nodeBytes (foldProof C (sha256d C rawTx) txIndex below) (txIndex >>> below.length) sibling))
      (txIndex >>> (below.length + 1)) above = merkleRoot

/-- What a proof that leads to the root of a block is good for. -/
theorem proved_included {txs : List Bytes} {rawTx : Bytes} {txIndex : Nat}
    {merkleProof : List (BytesN 32)} {merkleRoot : BytesN 32}
    (hroot : blockRoot C txs = some merkleRoot)
    (hfree : MerkleTree.CollisionFree (sha256d C) (hashedBytes C txs rawTx txIndex merkleProof))
    (hlen : rawTx.length ≠ 64)
    (hproof : foldProof C (sha256d C rawTx) txIndex merkleProof = merkleRoot) :
    rawTx ∈ txs ∨ ∃ below sibling above, merkleProof = below ++ sibling :: above ∧
      nodeBytes (foldProof C (sha256d C rawTx) txIndex below) (txIndex >>> below.length) sibling
        ∈ txs := by
  rw [foldProof_eq_climb] at hproof
  rcases MerkleTree.proved_cases join_injective (hroot.trans (congrArg some hproof.symm)) hfree with
    h | ⟨a, b, rfl⟩ | ⟨low, s, high, hsplit, hmem⟩
  · exact .inl h
  · exact absurd (length_join a b) hlen
  · obtain ⟨below, sibling, above, rfl, rfl, rfl⟩ := steps_eq_append hsplit
    rw [stepJoin_eq_nodeBytes, ← foldProof_eq_climb] at hmem
    exact .inr ⟨below, sibling, above, rfl, hmem⟩

theorem length_nodeBytes (current : BytesN 32) (index : Nat) (sibling : BytesN 32) :
    (nodeBytes current index sibling).length = 64 := by
  unfold nodeBytes
  split_ifs <;> exact length_join _ _

/-- A proof over a block without a 64-byte transaction proves a transaction of the block. -/
theorem included_of_no_node_sized_tx {txs : List Bytes} {rawTx : Bytes} {txIndex : Nat}
    {merkleProof : List (BytesN 32)} {merkleRoot : BytesN 32}
    (hroot : blockRoot C txs = some merkleRoot)
    (hfree : MerkleTree.CollisionFree (sha256d C) (hashedBytes C txs rawTx txIndex merkleProof))
    (hlens : ∀ tx ∈ txs, tx.length ≠ 64) (hlen : rawTx.length ≠ 64)
    (hproof : foldProof C (sha256d C rawTx) txIndex merkleProof = merkleRoot) : rawTx ∈ txs := by
  rcases proved_included hroot hfree hlen hproof with h | ⟨below, sibling, above, -, hmem⟩
  · exact h
  · exact absurd (length_nodeBytes _ _ _) (hlens _ hmem)

/-- Where no two of the strings hashed collide, `verify_transaction` accepts only transactions of the
block exactly when the transaction is not smuggled in through one of the block's past the other
checks. -/
theorem inclusion_sound {s : Storage} {txs : List Bytes} {blockHash : BytesN 32}
    {entry : HeaderEntry} {merkleProof : List (BytesN 32)} {txIndex : Nat} {rawTx : Bytes}
    {minConfirmations : Nat} (hentry : s.headers.lookup blockHash = some entry)
    (hroot : blockRoot C txs = some entry.merkleRoot)
    (hfree : MerkleTree.CollisionFree (sha256d C) (hashedBytes C txs rawTx txIndex merkleProof)) :
    ((∃ result, verifyTransaction C s blockHash merkleProof txIndex rawTx minConfirmations
        = .ok result) → rawTx ∈ txs) ↔
      ¬(minConfirmations ≠ 0 ∧ rawTx ≠ [] ∧ rawTx.length ≠ 64 ∧
        Confirmed s blockHash entry minConfirmations ∧
          Smuggled C txs rawTx txIndex merkleProof entry.merkleRoot) := by
  rw [verifyTransaction_iff hentry]
  constructor
  · rintro hsound ⟨hmin, hempty, hlen, hconf, hnot, below, sibling, above, rfl, -, habove⟩
    refine hnot (hsound ⟨hmin, hempty, hlen, hconf, ?_⟩)
    rw [foldProof_append, foldProof_cons, ← Nat.shiftRight_add]
    exact habove
  · rintro hclean ⟨hmin, hempty, hlen, hconf, hproof⟩
    by_contra hnot
    rcases proved_included hroot hfree hlen hproof with h | ⟨below, sibling, above, rfl, hmem⟩
    · exact hnot h
    · rw [foldProof_append, foldProof_cons, ← Nat.shiftRight_add] at hproof
      exact hclean ⟨hmin, hempty, hlen, hconf, hnot, below, sibling, above, rfl, hmem, hproof⟩

end

/-! ## On the small light client -/

/-- The only transaction of a block, with the empty proof. -/
theorem inclusion_sound_single :
    ∃ (s : Storage) (entry : HeaderEntry),
      s.headers.lookup (hashHeader Demo.crypto Demo.b1) = some entry ∧
        (((∃ result, verifyTransaction Demo.crypto s (hashHeader Demo.crypto Demo.b1) [] 0 Demo.b1Tx
            1 = .ok result) → Demo.b1Tx ∈ [Demo.b1Tx]) ↔
          ¬((1 : Nat) ≠ 0 ∧ Demo.b1Tx ≠ [] ∧ Demo.b1Tx.length ≠ 64 ∧
            Confirmed s (hashHeader Demo.crypto Demo.b1) entry 1 ∧
              Smuggled Demo.crypto [Demo.b1Tx] Demo.b1Tx 0 [] entry.merkleRoot)) := by
  obtain ⟨st, -, hroot⟩ : ∃ st, Runs.Reachable (system Demo.crypto) st ∧
      (st.storage.headers.lookup (hashHeader Demo.crypto Demo.b1)).map HeaderEntry.merkleRoot
        = blockRoot Demo.crypto [Demo.b1Tx] := by
    exact reachable_of_replay Demo.start_deployed [Demo.setRoot, Demo.submit [Demo.b1]]
      (by decide +kernel)
  obtain ⟨entry, hentry, he⟩ := Option.map_eq_some_iff.mp hroot
  exact ⟨st.storage, entry, hentry, inclusion_sound hentry (hroot.symm.trans (by rw [hentry]; rfl))
    (by unfold MerkleTree.CollisionFree; decide +kernel)⟩

/-- A block whose only transaction has 64 bytes, the hash of a forged transaction and a sibling: the
forged transaction is verified. -/
theorem forged_inclusion :
    ∃ st, Runs.Reachable (system Demo.crypto) st ∧
      ((st.storage.headers.lookup (hashHeader Demo.crypto Demo.c1)).map HeaderEntry.merkleRoot
          = blockRoot Demo.crypto [Demo.nodeSizedTx] ∧
        verifyTransaction Demo.crypto st.storage (hashHeader Demo.crypto Demo.c1)
          [Demo.forgedSibling] 0 Demo.forgedTx 1 = .ok
            { txid := sha256d Demo.crypto Demo.forgedTx
              blockHash := hashHeader Demo.crypto Demo.c1
              blockHeight := 806399
              confirmations := 1 } ∧
        Demo.forgedTx ∉ [Demo.nodeSizedTx] ∧
        MerkleTree.CollisionFree (sha256d Demo.crypto)
          (hashedBytes Demo.crypto [Demo.nodeSizedTx] Demo.forgedTx 0 [Demo.forgedSibling])) := by
  unfold MerkleTree.CollisionFree
  exact reachable_of_replay Demo.start_deployed [Demo.setRoot, Demo.submit [Demo.c1]]
    (by decide +kernel)

end Writz.Spv

import Writz.BitcoinSpv.Proofs.Follow
import Writz.BitcoinSpv.Proofs.Position
import Writz.Relayer.ProofRoute
import Writz.Relayer.Proofs.HeaderSync
import Writz.Relayer.Proofs.StripWitness

/-!
# Proofs: the proof route and the light client

What Esplora answers about a mined transaction becomes the arguments with which the light client verifies
it, and the route gives them out exactly when the light client has the confirmations.
-/

namespace Writz.Relayer.SpvProof

open Node Bitcoin Spv HeaderSync

/-! ## Byte order -/

theorem isDot_digit {v : Nat} (h : v < 16) : isDot (Hex.digit v) = true := by
  interval_cases v <;> rfl

theorem matchPairs_encode (bs : Bytes) : matchPairs (Hex.encode bs) = bs.map Hex.encodeByte := by
  induction bs with
  | nil => rfl
  | cons b bs ih =>
    have hb : b.toNat < 256 := b.toNat_lt
    have hhigh : isDot (Hex.digit (b.toNat / 16)) = true := isDot_digit (by omega)
    have hlow : isDot (Hex.digit (b.toNat % 16)) = true := isDot_digit (by omega)
    change matchPairs (Hex.digit (b.toNat / 16) :: Hex.digit (b.toNat % 16) :: Hex.encode bs) = _
    rw [matchPairs, hhigh, hlow, ih]
    rfl

/-- A hash that Esplora displays is turned back into the contract's order. -/
theorem toInternalByteOrder_display (bs : Bytes) :
    toInternalByteOrder (internalHashToDisplayHex bs) = .ok (Hex.encode bs) := by
  have heven : (internalHashToDisplayHex bs).length % 2 = 0 := by
    rw [internalHashToDisplayHex, Hex.length_encode]
    omega
  have hpairs : matchPairs (internalHashToDisplayHex bs) = bs.reverse.map Hex.encodeByte := matchPairs_encode _
  unfold toInternalByteOrder
  rw [failIf, if_neg (by omega)]
  change Except.ok (if matchPairs (internalHashToDisplayHex bs) = [] then internalHashToDisplayHex bs
    else (matchPairs (internalHashToDisplayHex bs)).reverse.flatten) = _
  rw [hpairs]
  cases bs with
  | nil => rfl
  | cons b bs =>
    rw [if_neg (by simp), ← List.map_reverse, List.reverse_reverse, ← List.flatMap_def]
    rfl

theorem bytes32_encode (b : BytesN 32) : bytes32 (Hex.encode b.1) = some b := by
  have hread : fromHex (Hex.encode b.1) = b.1 := fromHex_of_decode (Hex.decode_encode _)
  unfold bytes32
  rw [dif_pos (by rw [hread]; exact b.2)]
  exact congrArg some (Subtype.ext hread)

theorem mapM_bytes32 (hashes : List (BytesN 32)) :
    (hashes.map fun b => Hex.encode b.1).mapM bytes32 = some hashes := by
  induction hashes with
  | nil => rfl
  | cons b hashes ih =>
    rw [List.map_cons, List.mapM_cons, bytes32_encode, ih]
    rfl

/-! ## Requests -/

theorem requestAll_ok {α β : Type} (f : α → Except ProofFailure β) (P : α → β → Prop) :
    ∀ {as : List α}, (∀ a ∈ as, ∃ b, f a = .ok b ∧ P a b) → ∃ bs, requestAll f as = .ok bs ∧ List.Forall₂ P as bs
  | [], _ => ⟨[], rfl, .nil⟩
  | a :: as, h => by
    obtain ⟨b, hb, hab⟩ := h a List.mem_cons_self
    obtain ⟨bs, hbs, hall⟩ := requestAll_ok f P fun a' ha' => h a' (List.mem_cons_of_mem _ ha')
    refine ⟨b :: bs, ?_, .cons hab hall⟩
    rw [requestAll, hb, hbs]
    rfl

theorem requestAll_map {α β γ : Type} {f : β → Except ProofFailure γ} {g : α → β} {k : α → γ}
    (h : ∀ a, f (g a) = .ok (k a)) : ∀ as : List α, requestAll f (as.map g) = .ok (as.map k)
  | [] => rfl
  | a :: as => by
    rw [List.map_cons, requestAll, h, requestAll_map h as]
    rfl

/-! ## Esplora on a mined transaction -/

/-- What Esplora answers about the transaction at `i` of the block at `height`, from a chain of blocks up to
`tip`: the raw transaction with its witnesses or without, hashes in display order, Bitcoin's Merkle proof. -/
structure Answers (C : Crypto) (esplora : EsploraClient) (block : Nat → BytesN 32) (tip : Nat) (tx : Tx)
    (txids : List (BytesN 32)) (height i : Nat) (proof : List (BytesN 32)) : Prop where
  inputs : tx.inputs ≠ []
  leaf : txids[i]? = some (sha256d C tx.serialize)
  siblings : computeMerkleProof C txids i = some proof
  height_le : height ≤ tip
  info : ∃ txid, esplora.getTxInfo (internalHashToDisplayHex (sha256d C tx.serialize).1)
    = .ok { txid, status := { confirmed := true, blockHeight := some height } }
  tipHeight : esplora.getTipHeight = .ok tip
  raw : ∃ raw, esplora.getRawTx (internalHashToDisplayHex (sha256d C tx.serialize).1) = .ok raw ∧
    (raw = tx.serialize ∨ ∃ witnesses, Counted tx witnesses ∧ raw = tx.serializeSegwit witnesses)
  merkle : ∃ blockHeight, esplora.getMerkleProof (internalHashToDisplayHex (sha256d C tx.serialize).1)
    = .ok { blockHeight, merkle := proof.map fun b => internalHashToDisplayHex b.1, pos := i }
  hashes : ∀ h, h ≤ tip → ∃ answer, esplora.getBlockHashAtHeight h = .ok answer ∧
    trim answer = internalHashToDisplayHex (block h).1
  headers : ∀ h, h ≤ tip → ∃ answer, esplora.getBlockHeader (internalHashToDisplayHex (block h).1) = .ok answer

section

variable {C : Crypto} {esplora : EsploraClient} {block : Nat → BytesN 32} {tip : Nat} {tx : Tx}
  {txids : List (BytesN 32)} {height i : Nat} {proof : List (BytesN 32)} {confirmations : Nat}

theorem stripWitness_raw {raw : Bytes} (hin : tx.inputs ≠ [])
    (h : raw = tx.serialize ∨ ∃ witnesses, Counted tx witnesses ∧ raw = tx.serializeSegwit witnesses) :
    stripWitness (Hex.encode raw) = .ok (Hex.encode tx.serialize) := by
  have hread : fromHex (Hex.encode raw) = raw := fromHex_of_decode (Hex.decode_encode _)
  rcases h with rfl | ⟨witnesses, hcounted, rfl⟩
  · rw [stripWitness, isSegwit_serialize hin hread]
    rfl
  · exact stripWitness_serializeSegwit hcounted hread

namespace Answers

/-- The bundle for a number of confirmations. -/
def bundle (C : Crypto) (block : Nat → BytesN 32) (tip : Nat) (tx : Tx) (height i : Nat) (proof : List (BytesN 32))
    (headers : List Text) (confirmations : Nat) : SPVProofBundle where
  txid := internalHashToDisplayHex (sha256d C tx.serialize).1
  rawTxNoWitness := Hex.encode tx.serialize
  blockHash := Hex.encode (block height).1
  txIndex := i
  merkleProof := proof.map fun b => Hex.encode b.1
  headers
  blockHeight := height
  confirmations
  bitcoinTipHeight := some tip

theorem buildSPVProof_few (h : Answers C esplora block tip tx txids height i proof) (hc : 1 ≤ confirmations)
    (hfew : tip + 1 < height + confirmations) :
    buildSPVProof (internalHashToDisplayHex (sha256d C tx.serialize).1) confirmations esplora
      = .error (.insufficientConfirmations (internalHashToDisplayHex (sha256d C tx.serialize).1) confirmations
        (tip - height + 1)) := by
  obtain ⟨txid, hinfo⟩ := h.info
  unfold buildSPVProof
  rw [failIf, if_neg (by omega), hinfo, h.tipHeight]
  change (failIf ((tip : Int) - height + 1 < confirmations) _ >>= _) = _
  rw [failIf, if_pos (by omega)]
  rfl

theorem buildSPVProof_enough (h : Answers C esplora block tip tx txids height i proof) (hc : 1 ≤ confirmations)
    (henough : height + confirmations ≤ tip + 1) : ∃ headers,
    buildSPVProof (internalHashToDisplayHex (sha256d C tx.serialize).1) confirmations esplora
      = .ok (bundle C block tip tx height i proof headers confirmations) := by
  obtain ⟨txid, hinfo⟩ := h.info
  obtain ⟨raw, hraw, hform⟩ := h.raw
  obtain ⟨merkleHeight, hmerkle⟩ := h.merkle
  have hstrip := stripWitness_raw h.inputs hform
  have hranges : ∀ k ∈ List.range' height confirmations, k ≤ tip := by
    intro k hk
    have hlt := (List.mem_range'_1.mp hk).2
    omega
  obtain ⟨blockHashes, hhashes, hall⟩ := requestAll_ok
    (fun k => asked ("/block-height/".toList ++ Nat.toDigits 10 k) (esplora.getBlockHashAtHeight k))
    (fun k answer => k ≤ tip ∧ trim answer = internalHashToDisplayHex (block k).1) (fun k hk => by
      obtain ⟨answer, hanswer, htrim⟩ := h.hashes k (hranges k hk)
      exact ⟨answer, by rw [hanswer]; rfl, hranges k hk, htrim⟩)
  have hknown : ∀ hash ∈ blockHashes, ∃ k ≤ tip, trim hash = internalHashToDisplayHex (block k).1 := by
    clear hhashes
    generalize List.range' height confirmations = heights at hall
    intro hash hmem
    induction hall with
    | nil => cases hmem
    | @cons k answer ks answers hfirst hrest ih =>
      rcases List.mem_cons.mp hmem with rfl | hmem
      · exact ⟨k, hfirst⟩
      · exact ih hmem
  obtain ⟨headerHexes, hheaders, -⟩ := requestAll_ok
    (fun hash => asked ("/block/".toList ++ trim hash ++ "/header".toList) (esplora.getBlockHeader (trim hash)))
    (fun _ _ => True) (fun hash hmem => by
      obtain ⟨k, hk, htrim⟩ := hknown hash hmem
      obtain ⟨answer, hanswer⟩ := h.headers k hk
      exact ⟨answer, by rw [htrim, hanswer]; rfl, trivial⟩)
  have hfirst : trim (blockHashes.headD []) = internalHashToDisplayHex (block height).1 := by
    obtain ⟨n, rfl⟩ := Nat.exists_eq_add_of_le hc
    rw [Nat.add_comm 1 n, List.range'_succ] at hall
    cases hall with
    | cons hhead _ => exact hhead.2
  have hproof : requestAll toInternalByteOrder (proof.map fun b => internalHashToDisplayHex b.1)
      = .ok (proof.map fun b => Hex.encode b.1) := requestAll_map (fun b => toInternalByteOrder_display b.1) proof
  refine ⟨headerHexes.map trim, ?_⟩
  unfold buildSPVProof
  rw [failIf, if_neg (by omega), hinfo, h.tipHeight]
  change (failIf ((tip : Int) - height + 1 < confirmations) _ >>= _) = _
  rw [failIf, if_neg (by omega), hraw]
  change ((stripWitness (Hex.encode raw)).mapError ProofFailure.error >>= _) = _
  rw [hstrip, hmerkle]
  change (requestAll _ (List.range' height confirmations) >>= _) = _
  rw [hhashes]
  change (requestAll _ blockHashes >>= _) = _
  rw [hheaders]
  change (toInternalByteOrder (trim (blockHashes.headD [])) >>= _) = _
  rw [hfirst, toInternalByteOrder_display]
  change (requestAll toInternalByteOrder (proof.map fun b => internalHashToDisplayHex b.1) >>= _) = _
  rw [hproof]
  rfl

end Answers

/-! ## The light client -/

section

variable {st : Spv.State} {cp : Checkpoint} {shown : Nat}

/-- The light client on a chain verifies what it has the confirmations for, of a block above the checkpoint. -/
theorem verifyTransaction_shown (hreach : Runs.Reachable (Spv.system C) st) (hshows : Shows st.storage cp block shown)
    (habove : cp.height < height)
    (hroot : ∀ e, st.storage.headers.lookup (block height) = some e → computeMerkleRoot C txids = some e.merkleRoot)
    (hleaf : txids[i]? = some (sha256d C tx.serialize)) (hproof : computeMerkleProof C txids i = some proof)
    (hc : 1 ≤ confirmations) (hdeep : height + confirmations ≤ shown + 1) :
    verifyTransaction C st.storage (block height) proof i tx.serialize confirmations
      = if tx.serialize.length = 64 then .error (.err .AmbiguousTransactionLength)
        else .ok { txid := sha256d C tx.serialize, blockHash := block height, blockHeight := height
                   confirmations := shown + 1 - height } := by
  obtain ⟨hchain, config, powLimit, hconfig, -, -⟩ := treeData_of_reachable hreach
  obtain ⟨chainwork, hbest⟩ := hshows.best
  obtain ⟨best, -, hchain⟩ := hchain.set cp hshows.checkpoint
  have hcanonical := hshows.canonical height (by omega) (by omega)
  obtain ⟨e, he, rfl⟩ := hchain.recorded _ _ hcanonical
  -- the proof leads to the root of the stored header
  have hinclusion : verifyMerkleInclusion C (sha256d C tx.serialize) i proof e.merkleRoot = .ok () := by
    obtain ⟨proof', hproof', hclimb⟩ :=
      @MerkleTree.climb_siblings Bytes (BytesN 32) (sha256d C) join txids i (sha256d C tx.serialize) hleaf
    obtain rfl : proof = proof' := Option.some.inj (hproof.symm.trans hproof')
    exact verifyMerkleInclusion_iff.mpr (Option.some.inj (hclimb.symm.trans (hroot e he)))
  have hconfirmed : confirmedHeader st.storage (block e.height) confirmations = .ok (e, shown + 1 - e.height) := by
    have hdepth : shown - e.height + 1 = shown + 1 - e.height := by omega
    unfold confirmedHeader
    rw [hconfig, hshows.checkpoint, he, hbest]
    simp only [okOr, bind, Except.bind, failIf]
    have honchain : ¬(e.height > shown ∨ st.storage.canonical.lookup e.height ≠ some (block e.height)) := by
      simp only [not_or, not_lt, ne_eq, not_not]
      exact ⟨by omega, hcanonical⟩
    rw [if_neg (by omega), if_neg honchain, if_neg (by omega), hdepth]
  have hnonempty : tx.serialize ≠ [] := by
    intro hempty
    have hlength := congrArg List.length hempty
    simp only [Tx.serialize, List.length_append, LittleEndian.length_encode, List.length_nil] at hlength
    omega
  unfold verifyTransaction
  rw [failIf, if_neg (by omega), failIf, if_neg hnonempty, failIf]
  by_cases hlength : tx.serialize.length = 64
  · rw [if_pos hlength, if_pos hlength]
    rfl
  · rw [if_neg hlength, if_neg hlength, hconfirmed]
    simp only [bind, Except.bind, hinclusion, orErr, Except.mapError]

/-- It verifies nothing of a block that it has fewer confirmations for. -/
theorem verifyTransaction_behind (hshows : Shows st.storage cp block shown)
    (hdistinct : ∀ h, cp.height ≤ h → h ≤ shown → block h = block height → h = height)
    (hfew : shown + 1 < height + confirmations) (merkleProof : List (BytesN 32)) (txIndex : Nat) (rawTx : Bytes) :
    ∃ a, verifyTransaction C st.storage (block height) merkleProof txIndex rawTx confirmations = .error a := by
  cases hverify : verifyTransaction C st.storage (block height) merkleProof txIndex rawTx confirmations with
  | error a => exact ⟨a, rfl⟩
  | ok result =>
    exfalso
    unfold verifyTransaction at hverify
    simp only [bind_eq_ok] at hverify
    obtain ⟨_, -, _, -, _, -, ⟨e, depth⟩, hconfirmed, -⟩ := hverify
    obtain ⟨config, cp', best, -, hcp, hbest, -, hlo, hhi, hcanonical, hdepth⟩ := confirmedHeader_iff.mp ⟨depth, hconfirmed⟩
    obtain rfl : cp = cp' := Option.some.inj (hshows.checkpoint.symm.trans hcp)
    obtain ⟨chainwork, htip⟩ := hshows.best
    rw [htip] at hbest
    cases hbest
    have hsame : block e.height = block height := by
      have hindex := hshows.canonical e.height (by omega) hhi
      exact Option.some.inj (hindex.symm.trans hcanonical)
    have hheight := hdistinct _ (by omega) hhi hsame
    dsimp only at hhi hdepth
    omega

end

/-! ## The route -/

theorem isSome_value_of_digit {c : Char} {v : Nat} (hv : v < 16) (hc : c.toLower = Hex.digit v) : (Hex.value c).isSome := by
  unfold Hex.value
  rw [hc]
  interval_cases v <;> rfl

/-- A txid that Esplora displays is one in the request, in either case. -/
theorem isTxid_of_display {txid : Text} {b : BytesN 32} (h : toLowerCase txid = internalHashToDisplayHex b.1) :
    isTxid txid = true := by
  have hlength : txid.length = 64 := by
    have hlen := congrArg List.length h
    rw [toLowerCase, List.length_map, internalHashToDisplayHex, Hex.length_encode, List.length_reverse, b.2] at hlen
    exact hlen
  have hdigits : ∀ c ∈ txid, (Hex.value c).isSome := by
    intro c hc
    have hmem : c.toLower ∈ internalHashToDisplayHex b.1 := by
      rw [← h]
      exact List.mem_map_of_mem hc
    obtain ⟨v, hv, heq⟩ := mem_encode hmem
    exact isSome_value_of_digit hv heq
  unfold isTxid
  rw [decide_eq_true hlength, Bool.true_and, List.all_eq_true]
  exact hdigits

/-- The light client holds the chain up to `shown`, and under the hash of the transaction's block the Merkle
root of its transactions. -/
structure Holds (C : Crypto) (st : Spv.State) (cp : Checkpoint) (block : Nat → BytesN 32) (shown tip : Nat)
    (txids : List (BytesN 32)) (height : Nat) : Prop where
  reachable : Runs.Reachable (Spv.system C) st
  shows_chain : Shows st.storage cp block shown
  shown_le : shown ≤ tip
  above : cp.height < height
  root : ∀ e, st.storage.headers.lookup (block height) = some e → computeMerkleRoot C txids = some e.merkleRoot
  distinct : ∀ h, cp.height ≤ h → h ≤ tip → block h = block height → h = height

section

variable {st : Spv.State} {cp : Checkpoint} {shown : Nat} {config : ProofConfig} {txid : Text} {rawConf : Option Text}
  {lcTip : Nat}

/-- The answer is a proof when the light client's tip, as last read, is deep enough above the block. -/
theorem getProof_enough (h : Answers C esplora block tip tx txids height i proof)
    (htxid : toLowerCase txid = internalHashToDisplayHex (sha256d C tx.serialize).1)
    (hconf : confirmationsOf config rawConf = some confirmations) (hc : 1 ≤ confirmations) (htip : lcTip ≤ tip)
    (hdeep : height + confirmations ≤ lcTip + 1) : ∃ headers,
    getProof config esplora (some lcTip) txid rawConf
      = .proof { Answers.bundle C block tip tx height i proof headers confirmations with bitcoinTipHeight := none }
        { blockHash := Hex.encode (block height).1, merkleProof := proof.map fun b => Hex.encode b.1, txIndex := i
          rawTx := Hex.encode tx.serialize, minConfirmations := confirmations } := by
  obtain ⟨headers, hbuilt⟩ := h.buildSPVProof_enough hc (by omega)
  refine ⟨headers, ?_⟩
  unfold getProof
  rw [isTxid_of_display htxid, hconf]
  simp only [Bool.not_true, Bool.false_eq_true, if_false, htxid, computeProof, hbuilt]
  unfold checkLightClient
  dsimp only
  rw [if_neg (by simp only [Answers.bundle]; omega)]
  rfl

theorem getProof_few (h : Answers C esplora block tip tx txids height i proof)
    (htxid : toLowerCase txid = internalHashToDisplayHex (sha256d C tx.serialize).1)
    (hconf : confirmationsOf config rawConf = some confirmations) (hc : 1 ≤ confirmations)
    (hfew : lcTip + 1 < height + confirmations) :
    (getProof config esplora (some lcTip) txid rawConf).status = 409 := by
  unfold getProof
  rw [isTxid_of_display htxid, hconf]
  simp only [Bool.not_true, Bool.false_eq_true, if_false, htxid, computeProof]
  rcases Nat.lt_or_ge (tip + 1) (height + confirmations) with hnone | henough
  · rw [h.buildSPVProof_few hc hnone]
    rfl
  · obtain ⟨headers, hbuilt⟩ := h.buildSPVProof_enough hc henough
    rw [hbuilt]
    unfold checkLightClient
    dsimp only
    rw [if_pos (by simp only [Answers.bundle]; omega)]
    rfl

end

end

/-! ## On the small light client -/

namespace Demo

open Spv.Demo

/-- The transaction of the first block of the second branch. -/
def tx : Tx where
  version := 2
  inputs :=
    [{ prevTxid := (b1Tx.drop 5).take 32, prevTxid_length := rfl, prevIndex := 0, scriptSig := []
       sequence := 0xffffffff }]
  outputs := [{ value := 100000000, scriptPubkey := (b1Tx.drop 56).take 34 }]
  lockTime := 0

def witness : List Bytes := [[0x30, 0x45], [0x02, 0x79]]

def block (h : Nat) : BytesN 32 := if h ≤ 806398 then checkpointHash else prevHashOf b2

def txid : BytesN 32 := sha256d crypto tx.serialize

def display (b : BytesN 32) : Text := internalHashToDisplayHex b.1

/-- Esplora up to that block. -/
def esplora : EsploraClient where
  getTxInfo txid := .ok { txid, status := { confirmed := true, blockHeight := some 806399 } }
  getTipHeight := .ok 806399
  getRawTx _ := .ok (tx.serializeSegwit [witness])
  getMerkleProof _ := .ok { blockHeight := 806399, merkle := [], pos := 0 }
  getBlockHashAtHeight h := .ok (display (block h))
  getBlockHeader _ := .ok (Hex.encode b1.1)

def config : ProofConfig where
  bitcoinNetwork := "signet".toList
  defaultConfirmations := 6
  maxConfirmations := 20
  spvProofCacheTtlMs := 600000
  spvSyncIntervalMs := 60000

/-- The light client on that block. -/
def holds (s : Storage) : Bool :=
  decide (s.checkpoint = rooted.storage.checkpoint) &&
    (match s.bestTip with
      | some best => decide (best.hash = block 806399) && decide (best.height = 806399)
      | none => false) &&
    [806398, 806399].all (fun h => decide (s.canonical.lookup h = some (block h))) &&
    decide (∀ h ∈ s.canonical.keys, h ≤ 806399) &&
    decide ((s.headers.lookup (block 806399)).map HeaderEntry.merkleRoot = computeMerkleRoot crypto [txid])

theorem tx_serialize : tx.serialize = b1Tx := by decide

theorem holds_of {st : Spv.State} {cp : Checkpoint} (hreach : Runs.Reachable (Spv.system crypto) st)
    (h : holds st.storage = true) (hcp : rooted.storage.checkpoint = some cp) :
    Holds crypto st cp block 806399 806399 [txid] 806399 := by
  simp only [holds, Bool.and_eq_true, List.all_eq_true, decide_eq_true_eq] at h
  obtain ⟨⟨⟨⟨hcheckpoint, hbest⟩, hcanonical⟩, hkeys⟩, hroot⟩ := h
  have hheight : cp.height = 806398 := by
    cases hcp
    rfl
  refine ⟨hreach, ⟨hcheckpoint.trans hcp, by omega, ?_, fun h hlo hle => ?_, fun h hlt => ?_⟩, le_rfl, by omega,
    fun e he => ?_, fun h hlo hle heq => ?_⟩
  · cases hb : st.storage.bestTip with
    | none =>
      rw [hb] at hbest
      cases hbest
    | some best =>
      rw [hb] at hbest
      simp only [Bool.and_eq_true, decide_eq_true_eq] at hbest
      obtain ⟨hash, height, chainwork⟩ := best
      obtain ⟨rfl, rfl⟩ := hbest
      exact ⟨chainwork, rfl⟩
  · obtain rfl | rfl : h = 806398 ∨ h = 806399 := by omega
    all_goals exact hcanonical _ (by decide)
  · cases hlookup : st.storage.canonical.lookup h with
    | none => rfl
    | some a =>
      have hmem : h ∈ st.storage.canonical.keys := Finmap.mem_keys.mpr (Finmap.mem_of_lookup_eq_some hlookup)
      have hle := hkeys h hmem
      omega
  · rw [he] at hroot
    exact hroot.symm
  · obtain rfl | rfl : h = 806398 ∨ h = 806399 := by omega
    · exact absurd heq (by decide)
    · rfl

theorem answers : Answers crypto esplora block 806399 tx [txid] 806399 0 [] where
  inputs := by simp [tx]
  leaf := rfl
  siblings := rfl
  height_le := le_rfl
  info := ⟨_, rfl⟩
  tipHeight := rfl
  raw := ⟨_, rfl, .inr ⟨[witness], by constructor <;> decide, rfl⟩⟩
  merkle := ⟨_, rfl⟩
  hashes h _ := by
    refine ⟨_, rfl, trim_eq_self fun c hc => ?_⟩
    obtain ⟨v, hv, rfl⟩ := mem_encode hc
    exact isTrimmed_digit hv
  headers _ _ := ⟨_, rfl⟩

end Demo

end Writz.Relayer.SpvProof

import Writz.Lend.Proofs.Effects
import Writz.Lend.Deployment
import Writz.SpvTypes.Proofs.BtcParser

/-!
# Proofs: what a deposit credits

The checks of `deposit`, and what the position it creates says about the Bitcoin transaction. The
margin above the confirming block is computed with a saturating addition, which loses it where the
height is within the margin of the largest `u32`.
-/

namespace Writz.Lend

variable {τ ρ : Type}

/-- The checks of `deposit`, with what they read. -/
structure DepositChecks (H : Host τ ρ) (env : Env) (w : World τ ρ) (depositor : Address)
    (blockHash : BytesN 32) (merkleProof : List (BytesN 32)) (txIndex : Nat) (rawTx p2wshSpk : Bytes)
    (timelockHeight : Nat) (userPubkey : BytesN 33) (keySig : BytesN 65) (config : Config)
    (r : SpvVerificationResult) (spv : ρ) (satoshis : Nat) : Prop where
  auth : requireAuth H env depositor = .ok ()
  configured : w.config = some config
  live : config.paused = false
  compressed : isCompressedPubkey userPubkey = true
  distinct : userPubkey ≠ config.protocolPubkey
  locked : p2wshSpk
    = p2wshScriptPubkey H.crypto config.protocolPubkey userPubkey timelockHeight
  verified : H.spv.verifyTransaction w.spv config.spvContract blockHash merkleProof txIndex rawTx
    config.minConfirmations = some r
  timelock : timelockInBounds timelockHeight r.blockHeight = true
  signed : signedBy H.crypto (depositMessage H.self depositor r.txid) keySig userPubkey = some true
  fresh : w.positions.lookup r.txid = none
  consumed : H.spv.consumeDeposit w.spv config.spvContract H.self r.txid = some spv
  found : BtcParser.findP2wshOutput rawTx p2wshSpk = .ok satoshis
  enough : config.minDepositSatoshis ≤ satoshis

/-- The position a deposit creates. -/
def depositedPosition (w : World τ ρ) (depositor : Address) (p2wshSpk : Bytes)
    (timelockHeight : Nat) (userPubkey : BytesN 33) (txid : BytesN 32) (satoshis : Nat) : Position :=
  { btcTxid := txid
    btcSatoshis := satoshis
    usdcDebt := 0
    p2wshScriptPubkey := p2wshSpk
    timelockHeight
    lastUpdateLedger := w.ledger.sequence
    debtIndex := INDEX_ONE
    depositor
    status := .Active
    userPubkey }

section

variable {A : Arith} {H : Host τ ρ} {env : Env} {w w' : World τ ρ} {depositor : Address}
  {blockHash : BytesN 32} {merkleProof : List (BytesN 32)} {txIndex : Nat} {rawTx p2wshSpk : Bytes}
  {timelockHeight : Nat} {userPubkey : BytesN 33} {keySig : BytesN 65} {txid : BytesN 32}

theorem depositedSatoshis_eq_ok {n : Nat} :
    depositedSatoshis rawTx p2wshSpk = .ok n ↔ BtcParser.findP2wshOutput rawTx p2wshSpk = .ok n := by
  unfold depositedSatoshis
  split
  · next v h => rw [h]; simp
  · next h => rw [h]; simp
  · next h => rw [h]; simp

/-- A P2WSH script is shaped like one. -/
theorem p2wshScriptPubkey_shape (C : Crypto) (p u : BytesN 33) (n : Nat) :
    ¬((p2wshScriptPubkey C p u n).length ≠ 34 ∨ (p2wshScriptPubkey C p u n)[0]? ≠ some 0x00
      ∨ (p2wshScriptPubkey C p u n)[1]? ≠ some 0x20) := by
  have hlen := (C.sha256 (redeemScript p u n)).2
  simp [p2wshScriptPubkey, hlen]

/-- A deposit succeeds exactly when its checks pass. -/
theorem deposit_eq_ok_iff :
    deposit H env w depositor blockHash merkleProof txIndex rawTx p2wshSpk timelockHeight userPubkey
        keySig = .ok (txid, w') ↔
      ∃ config r spv satoshis,
        DepositChecks H env w depositor blockHash merkleProof txIndex rawTx p2wshSpk timelockHeight
          userPubkey keySig config r spv satoshis ∧
        txid = r.txid ∧
        w' = publish
          { w with
            spv := spv
            positions := w.positions.insert txid
              (depositedPosition w depositor p2wshSpk timelockHeight userPubkey txid satoshis) }
          (.deposit txid satoshis timelockHeight) := by
  simp only [deposit, bind_eq_ok, failIf_eq_ok, okOr_eq_ok, depositedSatoshis_eq_ok]
  constructor
  · rintro ⟨_, hauth, config, hc, _, hlive, _, -, _, hcompressed, _, hdistinct, _, hlocked, r,
      hverified, _, htimelock, signed, hsigned, _, hsig, _, hfresh, spv, hconsumed, satoshis, hfound,
      _, henough, h⟩
    cases h
    rw [Option.isSome_iff_ne_none, not_not] at hfresh
    rw [Bool.not_eq_false] at hsig
    subst hsig
    exact ⟨config, r, spv, satoshis,
      ⟨hauth, hc, by simpa using hlive, by simpa using hcompressed, hdistinct, not_not.mp hlocked,
        hverified, by simpa using htimelock, hsigned, hfresh, hconsumed, hfound, not_lt.mp henough⟩,
      rfl, rfl⟩
  · rintro ⟨config, r, spv, satoshis, hk, rfl, rfl⟩
    refine ⟨(), hk.auth, config, hk.configured, (), by simp [hk.live], (), ?_, (),
      by simp [hk.compressed], (), hk.distinct, (), not_not.mpr hk.locked, r, hk.verified, (),
      by simp [hk.timelock], true, hk.signed, (), by simp, (), by simp [hk.fresh], spv, hk.consumed,
      satoshis, hk.found, (), not_lt.mpr hk.enough, rfl⟩
    rw [hk.locked]
    exact p2wshScriptPubkey_shape _ _ _ _

/-! ## What the position says -/

/-- A signature over a message from which the host recovers a key. -/
def RecoversTo (C : Crypto) (msg : Bytes) (signature : BytesN 65) (pubkey : BytesN 33) : Prop :=
  31 ≤ (signature.1.headD 0).toNat ∧ (signature.1.headD 0).toNat ≤ 42 ∧
    ∃ recovered, C.secp256k1Recover (signedMessageDigest C msg) (rsOf signature)
      (((signature.1.headD 0).toNat - 27) &&& 3) = some recovered ∧ compress recovered = pubkey.1

theorem signedBy_eq_true {C : Crypto} {msg : Bytes} {signature : BytesN 65} {pubkey : BytesN 33}
    (h : signedBy C msg signature pubkey = some true) : RecoversTo C msg signature pubkey := by
  unfold signedBy at h
  dsimp only at h
  split_ifs at h with hheader
  · split at h
    · cases h
    · next recovered hrec => exact ⟨hheader.1, hheader.2, recovered, hrec, by simpa using h⟩
  · simp at h

/-- What is assumed of the light client: it returns a transaction id and a height only for the
serialization of a transaction with inputs that `inChain` says is in a best-chain block of that height
with that many confirmations at least. -/
def SpvSound (H : Host τ ρ) (s : ρ) (inChain : Bitcoin.Tx → Nat → Nat → Prop) : Prop :=
  ∀ a blockHash merkleProof txIndex rawTx minConfirmations r,
    H.spv.verifyTransaction s a blockHash merkleProof txIndex rawTx minConfirmations = some r →
      r.txid = H.crypto.sha256 (H.crypto.sha256 rawTx).1 ∧
        ∃ tx : Bitcoin.Tx, tx.inputs ≠ [] ∧ rawTx = tx.serialize ∧
          inChain tx r.blockHeight minConfirmations

/-- What a successful deposit is worth. `height` is the height of the block that confirmed it. -/
structure Credited (H : Host τ ρ) (inChain : Bitcoin.Tx → Nat → Nat → Prop) (w w' : World τ ρ)
    (depositor : Address) (timelockHeight : Nat) (userPubkey : BytesN 33) (keySig : BytesN 65)
    (txid : BytesN 32) (config : Config) (tx : Bitcoin.Tx) (height : Nat) (pos : Position) :
    Prop where
  configured : w.config = some config
  tx_id : txid = H.crypto.sha256 (H.crypto.sha256 tx.serialize).1
  confirmed : inChain tx height config.minConfirmations
  stored : w'.positions.lookup txid = some pos
  output : ∃ o ∈ tx.outputs, o.value.toNat = pos.btcSatoshis ∧
    o.scriptPubkey = p2wshScriptPubkey H.crypto config.protocolPubkey userPubkey timelockHeight
  enough : config.minDepositSatoshis ≤ pos.btcSatoshis
  timelock : height + MIN_TIMELOCK_MARGIN_BLOCKS ≤ timelockHeight ∧
    timelockHeight ≤ height + MAX_TIMELOCK_MARGIN_BLOCKS
  distinct : userPubkey ≠ config.protocolPubkey
  signed : RecoversTo H.crypto (depositMessage H.self depositor txid) keySig userPubkey
  fields : pos.btcTxid = txid ∧ pos.depositor = depositor ∧ pos.userPubkey = userPubkey ∧
    pos.timelockHeight = timelockHeight
  fresh : w.positions.lookup txid = none
  others : ∀ txid', txid' ≠ txid → w'.positions.lookup txid' = w.positions.lookup txid'
  supplyBalances : w'.supplyBalances = w.supplyBalances
  protocol : w'.protocol = w.protocol

/-- The bounds on the timelock are the exact ones where the earliest height fits a `u32`. -/
theorem timelockInBounds_exact {confirmedHeight : Nat}
    (h : timelockInBounds timelockHeight confirmedHeight = true)
    (hfits : confirmedHeight + MIN_TIMELOCK_MARGIN_BLOCKS ≤ U32_MAX) :
    confirmedHeight + MIN_TIMELOCK_MARGIN_BLOCKS ≤ timelockHeight ∧
      timelockHeight ≤ confirmedHeight + MAX_TIMELOCK_MARGIN_BLOCKS := by
  unfold timelockInBounds saturatingAddU32 at h
  simp only [Bool.and_eq_true, decide_eq_true_eq] at h
  omega

/-- And never leave `u32`. -/
theorem timelockInBounds_le {confirmedHeight : Nat}
    (h : timelockInBounds timelockHeight confirmedHeight = true) : timelockHeight ≤ U32_MAX := by
  unfold timelockInBounds saturatingAddU32 at h
  simp only [Bool.and_eq_true, decide_eq_true_eq] at h
  omega

theorem credited_of_checks {inChain : Bitcoin.Tx → Nat → Nat → Prop} {config : Config}
    {r : SpvVerificationResult} {spv : ρ} {satoshis : Nat} (hspv : SpvSound H w.spv inChain)
    (hk : DepositChecks H env w depositor blockHash merkleProof txIndex rawTx p2wshSpk timelockHeight
      userPubkey keySig config r spv satoshis)
    (hfits : r.blockHeight + MIN_TIMELOCK_MARGIN_BLOCKS ≤ U32_MAX) :
    ∃ tx, rawTx = Bitcoin.Tx.serialize tx ∧ Credited H inChain w
      (publish
        { w with
          spv := spv
          positions := w.positions.insert r.txid
            (depositedPosition w depositor p2wshSpk timelockHeight userPubkey r.txid satoshis) }
        (.deposit r.txid satoshis timelockHeight))
      depositor timelockHeight userPubkey keySig r.txid config tx r.blockHeight
      (depositedPosition w depositor p2wshSpk timelockHeight userPubkey r.txid satoshis) := by
  obtain ⟨hid, tx, hin, hraw, hchain⟩ := hspv _ _ _ _ _ _ _ hk.verified
  have hfound := hk.found
  rw [hraw] at hfound
  obtain ⟨o, ho, hspk, hvalue⟩ := BtcParser.findP2wshOutput_sound hin hfound
  have hstored : (w.positions.insert r.txid (depositedPosition w depositor p2wshSpk timelockHeight
      userPubkey r.txid satoshis)).lookup r.txid = some (depositedPosition w depositor p2wshSpk
        timelockHeight userPubkey r.txid satoshis) := by
    rw [Store.lookup_insert_eq_ite, if_pos rfl]
  have hothers : ∀ txid', txid' ≠ r.txid → (w.positions.insert r.txid (depositedPosition w depositor
      p2wshSpk timelockHeight userPubkey r.txid satoshis)).lookup txid'
        = w.positions.lookup txid' := by
    intro txid' hne
    rw [Store.lookup_insert_eq_ite, if_neg hne]
  refine ⟨tx, hraw, hk.configured, by rw [hid, hraw], hchain, hstored, ⟨o, ho, hvalue, ?_⟩, hk.enough,
    timelockInBounds_exact hk.timelock hfits, hk.distinct, signedBy_eq_true hk.signed,
    ⟨rfl, rfl, rfl, rfl⟩, hk.fresh, hothers, rfl, rfl⟩
  rw [hspk, hk.locked]

/-- What a deposit promises: if it succeeds, the position it stores is worth what it says, and if it
fails, nothing has changed. -/
def DepositSound (A : Arith) (H : Host τ ρ) (inChain : Bitcoin.Tx → Nat → Nat → Prop) (env : Env)
    (w : World τ ρ) (depositor : Address) (blockHash : BytesN 32) (merkleProof : List (BytesN 32))
    (txIndex : Nat) (rawTx p2wshSpk : Bytes) (timelockHeight : Nat) (userPubkey : BytesN 33)
    (keySig : BytesN 65) : Prop :=
  (∀ txid w', deposit H env w depositor blockHash merkleProof txIndex rawTx p2wshSpk timelockHeight
      userPubkey keySig = .ok (txid, w') →
        ∃ config r tx pos, H.spv.verifyTransaction w.spv config.spvContract blockHash merkleProof
            txIndex rawTx config.minConfirmations = some r ∧ rawTx = Bitcoin.Tx.serialize tx ∧
          Credited H inChain w w' depositor timelockHeight userPubkey keySig txid config tx
            r.blockHeight pos) ∧
    ∀ e, deposit H env w depositor blockHash merkleProof txIndex rawTx p2wshSpk timelockHeight
      userPubkey keySig = .error e →
        invoke A H env w (.deposit depositor blockHash merkleProof txIndex rawTx p2wshSpk
          timelockHeight userPubkey keySig) = w

/-- A deposit is sound exactly where its checks do not all pass at a confirming height whose earliest
timelock is beyond `u32`. -/
theorem deposit_credited {inChain : Bitcoin.Tx → Nat → Nat → Prop}
    (hspv : SpvSound H w.spv inChain) :
    DepositSound A H inChain env w depositor blockHash merkleProof txIndex rawTx p2wshSpk
        timelockHeight userPubkey keySig ↔
      ¬∃ config r spv satoshis,
        DepositChecks H env w depositor blockHash merkleProof txIndex rawTx p2wshSpk timelockHeight
          userPubkey keySig config r spv satoshis ∧
        U32_MAX < r.blockHeight + MIN_TIMELOCK_MARGIN_BLOCKS := by
  constructor
  · rintro ⟨hsound, -⟩ ⟨config, r, spv, satoshis, hk, hover⟩
    obtain ⟨config', r', tx, pos, hverified, -, hcredited⟩ :=
      hsound _ _ (deposit_eq_ok_iff.mpr ⟨config, r, spv, satoshis, hk, rfl, rfl⟩)
    have hconfig : config = config' :=
      Option.some.inj (hk.configured.symm.trans hcredited.configured)
    rw [← hconfig] at hverified
    have hr : r = r' := Option.some.inj (hk.verified.symm.trans hverified)
    have hle := timelockInBounds_le hk.timelock
    have htimelock := hcredited.timelock.1
    rw [← hr] at htimelock
    omega
  · intro hnot
    constructor
    · intro txid w' h
      obtain ⟨config, r, spv, satoshis, hk, rfl, rfl⟩ := deposit_eq_ok_iff.mp h
      have hfits : r.blockHeight + MIN_TIMELOCK_MARGIN_BLOCKS ≤ U32_MAX := by
        by_contra hover
        exact hnot ⟨config, r, spv, satoshis, hk, not_le.mp hover⟩
      obtain ⟨tx, hraw, hcredited⟩ := credited_of_checks hspv hk hfits
      exact ⟨config, r, tx, _, hk.verified, hraw, hcredited⟩
    · intro e h
      have hexec : exec A H env w (.deposit depositor blockHash merkleProof txIndex rawTx p2wshSpk
          timelockHeight userPubkey keySig) = .error e := by
        simp only [exec]
        rw [h]
        rfl
      rw [invoke, hexec]

end

/-! ## Two deposits -/

theorem exists_ok_of_isOk {α ε : Type} {x : Except ε α} (h : x.isOk = true) : ∃ a, x = .ok a := by
  cases x with
  | error e => cases h
  | ok a => exact ⟨a, rfl⟩

namespace Demo

/-- The transaction of one output that a deposit was made in. -/
def payment (prevTxid : BytesN 32) (scriptPubkey : Bytes) : Bitcoin.Tx where
  version := 2
  inputs := [{ prevTxid := prevTxid.1, prevTxid_length := prevTxid.2, prevIndex := 0
               scriptSig := [], sequence := 0xffffffff }]
  outputs := [{ value := 100000000, scriptPubkey }]
  lockTime := 0

def alicePrevTxid : BytesN 32 :=
  bytesN 32 0x36b8e2a71833180c89fab7290016cfd1237210ecd1a90a4535ec2816afb83b70

/-- One bitcoin of Alice's, locked to the largest height there is. -/
def farDeposit : SignedDeposit where
  depositor := alice
  rawTx := bytes 94
    0x020000000136b8e2a71833180c89fab7290016cfd1237210ecd1a90a4535ec2816afb83b700000000000ffffffff0100e1f505000000002200201f0aaeff15604f2c93ca597be074268ebcefc43508c83bfdeb2a80683f79c83600000000
  scriptPubkey := bytes 34 0x00201f0aaeff15604f2c93ca597be074268ebcefc43508c83bfdeb2a80683f79c836
  timelockHeight := 4294967295
  userPubkey := aliceDeposit.userPubkey
  keySig := bytesN 65
    0x1f9f9ed286994a912d39ae319e59867a730ecc0b8c5e7d2228be3f50cdb6afc012227d41b99eaa9ccd4ae88929b341e6c8cd48ce5f85f60a80958c5ed98064f521
  digest := bytesN 32 0x8c80d98353f97ae54afb050bec9b21d01bf69f7cd6e4cf443a073732d49b628f
  recovered := aliceDeposit.recovered

/-- The deposit of `d`, confirmed at `height`. -/
def depositOf (d : SignedDeposit) (height : Nat) : Result (BytesN 32 × State) :=
  deposit (host [d] height) (env START) world d.depositor blockHash [] 0 d.rawTx d.scriptPubkey
    d.timelockHeight d.userPubkey d.keySig

/-- It is sound for the chain whose one transaction is `tx`, at `height`. -/
def SoundAt (d : SignedDeposit) (tx : Bitcoin.Tx) (height : Nat) : Prop :=
  DepositSound .i128 (host [d] height) (fun t h _ => t = tx ∧ h = height) (env START) world
    d.depositor blockHash [] 0 d.rawTx d.scriptPubkey d.timelockHeight d.userPubkey d.keySig

/-- The light client confirms at one height only. -/
theorem verified_height {d : SignedDeposit} {height : Nat} {consumed : List (BytesN 32)}
    {a block proof txIndex rawTx minConfirmations} {r : SpvVerificationResult}
    (h : (host [d] height).spv.verifyTransaction consumed a block proof txIndex rawTx
      minConfirmations = some r) :
    rawTx = d.rawTx ∧ r.blockHeight = height ∧ r.txid = sha256 (sha256 rawTx).1 := by
  change (if block = blockHash ∧ rawTx ∈ [d.rawTx] then some _ else none) = some r at h
  split_ifs at h with hmem
  cases h
  exact ⟨List.mem_singleton.mp hmem.2, rfl, rfl⟩

/-- And it is sound for the chain of the one payment it confirms. -/
theorem spvSound_single (d : SignedDeposit) (height : Nat) (consumed : List (BytesN 32))
    (tx : Bitcoin.Tx) (hin : tx.inputs ≠ []) (hraw : d.rawTx = tx.serialize) :
    SpvSound (host [d] height) consumed fun t h _ => t = tx ∧ h = height := by
  intro a block proof txIndex rawTx minConfirmations r h
  obtain ⟨rfl, hheight, hid⟩ := verified_height h
  exact ⟨hid, tx, hin, hraw, rfl, hheight⟩

end Demo

/-- Alice's deposit at height 900000 succeeds and is sound. -/
theorem deposit_credited_alice :
    (Demo.depositOf Demo.aliceDeposit 900000).isOk = true ∧
      Demo.SoundAt Demo.aliceDeposit
        (Demo.payment Demo.alicePrevTxid Demo.aliceDeposit.scriptPubkey) 900000 := by
  refine ⟨by decide +kernel, (deposit_credited (Demo.spvSound_single _ _ _ _ ?_ ?_)).mpr ?_⟩
  · simp [Demo.payment]
  · decide +kernel
  · rintro ⟨config, r, spv, satoshis, hk, hover⟩
    rw [(Demo.verified_height hk.verified).2.1] at hover
    exact absurd hover (by decide)

/-- A deposit locked for five blocks only: at height 4294967290 the earliest timelock saturates. -/
theorem deposit_below_margin :
    SpvSound (Demo.host [Demo.farDeposit] 4294967290) Demo.world.spv (fun t h _ =>
        t = Demo.payment Demo.alicePrevTxid Demo.farDeposit.scriptPubkey ∧ h = 4294967290) ∧
      ¬Demo.SoundAt Demo.farDeposit
        (Demo.payment Demo.alicePrevTxid Demo.farDeposit.scriptPubkey) 4294967290 := by
  refine ⟨Demo.spvSound_single _ _ _ _ (by simp [Demo.payment]) (by decide +kernel), ?_⟩
  rintro ⟨hsound, -⟩
  have hok : (Demo.depositOf Demo.farDeposit 4294967290).isOk = true := by decide +kernel
  obtain ⟨⟨txid, w'⟩, h⟩ := exists_ok_of_isOk hok
  obtain ⟨config, r, tx, pos, hverified, -, hcredited⟩ := hsound txid w' h
  have htimelock := hcredited.timelock.1
  rw [(Demo.verified_height hverified).2.1] at htimelock
  exact absurd htimelock (by decide)

end Writz.Lend

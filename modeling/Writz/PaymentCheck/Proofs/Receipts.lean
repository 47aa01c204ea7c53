import Writz.PaymentCheck.Contract
import Writz.BitcoinSpv.Proofs.Stable
import Writz.SpvTypes.Proofs.BtcParser

/-!
# Proofs: accepted payments

Every published event stands for a transaction of its own, mined in a block the light client stores,
with an output that pays what the call asked for.
-/

namespace Writz.PaymentCheck

open Spv (sha256d)

/-- An accepted call and the value it found. -/
structure Receipt where
  call : Call
  sats : Nat

/-- The event published for it. -/
def Receipt.event (C : Crypto) (r : Receipt) : PaymentAccepted :=
  { txid := sha256d C r.call.rawTx, sats := r.sats }

/-- The light client's storage and the raw transaction bear a receipt out. -/
structure Proven (C : Crypto) (s : Spv.Storage) (r : Receipt) : Prop where
  block : ∃ cp entry, s.checkpoint = some cp ∧ s.headers.lookup r.call.blockHash = some entry ∧
    cp.height < entry.height ∧
      Spv.foldProof C (sha256d C r.call.rawTx) r.call.txIndex r.call.merkleProof = entry.merkleRoot
  length : r.call.rawTx.length ≠ 64
  paid : BtcParser.findP2wshOutput r.call.rawTx r.call.expectedScriptPubkey = .ok r.sats
  enough : r.call.minSats ≤ r.sats

/-- Blocks stay stored, so a receipt stays borne out. -/
theorem Proven.keeps {C : Crypto} {s s' : Spv.Storage} {r : Receipt} (h : Proven C s r) (hk : Spv.Keeps s s') :
    Proven C s' r := by
  obtain ⟨cp, entry, hcp, hentry, hheight, hroot⟩ := h.block
  exact { h with block := ⟨cp, entry, hk.checkpoint cp hcp, hk.headers _ _ hentry, hheight, hroot⟩ }

/-- What holds in every state of a run in which every new receipt meets `M`. -/
structure Booked (N : Host) (M : Receipt → Prop) (s : State) : Prop where
  sound : Spv.Sound s.spv.storage
  spv : s.check.spv = some N.spvAddress
  minConfirmations : s.check.minConfirmations.isSome = true
  once : (s.check.events.map PaymentAccepted.txid).Nodup
  used : ∀ txid, isUsed s.check txid = true ↔ txid ∈ s.check.events.map PaymentAccepted.txid
  receipts : ∃ rs : List Receipt, rs.map (Receipt.event N.crypto) = s.check.events ∧
    ∀ r ∈ rs, Proven N.crypto s.spv.storage r ∧ M r

section

variable {N : Host} {M : Receipt → Prop} {s s' : State} {c : Call}

theorem paidSats_eq_ok {rawTx spk : Bytes} {sats : Nat} :
    paidSats rawTx spk = .ok sats ↔ BtcParser.findP2wshOutput rawTx spk = .ok sats := by
  unfold paidSats
  split <;> simp_all

/-- The light client's answer at its address. -/
theorem client_eq_some {spv : Spv.Storage} {blockHash : BytesN 32} {merkleProof : List (BytesN 32)}
    {txIndex minConf : Nat} {rawTx : Bytes} {proof : SpvVerificationResult} :
    N.client spv N.spvAddress blockHash merkleProof txIndex rawTx minConf = some proof ↔
      Spv.verifyTransaction N.crypto spv blockHash merkleProof txIndex rawTx minConf = .ok proof := by
  unfold Host.client
  rw [if_pos rfl]
  cases Spv.verifyTransaction N.crypto spv blockHash merkleProof txIndex rawTx minConf <;>
    simp [Except.toOption]

/-- A call that is accepted, and what it changes. -/
theorem check_eq_ok (h : Booked N M s) {p : Payment} {check : Storage}
    (hok : c.check N s.spv.storage s.check = .ok (p, check)) :
    ∃ sats, Proven N.crypto s.spv.storage ⟨c, sats⟩ ∧ isUsed s.check (sha256d N.crypto c.rawTx) ≠ true ∧
      p.txid = sha256d N.crypto c.rawTx ∧ p.sats = sats ∧
      check = { s.check with
        used := s.check.used.insert (sha256d N.crypto c.rawTx) true
        events := s.check.events ++ [Receipt.event N.crypto ⟨c, sats⟩] } := by
  simp only [Call.check, checkPayment, bind_eq_ok, okOr_eq_ok, failIf_eq_ok] at hok
  obtain ⟨spv, hspv, minConf, -, proof, hproof, _, hfresh, sats, hsats, _, henough, hok⟩ := hok
  cases hok
  rw [h.spv] at hspv
  cases hspv
  rw [client_eq_some] at hproof
  obtain ⟨cp, entry, hcp, hentry, hheight, hlen, hroot, htxid⟩ := Spv.verifyTransaction_proves hproof
  rw [htxid] at hfresh ⊢
  refine ⟨sats, ⟨⟨cp, entry, hcp, hentry, hheight, hroot⟩, hlen, paidSats_eq_ok.mp hsats, not_lt.mp henough⟩, hfresh,
    rfl, rfl, rfl⟩

/-- A call is accepted exactly when the light client verifies the transaction, which was not accepted
before and has an output that pays enough. -/
theorem check_accepts_iff (h : Booked N M s) {minConf : Nat} (hmin : s.check.minConfirmations = some minConf)
    {entry : HeaderEntry} (hentry : s.spv.storage.headers.lookup c.blockHash = some entry) :
    (∃ p check, c.check N s.spv.storage s.check = .ok (p, check)) ↔
      (minConf ≠ 0 ∧ c.rawTx ≠ [] ∧ c.rawTx.length ≠ 64 ∧
        Spv.Confirmed s.spv.storage c.blockHash entry minConf ∧
          Spv.foldProof N.crypto (sha256d N.crypto c.rawTx) c.txIndex c.merkleProof = entry.merkleRoot) ∧
        sha256d N.crypto c.rawTx ∉ s.check.events.map PaymentAccepted.txid ∧
        ∃ sats, BtcParser.findP2wshOutput c.rawTx c.expectedScriptPubkey = .ok sats ∧ c.minSats ≤ sats := by
  rw [← Spv.verifyTransaction_iff hentry, ← h.used]
  simp only [Call.check, checkPayment, bind_eq_ok, okOr_eq_ok, failIf_eq_ok]
  constructor
  · rintro ⟨p, check, spv, hspv, minConf', hmin', proof, hproof, _, hfresh, sats, hsats, _, henough, -⟩
    rw [h.spv] at hspv
    cases hspv
    rw [hmin] at hmin'
    cases hmin'
    rw [client_eq_some] at hproof
    obtain ⟨-, -, -, -, -, -, -, htxid⟩ := Spv.verifyTransaction_proves hproof
    exact ⟨⟨proof, hproof⟩, by rwa [← htxid], sats, paidSats_eq_ok.mp hsats, not_lt.mp henough⟩
  · rintro ⟨⟨proof, hproof⟩, hfresh, sats, hsats, henough⟩
    obtain ⟨-, -, -, -, -, -, -, htxid⟩ := Spv.verifyTransaction_proves hproof
    exact ⟨_, _, N.spvAddress, h.spv, minConf, hmin, proof, client_eq_some.mpr hproof, (), by rwa [htxid], sats,
      paidSats_eq_ok.mpr hsats, (), not_lt.mpr henough, rfl⟩

/-! ## The steps -/

theorem Booked.spvStep (h : Booked N M s) {l : Spv.Label} {spv : Spv.State}
    (hs : Spv.step N.crypto s.spv l = some spv) : Booked N M { s with spv := spv } := by
  obtain ⟨hsound, hkeeps⟩ := Spv.step_keeps h.sound hs
  obtain ⟨rs, hevents, hproven⟩ := h.receipts
  exact { h with
    sound := hsound
    receipts := ⟨rs, hevents, fun r hr => ⟨(hproven r hr).1.keeps hkeeps, (hproven r hr).2⟩⟩ }

theorem Booked.accepted (h : Booked N M s) {sats : Nat} (hproven : Proven N.crypto s.spv.storage ⟨c, sats⟩)
    (hfresh : isUsed s.check (sha256d N.crypto c.rawTx) ≠ true) (hM : M ⟨c, sats⟩) :
    Booked N M { s with
      check := { s.check with
        used := s.check.used.insert (sha256d N.crypto c.rawTx) true
        events := s.check.events ++ [Receipt.event N.crypto ⟨c, sats⟩] } } := by
  obtain ⟨rs, hevents, hreceipts⟩ := h.receipts
  refine ⟨h.sound, h.spv, h.minConfirmations, ?_, fun txid => ?_, rs ++ [⟨c, sats⟩], ?_, fun r hr => ?_⟩
  · have hnew : sha256d N.crypto c.rawTx ∉ s.check.events.map PaymentAccepted.txid := by rwa [← h.used]
    rw [List.map_append, List.map_singleton]
    exact h.once.append (List.nodup_singleton _) (List.disjoint_singleton.mpr hnew)
  · rw [List.map_append, List.mem_append, ← h.used]
    unfold isUsed
    dsimp only
    rw [Store.lookup_insert_eq_ite]
    by_cases htxid : txid = sha256d N.crypto c.rawTx
    · simp [htxid, Receipt.event]
    · simp [htxid, Receipt.event]
  · rw [List.map_append, hevents]
    rfl
  · rcases List.mem_append.mp hr with hr | hr
    · exact hreceipts r hr
    · rw [List.mem_singleton.mp hr]
      exact ⟨hproven, hM⟩

/-- A step books a receipt or none. -/
theorem Booked.step (h : Booked N M s) {l : Label}
    (hM : ∀ c sats, l = .check c → Proven N.crypto s.spv.storage ⟨c, sats⟩ → M ⟨c, sats⟩)
    (hs : step N s l = some s') : Booked N M s' := by
  cases l with
  | spv l =>
    obtain ⟨spv, hspv, rfl⟩ := Option.map_eq_some_iff.mp hs
    exact h.spvStep hspv
  | check c =>
    cases hs
    unfold invoke
    split
    · next p check hok =>
      obtain ⟨sats, hproven, hfresh, -, -, rfl⟩ := check_eq_ok h hok
      exact h.accepted hproven hfresh (hM c sats rfl hproven)
    · exact h

theorem Deployed.booked (h : Deployed N s) : Booked N M s := by
  obtain ⟨hspv, minConf, hcheck⟩ := h
  refine ⟨hspv.sound, ?_, ?_, ?_, fun txid => ?_, [], ?_, fun r hr => ?_⟩
  · rw [hcheck]
    rfl
  · rw [hcheck]
    rfl
  · rw [hcheck]
    exact List.nodup_nil
  · rw [hcheck]
    simp [construct, isUsed]
  · rw [hcheck]
    rfl
  · cases hr

/-! ## Runs -/

/-- The transactions of the blocks are genuine where a payment is checked: they hash to the stored
root, none has the length of two nodes, and the check hashes no colliding strings. -/
def Genuine (C : Crypto) (txsOf : BytesN 32 → List Bytes) (s : State) : Label → Prop
  | .check c => ∀ cp entry, s.spv.storage.checkpoint = some cp →
      s.spv.storage.headers.lookup c.blockHash = some entry → cp.height < entry.height →
        Spv.blockRoot C (txsOf c.blockHash) = some entry.merkleRoot ∧
          (∀ tx ∈ txsOf c.blockHash, tx.length ≠ 64) ∧
            MerkleTree.CollisionFree (sha256d C)
              (Spv.hashedBytes C (txsOf c.blockHash) c.rawTx c.txIndex c.merkleProof)
  | .spv _ => True

/-- The transaction of a receipt is one of its block's. -/
def Mined (txsOf : BytesN 32 → List Bytes) (r : Receipt) : Prop := r.call.rawTx ∈ txsOf r.call.blockHash

theorem Proven.mined {txsOf : BytesN 32 → List Bytes} {sats : Nat} (h : Proven N.crypto s.spv.storage ⟨c, sats⟩)
    (hgenuine : Genuine N.crypto txsOf s (.check c)) : Mined txsOf ⟨c, sats⟩ := by
  obtain ⟨cp, entry, hcp, hentry, hheight, hproof⟩ := h.block
  obtain ⟨hroot, hlens, hfree⟩ := hgenuine cp entry hcp hentry hheight
  exact Spv.included_of_no_node_sized_tx hroot hfree hlens h.length hproof

theorem booked_of_via {txsOf : BytesN 32 → List Bytes} (h : Runs.Via (system N) (Genuine N.crypto txsOf) s) :
    Booked N (Mined txsOf) s := by
  refine h.invariant (I := Booked N (Mined txsOf)) (fun _ h0 => Deployed.booked h0) ?_
  intro s l s' hI hgenuine hs
  refine hI.step (fun c sats hl hproven => ?_) hs
  subst hl
  exact hproven.mined hgenuine

/-- Distinct txids are those of distinct transactions. -/
theorem nodup_rawTx {C : Crypto} {rs : List Receipt}
    (h : ((rs.map (Receipt.event C)).map PaymentAccepted.txid).Nodup) :
    (rs.map fun r => r.call.rawTx).Nodup := by
  have htxid : (rs.map (Receipt.event C)).map PaymentAccepted.txid
      = (rs.map fun r => r.call.rawTx).map (sha256d C) := by
    rw [List.map_map, List.map_map]
    rfl
  rw [htxid] at h
  exact h.of_map _

/-- In every run over genuine blocks, each published payment stands for a transaction of its own, mined
in a stored block after the checkpoint, with an output that pays the script asked for what was asked;
a txid counts as used exactly when its payment is published; and the next call is accepted exactly when
the light client verifies its transaction, which was not accepted before and pays enough. -/
theorem payments_backed {txsOf : BytesN 32 → List Bytes}
    (h : Runs.Via (system N) (Genuine N.crypto txsOf) s) :
    (s.check.events.map PaymentAccepted.txid).Nodup ∧
    (∀ txid, isUsed s.check txid = true ↔ txid ∈ s.check.events.map PaymentAccepted.txid) ∧
    (∃ rs : List Receipt, rs.map (Receipt.event N.crypto) = s.check.events ∧
      (rs.map fun r => r.call.rawTx).Nodup ∧
      ∀ r ∈ rs, Proven N.crypto s.spv.storage r ∧ r.call.rawTx ∈ txsOf r.call.blockHash ∧
        ∀ tx : Bitcoin.Tx, tx.inputs ≠ [] → tx.serialize = r.call.rawTx →
          ∃ o ∈ tx.outputs, o.scriptPubkey = r.call.expectedScriptPubkey ∧ o.value.toNat = r.sats ∧
            r.call.minSats ≤ r.sats) ∧
    ∀ (c : Call) (entry : HeaderEntry) (minConf : Nat), s.check.minConfirmations = some minConf →
      s.spv.storage.headers.lookup c.blockHash = some entry →
        ((∃ p check, c.check N s.spv.storage s.check = .ok (p, check)) ↔
          (minConf ≠ 0 ∧ c.rawTx ≠ [] ∧ c.rawTx.length ≠ 64 ∧
            Spv.Confirmed s.spv.storage c.blockHash entry minConf ∧
              Spv.foldProof N.crypto (sha256d N.crypto c.rawTx) c.txIndex c.merkleProof = entry.merkleRoot) ∧
            sha256d N.crypto c.rawTx ∉ s.check.events.map PaymentAccepted.txid ∧
            ∃ sats, BtcParser.findP2wshOutput c.rawTx c.expectedScriptPubkey = .ok sats ∧ c.minSats ≤ sats) := by
  have hb := booked_of_via h
  obtain ⟨rs, hevents, hreceipts⟩ := hb.receipts
  refine ⟨hb.once, hb.used, ⟨rs, hevents, ?_, fun r hr => ?_⟩, fun c entry minConf hmin hentry =>
    check_accepts_iff hb hmin hentry⟩
  · have honce := hb.once
    rw [← hevents] at honce
    exact nodup_rawTx honce
  · obtain ⟨hproven, hmined⟩ := hreceipts r hr
    refine ⟨hproven, hmined, fun tx hin hraw => ?_⟩
    have hpaid := hproven.paid
    rw [← hraw] at hpaid
    obtain ⟨o, ho, hspk, hvalue⟩ := BtcParser.findP2wshOutput_sound hin hpaid
    exact ⟨o, ho, hspk, hvalue, hproven.enough⟩

end

/-! ## A payment to the deposit script of the mined block -/

namespace Demo

def spvAddress : Address := Spv.Demo.admin

def host : Host where
  crypto := Spv.Demo.crypto
  spvAddress
  elsewhere _ _ _ _ _ _ := none

def start : State where
  spv := Spv.Demo.start
  check := construct spvAddress 1

/-- The payment in `b1`, of which at least a tenth of a bitcoin is asked. -/
def call : Call where
  blockHash := Spv.hashHeader Spv.Demo.crypto Spv.Demo.b1
  merkleProof := []
  txIndex := 0
  rawTx := Spv.Demo.b1Tx
  expectedScriptPubkey := bytes 34 0x00207b6d4586f6435e1c8ce970e94adb597a31b014deff265ed0fc3332dd69d5f7c5
  minSats := 10000000

/-- Steps of the light client alone. -/
def onSpv (_ : State) : Label → Bool
  | .spv _ => true
  | .check _ => false

/-- The light client has the block. -/
def mined : Option State :=
  (system host).replayIf onSpv start [.spv Spv.Demo.setRoot, .spv (Spv.Demo.submit [Spv.Demo.b1])]

end Demo

/-- The payment is accepted once, for the whole bitcoin it is. -/
theorem payments_backed_bitcoin : ∃ (s : State) (rs : List Receipt),
    s.check.events = [{ txid := sha256d Spv.Demo.crypto Spv.Demo.b1Tx, sats := 100000000 }] ∧
      rs.map (Receipt.event Spv.Demo.crypto) = s.check.events ∧
        ∀ r ∈ rs, Proven Spv.Demo.crypto s.spv.storage r ∧ r.call.rawTx ∈ [Spv.Demo.b1Tx] := by
  have hroot : Demo.mined.any (fun s =>
      decide ((s.spv.storage.headers.lookup Demo.call.blockHash).map HeaderEntry.merkleRoot
        = Spv.blockRoot Spv.Demo.crypto [Spv.Demo.b1Tx]) &&
      decide ((invoke Demo.host s Demo.call).events
        = [{ txid := sha256d Spv.Demo.crypto Spv.Demo.b1Tx, sats := 100000000 }])) = true := by
    decide +kernel
  obtain ⟨s, hs, hroot⟩ := (Option.any_eq_true _ _).mp hroot
  rw [Bool.and_eq_true] at hroot
  obtain ⟨hroot, hevents⟩ := hroot
  have hroot := of_decide_eq_true hroot
  have hmined : Runs.Via (system Demo.host) (Genuine Spv.Demo.crypto fun _ => [Spv.Demo.b1Tx]) s := by
    refine Runs.Via.replayIf (p := Demo.onSpv) ?_ (.init ⟨Spv.Demo.start_deployed, 1, rfl⟩) hs
    intro s l hl
    cases l with
    | spv l => exact trivial
    | check c => cases hl
  have hgenuine : Genuine Spv.Demo.crypto (fun _ => [Spv.Demo.b1Tx]) s (.check Demo.call) := by
    intro cp entry hcp hentry hheight
    rw [hentry] at hroot
    refine ⟨hroot.symm, by decide, ?_⟩
    unfold MerkleTree.CollisionFree
    decide +kernel
  have hrun := hmined.step (a := .check Demo.call) hgenuine rfl
  obtain ⟨-, -, ⟨rs, hreceipts, -, hbacked⟩, -⟩ := payments_backed hrun
  exact ⟨_, rs, of_decide_eq_true hevents, hreceipts, fun r hr => ⟨(hbacked r hr).1, (hbacked r hr).2.1⟩⟩

end Writz.PaymentCheck

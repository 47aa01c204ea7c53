import Writz.SpvTypes.Proofs.Spending
import Writz.BitcoinScript.Spend
import Writz.BitcoinScript.Proofs.Script

/-!
# Proofs: the two paths are spent

The witnesses that the TypeScript builders finalize are the two stacks the redeem script accepts, on
transactions whose lock time and sequence it accepts.
-/

namespace Writz

open Node BitcoinScript

/-! ## Witnesses -/

theorem encodeVarInt_eq {n : Nat} (h : n ≤ 0xffff) :
    encodeVarInt n = .ok (Bitcoin.compactSize n) := by
  unfold encodeVarInt Bitcoin.compactSize
  split_ifs
  · rfl
  · rw [writeUIntLE_of_lt (by omega)]
    rfl

theorem serializeItems_eq {items : List Bytes} (h : ∀ item ∈ items, item.length ≤ 0xffff) :
    serializeItems items
      = .ok (items.flatMap fun item => Bitcoin.compactSize item.length ++ item) := by
  induction items with
  | nil => rfl
  | cons item items ih =>
    have hitem := encodeVarInt_eq (h item List.mem_cons_self)
    have hrest := ih fun item' h' => h item' (List.mem_cons_of_mem _ h')
    simp only [serializeItems, hitem, hrest, bind, Except.bind, List.flatMap_cons]

theorem serializeWitness_eq {items : List Bytes} (hcount : items.length ≤ 0xffff)
    (h : ∀ item ∈ items, item.length ≤ 0xffff) :
    serializeWitness items = .ok (Bitcoin.writeWitness items) := by
  simp only [serializeWitness, encodeVarInt_eq hcount, serializeItems_eq h, bind, Except.bind]
  rfl

/-- The first entry for a key that has signed. -/
theorem findSig_of_mem {sigs : List PartialSig} {pubkey : Bytes}
    (h : ∃ entry ∈ sigs, entry.pubkey = pubkey) :
    ∃ entry ∈ sigs, findSig sigs pubkey = some entry ∧ entry.pubkey = pubkey := by
  obtain ⟨entry, hmem, hkey⟩ := h
  have hsome : (findSig sigs pubkey).isSome = true :=
    List.find?_isSome.mpr ⟨entry, hmem, beq_iff_eq.mpr hkey⟩
  obtain ⟨found, hfound⟩ := Option.isSome_iff_exists.mp hsome
  have hfoundKey := List.find?_some (p := fun ps : PartialSig => ps.pubkey == pubkey) hfound
  exact ⟨found, List.mem_of_find?_eq_some hfound, hfound, eq_of_beq hfoundKey⟩

/-! ## Building -/

variable {P : PsbtLib}

/-- Parameters the library accepts: a txid, an output index, a recipient on the network and an amount
that is left after the fee. -/
structure BitcoinScript.SpendParams.Valid (params : SpendParams) (P : PsbtLib) : Prop where
  txid : ∃ txid, Hex.decode params.txidHex = some txid ∧ txid.length = 32
  vout : params.vout ≤ U32_MAX
  recipient : ∃ script, P.toOutputScript params.recipientAddress params.network = some script
  left_nonneg : 0 ≤ params.amountSat - params.feeSat
  left_le : params.amountSat - params.feeSat ≤ SATOSHI_MAX

theorem toNat_ofNat_u32 {n : Nat} (h : n ≤ U32_MAX) : (UInt32.ofNat n).toNat = n := by
  rw [UInt32.toNat_ofNat']
  exact Nat.mod_eq_of_lt (Nat.lt_succ_of_le h)

/-- An unsigned PSBT with one input that spends a lock. -/
structure SpendsLock (data : PsbtData) (redeemScript : Bytes) (lockTime sequence : Nat) : Prop where
  input : ∃ txIn, data.unsignedTx.inputs = [txIn] ∧ txIn.sequence.toNat = sequence
  lockTime : data.unsignedTx.lockTime.toNat = lockTime
  psbtInput : ∃ input, data.inputs = [input] ∧ input.witnessScript = some redeemScript

/-- Adding the input and the output to an empty PSBT. -/
theorem addInput_addOutput (hP : P.FollowsBip174) {params : SpendParams} (hparams : params.Valid P)
    {psbt : P.Psbt} (hnet : P.network psbt = params.network) (hinputs : (P.data psbt).inputs = [])
    (htxInputs : (P.data psbt).unsignedTx.inputs = []) {sequence : Nat} (hseq : sequence ≤ U32_MAX) :
    ∃ psbt', (P.addInput psbt (params.input sequence) >>= fun psbt =>
        P.addOutput psbt params.recipientAddress (params.amountSat - params.feeSat)) = .ok psbt' ∧
      SpendsLock (P.data psbt') params.redeemScript (P.data psbt).unsignedTx.lockTime.toNat
        sequence := by
  obtain ⟨txid, htxid, hlen⟩ := hparams.txid
  obtain ⟨script, hscript⟩ := hparams.recipient
  obtain ⟨psbt₁, h₁, hnet₁, hdata₁⟩ :=
    hP.addInput psbt (params.input sequence) txid hinputs htxid hlen hparams.vout hseq
  obtain ⟨psbt₂, h₂, -, hdata₂⟩ := hP.addOutput psbt₁ params.recipientAddress
    (params.amountSat - params.feeSat) script (by rw [hnet₁, hnet]; exact hscript)
    hparams.left_nonneg hparams.left_le
  refine ⟨psbt₂, ?_, ?_⟩
  · rw [h₁]
    exact h₂
  · rw [hdata₂, hdata₁, hinputs, htxInputs]
    refine ⟨⟨_, rfl, ?_⟩, rfl, ⟨_, rfl, rfl⟩⟩
    exact toNat_ofNat_u32 hseq

theorem buildReleaseTransaction_ok (hP : P.FollowsBip174) {params : SpendParams}
    (hparams : params.Valid P) :
    ∃ psbt, buildReleaseTransaction P params = .ok psbt ∧
      SpendsLock (P.data psbt) params.redeemScript 0 0xfffffffe := by
  obtain ⟨hnet, hdata⟩ := hP.new params.network
  obtain ⟨psbt, hpsbt, hspends⟩ := addInput_addOutput hP hparams hnet (by rw [hdata])
    (by rw [hdata]) (show 0xfffffffe ≤ U32_MAX by decide)
  refine ⟨psbt, hpsbt, ?_⟩
  rw [hdata] at hspends
  exact hspends

theorem buildEmergencyTransaction_ok (hP : P.FollowsBip174) {params : SpendParams}
    (hparams : params.Valid P) {h : Nat} (hh : h ≤ U32_MAX) :
    ∃ psbt, buildEmergencyTransaction P params h = .ok psbt ∧
      SpendsLock (P.data psbt) params.redeemScript h 0xfffffffe := by
  obtain ⟨hnet, hdata⟩ := hP.new params.network
  obtain ⟨psbt₁, h₁, hnet₁, hdata₁⟩ :=
    hP.setLocktime (P.new params.network) h (by rw [hdata]) hh
  obtain ⟨psbt, hpsbt, hspends⟩ := addInput_addOutput hP hparams (hnet₁.trans hnet)
    (by rw [hdata₁, hdata]) (by rw [hdata₁, hdata])
    (show 0xfffffffe ≤ U32_MAX by decide)
  refine ⟨psbt, ?_, ?_⟩
  · change (P.setLocktime (P.new params.network) h >>= _) = _
    rw [h₁]
    exact hpsbt
  · have hlock : (P.data psbt₁).unsignedTx.lockTime.toNat = h := by
      rw [hdata₁]
      exact toNat_ofNat_u32 hh
    rw [hlock] at hspends
    exact hspends

/-! ## Finalizing -/

/-- The parties have signed a PSBT. -/
structure SignedWith (unsigned signed : PsbtData) (sigs : List PartialSig) : Prop where
  tx : signed.unsignedTx = unsigned.unsignedTx
  inputs : signed.inputs = unsigned.inputs.map fun input => { input with partialSig := some sigs }

/-- Valid signatures for the first input, among them one of each key. -/
structure ValidSigs (check : Bitcoin.SigCheck) (tx : Bitcoin.Tx) (script : Bytes) (keys : List Bytes)
    (sigs : List PartialSig) : Prop where
  keys : ∀ key ∈ keys, ∃ entry ∈ sigs, entry.pubkey = key
  valid : ∀ entry ∈ sigs, check tx 0 script entry.signature entry.pubkey = some true
  length_le : ∀ entry ∈ sigs, entry.signature.length ≤ Bitcoin.MAX_SCRIPT_ELEMENT_SIZE

/-- What a finalized PSBT puts on the network: its transaction and the witness of its one input. -/
def FinalSpend (P : PsbtLib) (done : P.Psbt) (tx : Bitcoin.Tx) (witness : List Bytes) : Prop :=
  (P.data done).unsignedTx = tx ∧ ∃ input bytes, (P.data done).inputs = [input] ∧
    input.finalScriptWitness = some bytes ∧ Bitcoin.readWitness bytes = some witness

section Finalize

variable {check : Bitcoin.SigCheck} {script : Bytes} {keys : List Bytes} {sigs : List PartialSig}
  {unsigned signed : PsbtData} {lockTime sequence : Nat}

/-- The signature that is found for a key is valid. -/
theorem ValidSigs.find {tx : Bitcoin.Tx} (h : ValidSigs check tx script keys sigs) {key : Bytes}
    (hkey : key ∈ keys) :
    ∃ entry, findSig sigs key = some entry ∧ check tx 0 script entry.signature key = some true ∧
      entry.signature.length ≤ Bitcoin.MAX_SCRIPT_ELEMENT_SIZE := by
  obtain ⟨entry, hmem, hfind, rfl⟩ := findSig_of_mem (h.keys key hkey)
  exact ⟨entry, hfind, h.valid entry hmem, h.length_le entry hmem⟩

theorem ValidSigs.ne_nil {tx : Bitcoin.Tx} (h : ValidSigs check tx script keys sigs) {key : Bytes}
    (hkey : key ∈ keys) : sigs ≠ [] := by
  obtain ⟨entry, hmem, -⟩ := h.keys key hkey
  exact List.ne_nil_of_mem hmem

/-- The input a finalizer sees. -/
theorem SpendsLock.signedInput (h : SpendsLock unsigned script lockTime sequence)
    (hs : SignedWith unsigned signed sigs) :
    ∃ input, signed.inputs = [input] ∧ input.witnessScript = some script ∧
      input.partialSig = some sigs := by
  obtain ⟨input, hinputs, hscript⟩ := h.psbtInput
  exact ⟨{ input with partialSig := some sigs }, by rw [hs.inputs, hinputs]; rfl, hscript, rfl⟩

/-- Finalizing with a witness of items that are not too long. -/
theorem finalizeInput_ok (hP : P.FollowsBip174) {psbt : P.Psbt} {input : PsbtInput}
    (hinputs : (P.data psbt).inputs = [input]) (hscript : input.witnessScript = some script)
    {f : PsbtInput → Node.Result Bytes} {items : List Bytes} (hcount : items.length ≤ 0xffff)
    (hitems : ∀ item ∈ items, item.length ≤ 0xffff) (hf : f input = serializeWitness items) :
    ∃ done, P.finalizeInput psbt 0 (fun input => do
        let witness ← f input
        .ok { finalScriptSig := none, finalScriptWitness := some witness }) = .ok done ∧
      FinalSpend P done (P.data psbt).unsignedTx items := by
  rw [serializeWitness_eq hcount hitems] at hf
  have hfinal : (do
      let witness ← f input
      .ok { finalScriptSig := none, finalScriptWitness := some witness } : Node.Result FinalScripts)
        = .ok { finalScriptSig := none
                finalScriptWitness := some (Bitcoin.writeWitness items) } := by
    rw [hf]
    rfl
  obtain ⟨done, hdone, -, hdata⟩ := hP.finalizeInput psbt 0 (fun input => do
      let witness ← f input
      .ok { finalScriptSig := none, finalScriptWitness := some witness }) input script
    (Bitcoin.writeWitness items) (by rw [hinputs]; rfl) hscript hfinal
  refine ⟨done, hdone, by rw [hdata], ?_⟩
  rw [hdata, hinputs]
  exact ⟨_, _, rfl, rfl, Bitcoin.readWitness_write (by omega) fun item h =>
    (hitems item h).trans_lt (by norm_num)⟩

theorem finalizePathA_ok (hP : P.FollowsBip174) {psbt : P.Psbt} {p u : Bytes}
    (hspends : SpendsLock unsigned script lockTime sequence)
    (hsigned : SignedWith unsigned (P.data psbt) sigs)
    (hvalid : ValidSigs check unsigned.unsignedTx script [u, p] sigs)
    (hscript : script.length ≤ 0xffff) :
    ∃ done su sp, finalizePathA P psbt 0 u p = .ok done ∧
      FinalSpend P done unsigned.unsignedTx [su, sp, [0x01], script] ∧
      check unsigned.unsignedTx 0 script su u = some true ∧
      check unsigned.unsignedTx 0 script sp p = some true ∧
      su.length ≤ Bitcoin.MAX_SCRIPT_ELEMENT_SIZE ∧
      sp.length ≤ Bitcoin.MAX_SCRIPT_ELEMENT_SIZE := by
  obtain ⟨input, hinputs, hwitnessScript, hsigs⟩ := hspends.signedInput hsigned
  obtain ⟨user, huser, hu, hulen⟩ := hvalid.find (show u ∈ _ by simp)
  obtain ⟨protocol, hprotocol, hp, hplen⟩ := hvalid.find (show p ∈ _ by simp)
  have hne : sigs ≠ [] := hvalid.ne_nil (show u ∈ _ by simp)
  unfold Bitcoin.MAX_SCRIPT_ELEMENT_SIZE at hulen hplen ⊢
  have hf : finalizeA input u p
      = serializeWitness [user.signature, protocol.signature, [0x01], script] := by
    simp only [finalizeA, hsigs, Option.getD_some, throwIf, failIf, if_neg hne, hwitnessScript, huser,
      hprotocol, okOr, bind, Except.bind]
  obtain ⟨done, hdone, hfinal⟩ := finalizeInput_ok hP hinputs hwitnessScript
    (f := fun input => finalizeA input u p) (by simp) (fun item hitem => by
      simp only [List.mem_cons, List.not_mem_nil, or_false] at hitem
      rcases hitem with rfl | rfl | rfl | rfl
      · omega
      · omega
      · decide
      · exact hscript) hf
  rw [hsigned.tx] at hfinal
  exact ⟨done, user.signature, protocol.signature, hdone, hfinal, hu, hp, hulen, hplen⟩

theorem finalizePathB_ok (hP : P.FollowsBip174) {psbt : P.Psbt} {u : Bytes}
    (hspends : SpendsLock unsigned script lockTime sequence)
    (hsigned : SignedWith unsigned (P.data psbt) sigs)
    (hvalid : ValidSigs check unsigned.unsignedTx script [u] sigs)
    (hscript : script.length ≤ 0xffff) :
    ∃ done su, finalizePathB P psbt 0 u = .ok done ∧
      FinalSpend P done unsigned.unsignedTx [su, [], script] ∧
      check unsigned.unsignedTx 0 script su u = some true ∧
      su.length ≤ Bitcoin.MAX_SCRIPT_ELEMENT_SIZE := by
  obtain ⟨input, hinputs, hwitnessScript, hsigs⟩ := hspends.signedInput hsigned
  obtain ⟨user, huser, hu, hulen⟩ := hvalid.find (show u ∈ _ by simp)
  have hne : sigs ≠ [] := hvalid.ne_nil (show u ∈ _ by simp)
  unfold Bitcoin.MAX_SCRIPT_ELEMENT_SIZE at hulen ⊢
  have hf : finalizeB input u = serializeWitness [user.signature, [], script] := by
    simp only [finalizeB, hsigs, Option.getD_some, throwIf, failIf, if_neg hne, hwitnessScript, huser,
      okOr, bind, Except.bind]
  obtain ⟨done, hdone, hfinal⟩ := finalizeInput_ok hP hinputs hwitnessScript
    (f := fun input => finalizeB input u) (by simp) (fun item hitem => by
      simp only [List.mem_cons, List.not_mem_nil, or_false] at hitem
      rcases hitem with rfl | rfl | rfl
      · omega
      · simp
      · exact hscript) hf
  rw [hsigned.tx] at hfinal
  exact ⟨done, user.signature, hdone, hfinal, hu, hulen⟩

end Finalize

/-! ## The lock -/

/-- Both builders, and the finalizers on their signed PSBTs, spend the lock. -/
def PathsSpend (C : Crypto) (check : Bitcoin.SigCheck) (P : PsbtLib) (params : SpendParams)
    (p u : BytesN 33) (h : Nat) : Prop :=
  let script := redeemScript p u h
  let spends := fun tx witness =>
    Bitcoin.spendsP2WSH (fun b => (C.sha256 b).1) check tx 0 (C.sha256 script).1 witness
  (∃ psbt, buildReleaseTransaction P params = .ok psbt ∧
    ∀ signed sigs, SignedWith (P.data psbt) (P.data signed) sigs →
      ValidSigs check (P.data psbt).unsignedTx script [u.1, p.1] sigs →
        ∃ done su sp, finalizePathA P signed 0 u.1 p.1 = .ok done ∧
          FinalSpend P done (P.data psbt).unsignedTx [su, sp, [0x01], script] ∧
          check (P.data psbt).unsignedTx 0 script sp p.1 = some true ∧
          check (P.data psbt).unsignedTx 0 script su u.1 = some true ∧
          spends (P.data psbt).unsignedTx [su, sp, [0x01], script] = true) ∧
  (∃ psbt, buildEmergencyTransaction P params h = .ok psbt ∧
    ∀ signed sigs, SignedWith (P.data psbt) (P.data signed) sigs →
      ValidSigs check (P.data psbt).unsignedTx script [u.1] sigs →
        ∃ done su, finalizePathB P signed 0 u.1 = .ok done ∧
          FinalSpend P done (P.data psbt).unsignedTx [su, [], script] ∧
          check (P.data psbt).unsignedTx 0 script su u.1 = some true ∧
          spends (P.data psbt).unsignedTx [su, [], script] = true)

section Lock

variable {check : Bitcoin.SigCheck} {p u : BytesN 33} {h : Nat}

theorem pathsSpend (C : Crypto) (h1 : 1 ≤ h) (hlt : h < 500000000) (hP : P.FollowsBip174)
    {params : SpendParams} (hparams : params.Valid P)
    (hscript : params.redeemScript = redeemScript p u h) : PathsSpend C check P params p u h := by
  have hmax : h ≤ U32_MAX := hlt.le.trans (by decide)
  obtain ⟨-, -, -, h5⟩ := scriptNumberBytes_spec h1 hmax
  have hlen : (redeemScript p u h).length ≤ 0xffff := by
    rw [length_redeemScript]
    omega
  refine ⟨?_, ?_⟩
  · obtain ⟨psbt, hpsbt, hspends⟩ := buildReleaseTransaction_ok hP hparams
    rw [hscript] at hspends
    refine ⟨psbt, hpsbt, fun signed sigs hsigned hvalid => ?_⟩
    obtain ⟨done, su, sp, hdone, hfinal, hsu, hsp, hulen, hplen⟩ :=
      finalizePathA_ok hP hspends hsigned hvalid hlen
    obtain ⟨txIn, hins, -⟩ := hspends.input
    refine ⟨done, su, sp, hdone, hfinal, hsp, hsu, ?_⟩
    refine (Bitcoin.spendsP2WSH_append [su, sp, [0x01]] (by rw [hins]; rfl)).mpr
      ⟨rfl, (redeemScript_accepts _ p u h1 hlt ?_).mpr (.inl ⟨su, sp, [0x01], rfl, rfl, hsp, hsu⟩)⟩
    intro v hv
    simp only [List.mem_cons, List.not_mem_nil, or_false] at hv
    rcases hv with rfl | rfl | rfl
    · exact hulen
    · exact hplen
    · decide
  · obtain ⟨psbt, hpsbt, hspends⟩ := buildEmergencyTransaction_ok hP hparams hmax
    rw [hscript] at hspends
    refine ⟨psbt, hpsbt, fun signed sigs hsigned hvalid => ?_⟩
    obtain ⟨done, su, hdone, hfinal, hsu, hulen⟩ := finalizePathB_ok hP hspends hsigned hvalid hlen
    obtain ⟨txIn, hins, hseq⟩ := hspends.input
    have hlock := hspends.lockTime
    refine ⟨done, su, hdone, hfinal, hsu, ?_⟩
    refine (Bitcoin.spendsP2WSH_append [su, []] (by rw [hins]; rfl)).mpr
      ⟨rfl, (redeemScript_accepts _ p u h1 hlt ?_).mpr
        (.inr ⟨su, [], rfl, rfl, hsu, ?_, ?_, ?_⟩)⟩
    · intro v hv
      simp only [List.mem_cons, List.not_mem_nil, or_false] at hv
      rcases hv with rfl | rfl
      · exact hulen
      · decide
    · change (P.data psbt).unsignedTx.lockTime.toNat < 500000000
      omega
    · exact hlock.ge
    · change txIn.sequence.toNat ≠ 0xffffffff
      omega

/-- Who is asked: the user always, the protocol in every block up to the height. -/
theorem OpensLock.signed {tx : Bitcoin.Tx} {i : Nat} {input : Bitcoin.TxIn} {script : Bytes}
    {witness : List Bytes} (h1 : 1 ≤ h) (hi : tx.inputs[i]? = some input)
    (ho : OpensLock (Bitcoin.Env.ofInput check tx i input script) p.1 u.1 h witness) :
    (∃ su ∈ witness, check tx i script su u.1 = some true) ∧
    ∀ height ≤ h, Bitcoin.finalAtHeight tx height = true →
      ∃ sp ∈ witness, check tx i script sp p.1 = some true := by
  obtain ⟨su, sp, c, rfl, -, hsp, hsu⟩ | ⟨su, c, rfl, -, hsu, hheight, hge, hseq⟩ := ho
  · exact ⟨⟨su, by simp, hsu⟩, fun _ _ _ => ⟨sp, by simp, hsp⟩⟩
  · refine ⟨⟨su, by simp, hsu⟩, fun height hle hfinal => ?_⟩
    -- the lock time is at least the height and the input is not final
    exfalso
    change h ≤ tx.lockTime.toNat at hge
    change input.sequence.toNat ≠ 0xffffffff at hseq
    unfold Bitcoin.finalAtHeight Bitcoin.SEQUENCE_FINAL at hfinal
    simp only [Bool.or_eq_true, Bool.and_eq_true, decide_eq_true_iff, List.all_eq_true,
      beq_iff_eq] at hfinal
    obtain (hzero | ⟨-, hlt⟩) | hall := hfinal
    · omega
    · omega
    · exact hseq (hall input (List.mem_of_getElem? hi))

/-- The spending conditions of a Writz lock, over every witness stack of elements of up to 520 bytes
and every spending transaction: the two paths and nothing else. So the user signs every spend, the
protocol signs every spend in a block up to the height, the user alone spends once the height is
reached, and the TypeScript builders spend. -/
theorem lock_spending (C : Crypto) (check : Bitcoin.SigCheck) (p u : BytesN 33) {h : Nat}
    (h1 : 1 ≤ h) (hlt : h < 500000000) :
    (∀ tx i input witness, tx.inputs[i]? = some input →
      (∀ v ∈ witness, v.length ≤ Bitcoin.MAX_SCRIPT_ELEMENT_SIZE) →
        let env := Bitcoin.Env.ofInput check tx i input (redeemScript p u h)
        (Bitcoin.acceptsWitness env (redeemScript p u h) witness = true ↔
          OpensLock env p.1 u.1 h witness) ∧
        (Bitcoin.acceptsWitness env (redeemScript p u h) witness = true →
          (∃ su ∈ witness, check tx i (redeemScript p u h) su u.1 = some true) ∧
          ∀ height ≤ h, Bitcoin.finalAtHeight tx height = true →
            ∃ sp ∈ witness, check tx i (redeemScript p u h) sp p.1 = some true)) ∧
    (∀ tx i input su, tx.inputs[i]? = some input →
      su.length ≤ Bitcoin.MAX_SCRIPT_ELEMENT_SIZE →
        check tx i (redeemScript p u h) su u.1 = some true → tx.lockTime.toNat < 500000000 →
          h ≤ tx.lockTime.toNat → input.sequence.toNat ≠ 0xffffffff →
            Bitcoin.acceptsWitness (Bitcoin.Env.ofInput check tx i input (redeemScript p u h))
              (redeemScript p u h) [su, []] = true) ∧
    ∀ (P : PsbtLib) (params : SpendParams), P.FollowsBip174 → params.Valid P →
      params.redeemScript = redeemScript p u h → PathsSpend C check P params p u h := by
  refine ⟨fun tx i input witness hi hw => ?_, fun tx i input su hi hulen hsu hheight hge hseq => ?_,
    fun P params hP hparams hscript => pathsSpend C h1 hlt hP hparams hscript⟩
  · intro env
    have hiff := redeemScript_accepts env p u h1 hlt hw
    exact ⟨hiff, fun haccepts => (hiff.mp haccepts).signed h1 hi⟩
  · refine (redeemScript_accepts _ p u h1 hlt fun v hv => ?_).mpr
      (.inr ⟨su, [], rfl, rfl, hsu, hheight, hge, hseq⟩)
    simp only [List.mem_cons, List.not_mem_nil, or_false] at hv
    rcases hv with rfl | rfl
    · exact hulen
    · decide

end Lock

/-! ## A lock that is spent -/

namespace SpendVector

open ScriptVector (protocol user)

/-- The recipient: the P2WPKH testnet address of the generator. -/
def recipient : Text := "tb1qw508d6qejxtdg4y5r3zarvary0c5xw7kxpjzsx".toList

def recipientScript : Bytes := bytes 22 0x0014751e76e8199196d454941c45d1b3a323f1433bd6

/-- PSBTs as their network and data. -/
def lib : PsbtLib where
  Psbt := Network × PsbtData
  data psbt := psbt.2
  network psbt := psbt.1
  new network :=
    (network, { unsignedTx := { version := 2, inputs := [], outputs := [], lockTime := 0 }
                inputs := [] })
  setLocktime psbt n :=
    if n ≤ U32_MAX then
      .ok (psbt.1, { psbt.2 with
        unsignedTx := { psbt.2.unsignedTx with lockTime := UInt32.ofNat n } })
    else .error "Invalid locktime".toList
  addInput psbt arg :=
    match Hex.decode arg.hash with
    | none => .error "Error adding input.".toList
    | some txid =>
      if h : txid.length = 32 ∧ arg.index ≤ U32_MAX ∧ arg.sequence ≤ U32_MAX then
        .ok (psbt.1,
          { unsignedTx := { psbt.2.unsignedTx with
              inputs := psbt.2.unsignedTx.inputs ++ [arg.txIn txid h.1] }
            inputs := psbt.2.inputs ++ [arg.psbtInput] })
      else .error "Error adding input.".toList
  addOutput psbt address value :=
    if address = recipient ∧ psbt.1 = .testnet ∧ 0 ≤ value ∧ value ≤ SATOSHI_MAX then
      .ok (psbt.1, { psbt.2 with
        unsignedTx := { psbt.2.unsignedTx with
          outputs := psbt.2.unsignedTx.outputs
            ++ [{ value := UInt64.ofNat value.toNat, scriptPubkey := recipientScript }] } })
    else .error "Error adding output.".toList
  finalizeInput psbt i f :=
    match psbt.2.inputs[i]? with
    | none => .error "No input".toList
    | some input =>
      match f input with
      | .error e => .error e
      | .ok scripts =>
        .ok (psbt.1, { psbt.2 with
          inputs := psbt.2.inputs.set i
            { witnessUtxo := input.witnessUtxo, witnessScript := none, partialSig := none
              finalScriptWitness := scripts.finalScriptWitness } })
  toOutputScript address network :=
    if address = recipient ∧ network = .testnet then some recipientScript else none

theorem lib_followsBip174 : lib.FollowsBip174 where
  new network := ⟨rfl, rfl⟩
  setLocktime psbt n _ hn := ⟨_, if_pos hn, rfl, rfl⟩
  addInput psbt arg txid _ htxid h hindex hseq := by
    suffices hadd : ∃ psbt', lib.addInput psbt arg = .ok (psbt.1, psbt') ∧ psbt' = _ from
      let ⟨psbt', hadd, hdata⟩ := hadd
      ⟨_, hadd, rfl, hdata⟩
    simp only [lib, htxid]
    exact ⟨_, dif_pos ⟨h, hindex, hseq⟩, rfl⟩
  addOutput psbt address value script hscript h0 hle := by
    simp only [lib] at hscript
    split_ifs at hscript with haddress
    cases hscript
    exact ⟨_, if_pos ⟨haddress.1, haddress.2, h0, hle⟩, rfl, rfl⟩
  finalizeInput psbt i f input script witness hinput _ hf := by
    suffices hfinal : ∃ psbt', lib.finalizeInput psbt i f = .ok (psbt.1, psbt') ∧ psbt' = _ from
      let ⟨psbt', hfinal, hdata⟩ := hfinal
      ⟨_, hfinal, rfl, hdata⟩
    simp only [lib] at hinput ⊢
    simp only [hinput, hf]
    exact ⟨_, rfl, rfl⟩

/-- A deposit of 0.001 BTC. -/
def params : SpendParams where
  txidHex := "4a5e1e4baab89f3a32518a88c31bc87f618f76673e2cc77ab2127b7afdeda33b".toList
  vout := 0
  amountSat := 100000
  scriptPubKey := p2wshScriptPubkey ScriptVector.crypto protocol user 900000
  redeemScript := redeemScript protocol user 900000
  recipientAddress := recipient
  feeSat := 500
  network := .testnet

theorem params_valid : params.Valid lib where
  txid :=
    ⟨bytes 32 0x4a5e1e4baab89f3a32518a88c31bc87f618f76673e2cc77ab2127b7afdeda33b,
      by decide, by decide⟩
  vout := by decide
  recipient := ⟨recipientScript, by decide⟩
  left_nonneg := by decide
  left_le := by decide

/-- A toy signature: the key, under a byte of its own. -/
def sign (key : Bytes) : Bytes := 0x30 :: key

def check : Bitcoin.SigCheck := fun _ _ _ sig key => some (sig == sign key)

def sigs : List PartialSig := [⟨user.1, sign user.1⟩, ⟨protocol.1, sign protocol.1⟩]

/-- The PSBT, with both signatures. -/
def signed (psbt : lib.Psbt) : lib.Psbt :=
  (psbt.1, { psbt.2 with
    inputs := psbt.2.inputs.map fun input => { input with partialSig := some sigs } })

theorem sigs_valid (tx : Bitcoin.Tx) (script : Bytes) {keys : List Bytes}
    (hkeys : ∀ key ∈ keys, key = user.1 ∨ key = protocol.1) :
    ValidSigs check tx script keys sigs where
  keys key hkey := by
    rcases hkeys key hkey with rfl | rfl
    · exact ⟨_, List.mem_cons_self, rfl⟩
    · exact ⟨_, List.mem_cons_of_mem _ List.mem_cons_self, rfl⟩
  valid entry hentry := by
    simp only [sigs, List.mem_cons, List.not_mem_nil, or_false] at hentry
    rcases hentry with rfl | rfl <;> exact congrArg some (beq_self_eq_true _)
  length_le entry hentry := by
    simp only [sigs, List.mem_cons, List.not_mem_nil, or_false] at hentry
    rcases hentry with rfl | rfl <;> decide

end SpendVector

open ScriptVector (protocol user crypto) in
open SpendVector in
/-- A lock until height 900000, released by both keys and recovered by the user's. -/
theorem lock_spending_vector :
    (∃ psbt done witness, buildReleaseTransaction lib params = .ok psbt ∧
      finalizePathA lib (signed psbt) 0 user.1 protocol.1 = .ok done ∧
      FinalSpend lib done psbt.2.unsignedTx witness ∧
      Bitcoin.spendsP2WSH (fun b => (sha256 b).1) check psbt.2.unsignedTx 0
        (sha256 (redeemScript protocol user 900000)).1 witness = true) ∧
    ∃ psbt done witness, buildEmergencyTransaction lib params 900000 = .ok psbt ∧
      finalizePathB lib (signed psbt) 0 user.1 = .ok done ∧
      FinalSpend lib done psbt.2.unsignedTx witness ∧
      Bitcoin.spendsP2WSH (fun b => (sha256 b).1) check psbt.2.unsignedTx 0
        (sha256 (redeemScript protocol user 900000)).1 witness = true := by
  obtain ⟨-, -, hpaths⟩ := lock_spending crypto check protocol user (h := 900000) (by decide)
    (by decide)
  obtain ⟨⟨release, hrelease, hA⟩, emergency, hemergency, hB⟩ :=
    hpaths lib params lib_followsBip174 params_valid rfl
  obtain ⟨done, su, sp, hdone, hfinal, -, -, hspends⟩ := hA (signed release) sigs ⟨rfl, rfl⟩
    (sigs_valid _ _ fun key hkey => by simpa using hkey)
  obtain ⟨done', su', hdone', hfinal', -, hspends'⟩ := hB (signed emergency) sigs ⟨rfl, rfl⟩
    (sigs_valid _ _ fun key hkey => .inl (by simpa using hkey))
  exact ⟨⟨release, done, _, hrelease, hdone, hfinal, hspends⟩,
    emergency, done', _, hemergency, hdone', hfinal', hspends'⟩

end Writz

import Writz.BitcoinSpv.Proofs.Inclusion
import Writz.BitcoinSpv.Proofs.Work

/-!
# Proofs: what a verification is still worth later

Nothing the light client stores is ever lost, so from one state to a later one a verification can only
change with the best chain and with time. A refusal of the arguments themselves is for good.
-/

namespace Writz.Spv

/-- Nothing stored is lost on the way from one storage to another. -/
structure Keeps (s s' : Storage) : Prop where
  headers : Extends s.headers s'.headers
  checkpoint : ∀ cp, s.checkpoint = some cp → s'.checkpoint = some cp
  consumed : ∀ txid, isConsumed s txid = true → isConsumed s' txid = true
  tip : ∀ best, s.bestTip = some best →
    ∃ best', s'.bestTip = some best' ∧ best.chainwork ≤ best'.chainwork

theorem Keeps.refl (s : Storage) : Keeps s s where
  headers _ _ h := h
  checkpoint _ h := h
  consumed _ h := h
  tip best h := ⟨best, h, le_rfl⟩

theorem Keeps.trans {s s' s'' : Storage} (h : Keeps s s') (h' : Keeps s' s'') : Keeps s s'' where
  headers hash entry he := h'.headers hash entry (h.headers hash entry he)
  checkpoint cp hcp := h'.checkpoint cp (h.checkpoint cp hcp)
  consumed txid ht := h'.consumed txid (h.consumed txid ht)
  tip best hbest := by
    obtain ⟨best', hbest', hle⟩ := h.tip best hbest
    obtain ⟨best'', hbest'', hle'⟩ := h'.tip best' hbest'
    exact ⟨best'', hbest'', hle.trans hle'⟩

section

variable {C : Crypto} {auth : Auth} {ledger : Ledger} {s s' : Storage}

/-- A call loses nothing stored. -/
theorem Effect.keeps {c : Call} (e : Effect C auth ledger s c s') (hd : ChainData s) : Keeps s s' := by
  refine ⟨?_, ?_, ?_, fun best hbest => e.tipWork hd hbest⟩
  · cases e with
    | checkpoint hnone =>
      intro hash entry he
      rw [(hd.unset hnone).1] at he
      simp at he
    | stored hc hcp hne hheaders => exact acceptHeaders_extends hheaders
    | adopted hc hcp hne hheaders => exact acceptHeaders_extends hheaders
    | consumer | consume | configure => exact fun _ _ h => h
  · cases e with
    | checkpoint hnone => exact fun cp hcp => absurd (hcp.symm.trans hnone) (by simp)
    | stored | adopted | consumer | consume | configure => exact fun _ h => h
  · cases e with
    | @consume consumer txid hauth hnew =>
      intro txid' h
      unfold isConsumed at h ⊢
      change ((s.consumed.insert txid true).lookup txid').isSome = true
      rw [Store.lookup_insert_eq_ite]
      split_ifs
      · rfl
      · exact h
    | checkpoint | stored | adopted | consumer | configure => exact fun _ h => h

/-- What holds of the storage in every reachable state. -/
structure Sound (s : Storage) : Prop where
  data : ChainData s
  config : s.config.isSome = true

theorem Effect.sound {c : Call} (e : Effect C auth ledger s c s') (h : Sound s) : Sound s' := by
  refine ⟨e.chainData h.data, ?_⟩
  cases e with
  | configure => rfl
  | checkpoint | stored | adopted | consumer | consume => exact h.config

theorem Deployed.sound {st : State} (h : Deployed st) : Sound st.storage := by
  refine ⟨h.chainData, ?_⟩
  obtain ⟨admin, powLimitBits, headerTtl, consumedTtl, h⟩ := h
  simp only [construct, bind_eq_ok] at h
  obtain ⟨_, -, _, -, h⟩ := h
  rw [← Except.ok.inj h]
  rfl

theorem step_keeps {st st' : State} {l : Label} (h : Sound st.storage) (hs : step C st l = some st') :
    Sound st'.storage ∧ Keeps st.storage st'.storage := by
  cases l with
  | invoke auth c =>
    cases hs
    rcases invoke_cases C auth st.ledger st.storage c with he | he
    · change Sound (invoke C auth st.ledger st.storage c) ∧ Keeps _ (invoke C auth st.ledger st.storage c)
      rw [he]
      exact ⟨h, Keeps.refl _⟩
    · exact ⟨he.sound h, he.keeps h.data⟩
  | advance l =>
    simp only [step] at hs
    split_ifs at hs
    cases hs
    exact ⟨h, Keeps.refl _⟩

theorem sound_of_reachable {st : State} (h : Runs.Reachable (system C) st) : Sound st.storage :=
  h.invariant (I := fun st => Sound st.storage) (fun _ h0 => Deployed.sound h0)
    fun _ _ _ hI _ hs => (step_keeps hI hs).1

/-- A run that goes on loses nothing stored. -/
theorem keeps_of_after {st st' : State} (h : Sound st.storage)
    (h' : Runs.Reachable ((system C).after st) st') : Sound st'.storage ∧ Keeps st.storage st'.storage := by
  refine h'.invariant (I := fun st' => Sound st'.storage ∧ Keeps st.storage st'.storage) ?_ ?_
  · intro st₁ h₁
    cases h₁
    exact ⟨h, Keeps.refl _⟩
  · intro st₁ l st₂ hI _ hs
    obtain ⟨hsound, hkeeps⟩ := step_keeps hI.1 hs
    exact ⟨hsound, hI.2.trans hkeeps⟩

end

/-! ## The verdicts -/

/-- The errors about the arguments themselves. -/
def aboutArguments (minConfirmations : Nat) (rawTx : Bytes) : Option SPVError :=
  if minConfirmations = 0 then some .ZeroMinConfirmations
  else if rawTx = [] then some .EmptyTransaction
  else if rawTx.length = 64 then some .AmbiguousTransactionLength
  else none

/-- The errors that no later state takes back. -/
def Final : SPVError → Prop
  | .ZeroMinConfirmations | .EmptyTransaction | .AmbiguousTransactionLength | .BlockNotAfterCheckpoint
  | .MerkleProofInvalid => True
  | _ => False

/-- The errors a later state may take back. -/
def Pending : SPVError → Prop
  | .CheckpointNotSet | .HeaderNotFound | .NotOnBestChain | .InsufficientConfirmations => True
  | _ => False

section

variable {C : Crypto} {s s' : Storage} {blockHash : BytesN 32} {merkleProof : List (BytesN 32)} {txIndex : Nat}
  {rawTx : Bytes} {minConfirmations : Nat} {cp : Checkpoint} {entry : HeaderEntry} {best : BestTip}

/-- Arguments that are an error are the same error in every state. -/
theorem verifyTransaction_arguments {e : SPVError} (h : aboutArguments minConfirmations rawTx = some e) :
    verifyTransaction C s blockHash merkleProof txIndex rawTx minConfirmations = .error (.err e) := by
  unfold aboutArguments at h
  unfold verifyTransaction failIf
  split_ifs at h ⊢ <;> cases h <;> rfl

/-- The checks on a stored block. -/
theorem confirmedHeader_stored (h : Sound s) (hcp : s.checkpoint = some cp)
    (hentry : s.headers.lookup blockHash = some entry) (hbest : s.bestTip = some best) :
    confirmedHeader s blockHash minConfirmations
      = if entry.height ≤ cp.height then .error (.err .BlockNotAfterCheckpoint)
        else if entry.height > best.height ∨ s.canonical.lookup entry.height ≠ some blockHash then
          .error (.err .NotOnBestChain)
        else if best.height - entry.height + 1 < minConfirmations then .error (.err .InsufficientConfirmations)
        else .ok (entry, best.height - entry.height + 1) := by
  obtain ⟨config, hconfig⟩ := Option.isSome_iff_exists.mp h.config
  simp only [confirmedHeader, hconfig, hcp, hentry, hbest, okOr, failIf, Bind.bind, Except.bind]
  split_ifs <;> rfl

/-- The verdict on a stored block. -/
theorem verifyTransaction_stored (hargs : aboutArguments minConfirmations rawTx = none) (h : Sound s)
    (hcp : s.checkpoint = some cp) (hentry : s.headers.lookup blockHash = some entry)
    (hbest : s.bestTip = some best) :
    verifyTransaction C s blockHash merkleProof txIndex rawTx minConfirmations
      = if entry.height ≤ cp.height then .error (.err .BlockNotAfterCheckpoint)
        else if entry.height > best.height ∨ s.canonical.lookup entry.height ≠ some blockHash then
          .error (.err .NotOnBestChain)
        else if best.height - entry.height + 1 < minConfirmations then .error (.err .InsufficientConfirmations)
        else if foldProof C (sha256d C rawTx) txIndex merkleProof = entry.merkleRoot then
          .ok { txid := sha256d C rawTx, blockHash, blockHeight := entry.height
                confirmations := best.height - entry.height + 1 }
        else .error (.err .MerkleProofInvalid) := by
  unfold aboutArguments at hargs
  split_ifs at hargs with hmin hempty hlen
  rw [verifyTransaction, failIf, if_neg hmin, failIf, if_neg hempty, failIf, if_neg hlen,
    confirmedHeader_stored h hcp hentry hbest]
  have hmerkle : verifyMerkleInclusion C (sha256d C rawTx) txIndex merkleProof entry.merkleRoot
      = if foldProof C (sha256d C rawTx) txIndex merkleProof = entry.merkleRoot then .ok ()
        else .error .MerkleProofInvalid := rfl
  by_cases hheight : entry.height ≤ cp.height
  · rw [if_pos hheight, if_pos hheight]
    rfl
  by_cases hcanon : entry.height > best.height ∨ s.canonical.lookup entry.height ≠ some blockHash
  · rw [if_neg hheight, if_neg hheight, if_pos hcanon, if_pos hcanon]
    rfl
  by_cases hconf : best.height - entry.height + 1 < minConfirmations
  · rw [if_neg hheight, if_neg hheight, if_neg hcanon, if_neg hcanon, if_pos hconf, if_pos hconf]
    rfl
  rw [if_neg hheight, if_neg hheight, if_neg hcanon, if_neg hcanon, if_neg hconf, if_neg hconf]
  change (orErr (verifyMerkleInclusion _ _ _ _ _) >>= fun _ => Except.ok _) = _
  rw [hmerkle]
  split_ifs <;> rfl

/-- The verdict on a block that is not stored. -/
theorem verifyTransaction_unstored (hargs : aboutArguments minConfirmations rawTx = none) (h : Sound s)
    (hno : s.checkpoint = none ∨ s.headers.lookup blockHash = none) :
    verifyTransaction C s blockHash merkleProof txIndex rawTx minConfirmations
      = .error (.err (if s.checkpoint = none then .CheckpointNotSet else .HeaderNotFound)) := by
  obtain ⟨config, hconfig⟩ := Option.isSome_iff_exists.mp h.config
  unfold aboutArguments at hargs
  split_ifs at hargs with hmin hempty hlen
  rw [verifyTransaction, failIf, if_neg hmin, failIf, if_neg hempty, failIf, if_neg hlen, confirmedHeader, hconfig]
  cases hcp : s.checkpoint with
  | none => rfl
  | some cp =>
    have hentry : s.headers.lookup blockHash = none := hno.resolve_left (by rw [hcp]; exact Option.some_ne_none cp)
    rw [hentry]
    rfl

/-- The cases of a verification. -/
theorem verifyTransaction_cases (h : Sound s) (blockHash : BytesN 32) (minConfirmations : Nat) (rawTx : Bytes) :
    (∃ e, aboutArguments minConfirmations rawTx = some e) ∨
      aboutArguments minConfirmations rawTx = none ∧
        ((s.checkpoint = none ∨ s.headers.lookup blockHash = none) ∨
          ∃ cp entry best, s.checkpoint = some cp ∧ s.headers.lookup blockHash = some entry ∧
            s.bestTip = some best) := by
  cases hargs : aboutArguments minConfirmations rawTx with
  | some e => exact .inl ⟨e, rfl⟩
  | none =>
    refine .inr ⟨rfl, ?_⟩
    cases hcp : s.checkpoint with
    | none => exact .inl (.inl rfl)
    | some cp =>
      cases hentry : s.headers.lookup blockHash with
      | none => exact .inl (.inr rfl)
      | some entry =>
        obtain ⟨best, hbest, -⟩ := h.data.set cp hcp
        exact .inr ⟨cp, entry, best, rfl, rfl, hbest⟩

/-- What a verified transaction has been checked for. -/
theorem verifyTransaction_proves {result : SpvVerificationResult}
    (hok : verifyTransaction C s blockHash merkleProof txIndex rawTx minConfirmations = .ok result) :
    ∃ cp entry, s.checkpoint = some cp ∧ s.headers.lookup blockHash = some entry ∧ cp.height < entry.height ∧
      rawTx.length ≠ 64 ∧ foldProof C (sha256d C rawTx) txIndex merkleProof = entry.merkleRoot ∧
        result.txid = sha256d C rawTx := by
  have h := hok
  simp only [verifyTransaction, bind_eq_ok] at h
  obtain ⟨_, -, _, -, _, -, ⟨entry, confirmations⟩, hconf, _, -, h⟩ := h
  cases h
  obtain ⟨config, cp, best, -, hcp, -, hentry, hheight, -⟩ := confirmedHeader_iff.mp ⟨confirmations, hconf⟩
  obtain ⟨-, -, hlen, -, hroot⟩ := (verifyTransaction_iff hentry).mp ⟨_, hok⟩
  exact ⟨cp, entry, hcp, hentry, hheight, hlen, hroot, rfl⟩

/-- An error of a verification is one of the two kinds. -/
theorem verifyTransaction_error (h : Sound s) {e : Abort}
    (he : verifyTransaction C s blockHash merkleProof txIndex rawTx minConfirmations = .error e) :
    ∃ err, e = .err err ∧ (Final err ∨ Pending err) := by
  rcases verifyTransaction_cases h blockHash minConfirmations rawTx with
    ⟨err, hargs⟩ | ⟨hargs, hno | ⟨cp, entry, best, hcp, hentry, hbest⟩⟩
  · rw [verifyTransaction_arguments hargs] at he
    cases he
    refine ⟨err, rfl, .inl ?_⟩
    unfold aboutArguments at hargs
    split_ifs at hargs <;> cases hargs <;> trivial
  · rw [verifyTransaction_unstored hargs h hno] at he
    cases he
    refine ⟨_, rfl, .inr ?_⟩
    split_ifs <;> trivial
  · rw [verifyTransaction_stored hargs h hcp hentry hbest] at he
    split_ifs at he <;> cases he
    · exact ⟨_, rfl, .inl trivial⟩
    · exact ⟨_, rfl, .inr trivial⟩
    · exact ⟨_, rfl, .inr trivial⟩
    · exact ⟨_, rfl, .inl trivial⟩

/-- A final error never becomes a success. -/
theorem final_for_good (h : Sound s) (h' : Sound s') (hk : Keeps s s') {e : SPVError} (hfinal : Final e)
    (he : verifyTransaction C s blockHash merkleProof txIndex rawTx minConfirmations = .error (.err e))
    (result : SpvVerificationResult) :
    verifyTransaction C s' blockHash merkleProof txIndex rawTx minConfirmations ≠ .ok result := by
  rcases verifyTransaction_cases h blockHash minConfirmations rawTx with
    ⟨err, hargs⟩ | ⟨hargs, hno | ⟨cp, entry, best, hcp, hentry, hbest⟩⟩
  · rw [verifyTransaction_arguments hargs]
    simp
  · -- nothing stored is no final error
    rw [verifyTransaction_unstored hargs h hno] at he
    cases he
    split_ifs at hfinal <;> cases hfinal
  · obtain ⟨best', hbest', -⟩ := hk.tip best hbest
    rw [verifyTransaction_stored hargs h' (hk.checkpoint cp hcp) (hk.headers _ _ hentry) hbest']
    rw [verifyTransaction_stored hargs h hcp hentry hbest] at he
    split_ifs at he with hheight hcanon hconf hroot
    · rw [if_pos hheight]
      simp
    · cases he
      cases hfinal
    · cases he
      cases hfinal
    · rw [if_neg hheight, if_neg hroot]
      split_ifs <;> simp

/-- What a verified transaction is worth in a later state. -/
theorem verified_later (h : Sound s) (h' : Sound s') (hk : Keeps s s') {result : SpvVerificationResult}
    (hok : verifyTransaction C s blockHash merkleProof txIndex rawTx minConfirmations = .ok result) :
    ∃ best', s'.bestTip = some best' ∧
      verifyTransaction C s' blockHash merkleProof txIndex rawTx minConfirmations
        = if result.blockHeight > best'.height ∨ s'.canonical.lookup result.blockHeight ≠ some blockHash then
            .error (.err .NotOnBestChain)
          else if best'.height - result.blockHeight + 1 < minConfirmations then
            .error (.err .InsufficientConfirmations)
          else .ok { result with confirmations := best'.height - result.blockHeight + 1 } := by
  rcases verifyTransaction_cases h blockHash minConfirmations rawTx with
    ⟨err, hargs⟩ | ⟨hargs, hno | ⟨cp, entry, best, hcp, hentry, hbest⟩⟩
  · rw [verifyTransaction_arguments hargs] at hok
    cases hok
  · rw [verifyTransaction_unstored hargs h hno] at hok
    cases hok
  · obtain ⟨best', hbest', -⟩ := hk.tip best hbest
    refine ⟨best', hbest', ?_⟩
    rw [verifyTransaction_stored hargs h' (hk.checkpoint cp hcp) (hk.headers _ _ hentry) hbest']
    rw [verifyTransaction_stored hargs h hcp hentry hbest] at hok
    split_ifs at hok with hheight hcanon hconf hroot
    cases hok
    rw [if_neg hheight, if_pos hroot]

/-- Along every run the headers, the checkpoint and the consumed deposits stay and the tip never loses
work. A transaction that was verified is verified again with the same txid, block and height, unless
its block has left the best chain or the best chain has become too short for the confirmations asked;
and an error is either one for good or waits for headers. -/
theorem verdicts_last {st st' : State} (h : Runs.Reachable (system C) st)
    (h' : Runs.Reachable ((system C).after st) st') :
    Keeps st.storage st'.storage ∧
      (∀ blockHash merkleProof txIndex rawTx minConfirmations result,
        verifyTransaction C st.storage blockHash merkleProof txIndex rawTx minConfirmations = .ok result →
          ∃ best', st'.storage.bestTip = some best' ∧
            verifyTransaction C st'.storage blockHash merkleProof txIndex rawTx minConfirmations
              = if result.blockHeight > best'.height
                    ∨ st'.storage.canonical.lookup result.blockHeight ≠ some blockHash then
                  .error (.err .NotOnBestChain)
                else if best'.height - result.blockHeight + 1 < minConfirmations then
                  .error (.err .InsufficientConfirmations)
                else .ok { result with confirmations := best'.height - result.blockHeight + 1 }) ∧
      ∀ blockHash merkleProof txIndex rawTx minConfirmations e,
        verifyTransaction C st.storage blockHash merkleProof txIndex rawTx minConfirmations = .error e →
          ∃ err, e = .err err ∧ (Pending err ∨ Final err ∧ ∀ result,
            verifyTransaction C st'.storage blockHash merkleProof txIndex rawTx minConfirmations
              ≠ .ok result) := by
  have hs := sound_of_reachable h
  obtain ⟨hs', hk⟩ := keeps_of_after hs h'
  refine ⟨hk, fun _ _ _ _ _ _ hok => verified_later hs hs' hk hok, fun _ _ _ _ _ e he => ?_⟩
  obtain ⟨err, rfl, hfinal | hpending⟩ := verifyTransaction_error hs he
  · exact ⟨err, rfl, .inr ⟨hfinal, final_for_good hs hs' hk hfinal he⟩⟩
  · exact ⟨err, rfl, .inl hpending⟩

end

/-- The transaction of the second branch's first block, verified, and after the first branch has grown
past it. -/
theorem verdicts_last_reorganised : ∃ st st' : State,
    Keeps st.storage st'.storage ∧
      verifyTransaction Demo.crypto st.storage (hashHeader Demo.crypto Demo.b1) [] 0 Demo.b1Tx 1 = .ok
        { txid := sha256d Demo.crypto Demo.b1Tx
          blockHash := hashHeader Demo.crypto Demo.b1
          blockHeight := 806399
          confirmations := 1 } ∧
      verifyTransaction Demo.crypto st'.storage (hashHeader Demo.crypto Demo.b1) [] 0 Demo.b1Tx 1
        = .error (.err .NotOnBestChain) := by
  have hrun : ((system Demo.crypto).replay Demo.start [Demo.setRoot, Demo.submit [Demo.b1]]).any (fun st =>
      decide (verifyTransaction Demo.crypto st.storage (hashHeader Demo.crypto Demo.b1) [] 0 Demo.b1Tx 1 = .ok
        { txid := sha256d Demo.crypto Demo.b1Tx
          blockHash := hashHeader Demo.crypto Demo.b1
          blockHeight := 806399
          confirmations := 1 }) &&
      ((system Demo.crypto).replay st [Demo.submit [Demo.a1, Demo.a2]]).any fun st' =>
        decide (st'.storage.canonical.lookup 806399 = some (hashHeader Demo.crypto Demo.a1)) &&
        decide (hashHeader Demo.crypto Demo.a1 ≠ hashHeader Demo.crypto Demo.b1)) = true := by
    decide +kernel
  obtain ⟨st, hst, hrun⟩ := (Option.any_eq_true _ _).mp hrun
  rw [Bool.and_eq_true] at hrun
  obtain ⟨hok, hrun⟩ := hrun
  obtain ⟨st', hst', hrun⟩ := (Option.any_eq_true _ _).mp hrun
  rw [Bool.and_eq_true] at hrun
  obtain ⟨hcanon, hne⟩ := hrun
  have hreach : Runs.Reachable (system Demo.crypto) st := Runs.Via.replay (.init Demo.start_deployed) hst
  have hafter : Runs.Reachable ((system Demo.crypto).after st) st' := Runs.Via.replay (.init rfl) hst'
  obtain ⟨hkeeps, hverified, -⟩ := verdicts_last hreach hafter
  obtain ⟨best', hbest', hlater⟩ := hverified _ _ _ _ _ _ (of_decide_eq_true hok)
  have hleft : st'.storage.canonical.lookup 806399 ≠ some (hashHeader Demo.crypto Demo.b1) := by
    rw [of_decide_eq_true hcanon]
    exact fun h => of_decide_eq_true hne (Option.some.inj h)
  exact ⟨st, st', hkeeps, of_decide_eq_true hok, hlater.trans (if_pos (.inr hleft))⟩

end Writz.Spv

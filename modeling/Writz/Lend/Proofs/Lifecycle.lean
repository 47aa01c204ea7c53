import Writz.Lend.Proofs.Deposit
import Writz.Lend.Proofs.Events
import Writz.Lend.Proofs.Repricing

/-!
# Proofs: the lifecycle of a position

What a position may become, what holds of it in every state, which event says that it was closed, and
which calls can touch it at all.
-/

namespace Writz.Lend

variable {τ ρ : Type}

/-- What a stored position may become in one step: the deposit's data stays, and only an active
position changes its status. -/
structure Position.Continues (pos pos' : Position) : Prop where
  btcTxid : pos'.btcTxid = pos.btcTxid
  btcSatoshis : pos'.btcSatoshis = pos.btcSatoshis
  p2wshScriptPubkey : pos'.p2wshScriptPubkey = pos.p2wshScriptPubkey
  timelockHeight : pos'.timelockHeight = pos.timelockHeight
  depositor : pos'.depositor = pos.depositor
  userPubkey : pos'.userPubkey = pos.userPubkey
  status : pos'.status = pos.status ∨
    pos.status = .Active ∧ (pos'.status = .Closed ∨ pos'.status = .Liquidated)

/-- What holds of every stored position, at the borrow index `index`. -/
structure Position.Sound (index : Int) (pos : Position) : Prop where
  debt_nonneg : 0 ≤ pos.usdcDebt
  settled : pos.status ≠ .Active → pos.usdcDebt = 0
  one_le : INDEX_ONE ≤ pos.debtIndex
  index_le : pos.debtIndex ≤ index

/-- The event that says that a position is repaid. -/
def Event.repays (txid : BytesN 32) : Event → Bool
  | .repayFull t _ _ => decide (t = txid)
  | _ => false

/-- A position that was repaid. -/
def isClosed (w : World τ ρ) (txid : BytesN 32) : Bool :=
  (w.positions.lookup txid).any fun pos => decide (pos.status = .Closed)

/-- The transaction a call names. A deposit names the one the light client verifies. -/
def Call.names (H : Host τ ρ) (w : World τ ρ) : Call → Option (BytesN 32)
  | .deposit _ blockHash merkleProof txIndex rawTx _ _ _ _ =>
    w.config.bind fun config =>
      (H.spv.verifyTransaction w.spv config.spvContract blockHash merkleProof txIndex rawTx
        config.minConfirmations).map SpvVerificationResult.txid
  | .borrow _ txid _ => some txid
  | .repay _ txid _ => some txid
  | .liquidate _ txid => some txid
  | .publishReleasePsbt _ txid _ => some txid
  | _ => none

theorem Position.Continues.refl (pos : Position) : pos.Continues pos :=
  ⟨rfl, rfl, rfl, rfl, rfl, rfl, .inl rfl⟩

theorem Position.Sound.mono {index index' : Int} {pos : Position} (h : pos.Sound index)
    (hle : index ≤ index') : pos.Sound index' :=
  ⟨h.debt_nonneg, h.settled, h.one_le, h.index_le.trans hle⟩

section

variable {A : Arith} {H : Host τ ρ} {env : Env} {w w' : World τ ρ}

/-- Every stored position goes on, under a write of a position that goes on from the stored one. -/
theorem continues_insert {s : Store (BytesN 32) Position} {txid : BytesN 32} {pos pos' : Position}
    (hpos : s.lookup txid = some pos) (hc : pos.Continues pos') :
    ∀ t p, s.lookup t = some p → ∃ p', (s.insert txid pos').lookup t = some p' ∧ p.Continues p' := by
  intro t p ht
  rw [Store.lookup_insert_eq_ite]
  by_cases he : t = txid
  · subst he
    rw [hpos] at ht
    cases ht
    exact ⟨pos', if_pos rfl, hc⟩
  · exact ⟨p, (if_neg he).trans ht, .refl p⟩

/-- No call drops a position or rewrites the deposit's data. -/
theorem Effect.continues {c : Call} (e : Effect A H w c w') :
    ∀ txid pos, w.positions.lookup txid = some pos →
      ∃ pos', w'.positions.lookup txid = some pos' ∧ pos.Continues pos' := by
  cases e with
  | @deposit depositor blockHash merkleProof txIndex rawTx p2wshSpk timelockHeight userPubkey keySig
      txid config spv new ev hc hnew =>
    intro t p ht
    refine ⟨p, ?_, .refl p⟩
    rw [Store.lookup_insert_eq_ite, if_neg, ht]
    rintro rfl
    rw [hnew] at ht
    cases ht
  | borrow hself hpos =>
    exact continues_insert hpos ⟨rfl, rfl, rfl, rfl, rfl, rfl, .inl rfl⟩
  | repay hself hpos hactive =>
    refine continues_insert hpos ⟨rfl, rfl, rfl, rfl, rfl, rfl, ?_⟩
    dsimp only
    split_ifs
    · exact .inr ⟨hactive, .inl rfl⟩
    · exact .inl rfl
  | liquidate hself hc hpos hactive =>
    exact continues_insert hpos ⟨rfl, rfl, rfl, rfl, rfl, rfl, .inr ⟨hactive, .inr rfl⟩⟩
  | supply | withdraw | heartbeat | configure | psbt => exact fun _ p ht => ⟨p, ht, .refl p⟩

/-- Nor does any step. -/
theorem step_continues {l : Label τ ρ} (hs : step A H w l = some w') :
    ∀ txid pos, w.positions.lookup txid = some pos →
      ∃ pos', w'.positions.lookup txid = some pos' ∧ pos.Continues pos' := by
  rcases step_cases hs with ⟨env, c, rfl, e, -⟩ | ⟨hst, -⟩
  · exact e.continues
  · intro txid pos hpos
    exact ⟨pos, by rw [hst]; exact hpos, .refl pos⟩

/-! ## The positions of every state -/

/-- Every stored position is sound. -/
def Sound (w : World τ ρ) : Prop :=
  ∀ txid pos, w.positions.lookup txid = some pos → pos.Sound (getProtocol w).borrowIndex

/-- The effect of a call keeps the positions sound. -/
theorem Effect.sound {c : Call} (e : Effect A H w c w') (hi : (getProtocol w).Indices A)
    (h : Sound w) : Sound w' := by
  obtain ⟨hle, -, hi'⟩ := accrueGlobal_indices hi w.ledger.sequence
  have hkeep : ∀ txid pos, w.positions.lookup txid = some pos →
      pos.Sound (projected A w).borrowIndex := fun txid pos hp => (h txid pos hp).mono hle
  have hdebt : ∀ {txid pos}, w.positions.lookup txid = some pos →
      0 ≤ accruedDebt A pos (projected A w).borrowIndex := fun hp =>
    accruedDebt_nonneg (h _ _ hp).debt_nonneg (INDEX_ONE_pos.le.trans hi'.borrow_one_le)
  cases e with
  | deposit hc hnew hcons hzero hindex hactive =>
    refine forall_insert h ⟨hzero.ge, fun hne => absurd hactive hne, hindex.ge, ?_⟩
    exact hindex.trans_le hi.borrow_one_le
  | supply | withdraw => exact hkeep
  | borrow hself hpos hactive havailable ht =>
    refine forall_insert hkeep ⟨?_, fun hne => absurd hactive hne, hi'.borrow_one_le, le_rfl⟩
    exact A.add_nonneg (hdebt hpos) (H.token.transfer_nonneg ht)
  | repay hself hpos hactive hle' ht =>
    refine forall_insert hkeep ⟨A.sub_nonneg hle', ?_, hi'.borrow_one_le, le_rfl⟩
    dsimp only
    split_ifs with hz
    · exact fun _ => hz
    · exact fun hne => absurd hactive hne
  | liquidate hself hc hpos =>
    exact forall_insert hkeep ⟨le_rfl, fun _ => rfl, hi'.borrow_one_le, le_rfl⟩
  | heartbeat | configure | psbt => exact h

theorem Deployed.sound (h : Deployed w) : Sound w := by
  intro txid pos hpos
  rw [h.eq.2.1] at hpos
  simp at hpos

theorem sound_of_reachable (hA : A.clamp INDEX_ONE = INDEX_ONE)
    (h : Runs.Reachable (system A H) w) : Sound w := by
  have hinv : (getProtocol w).Indices A ∧ Sound w :=
    h.invariant (I := fun w => (getProtocol w).Indices A ∧ Sound w)
      (fun _ h0 => ⟨Deployed.indices h0 hA, Deployed.sound h0⟩) fun w l w' hi _ hs => by
        refine ⟨(indices_step hi.1 hs).2.2, ?_⟩
        rcases step_cases hs with ⟨env, c, rfl, e, -⟩ | ⟨hst, -⟩
        · exact e.sound hi.1 hi.2
        · intro txid pos hpos
          obtain ⟨now, ledger, hp⟩ := getProtocol_of_storage hst
          rw [hp]
          rw [hst] at hpos
          exact hi.2 txid pos hpos
  exact hinv.2

/-! ## The event of a full repayment -/

/-- How often the stream says that a position was repaid. -/
def repayments (w : World τ ρ) (txid : BytesN 32) : Nat := w.events.countP (Event.repays txid)

/-- The stream says it once, for the closed positions. -/
def RepaymentsTold (w : World τ ρ) : Prop :=
  ∀ txid, repayments w txid = if isClosed w txid then 1 else 0

theorem repays_quiet {txid : BytesN 32} {e : Event} (h : e.quiet = true) :
    e.repays txid = false := by
  cases e <;> first | rfl | cases h

theorem countP_quiet {txid : BytesN 32} {es : List Event} (h : ∀ e ∈ es, e.quiet = true) :
    es.countP (Event.repays txid) = 0 :=
  List.countP_eq_zero.mpr fun e he => by rw [repays_quiet (h e he)]; decide

theorem isClosed_insert {txid : BytesN 32} {pos' : Position} {t : BytesN 32}
    (hw : w'.positions = w.positions.insert txid pos') :
    isClosed w' t = if t = txid then decide (pos'.status = .Closed) else isClosed w t := by
  unfold isClosed
  rw [hw, Store.lookup_insert_eq_ite]
  split_ifs <;> rfl

theorem isClosed_of_active {txid : BytesN 32} {pos : Position}
    (hpos : w.positions.lookup txid = some pos) (hactive : pos.status = .Active) :
    isClosed w txid = false := by
  simp [isClosed, hpos, hactive]

/-- A call that leaves every position closed or not as it was, and tells of no repayment. -/
theorem RepaymentsTold.quiet {es : List Event} (h : RepaymentsTold w)
    (hev : w'.events = w.events ++ es) (hes : ∀ txid, es.countP (Event.repays txid) = 0)
    (hclosed : ∀ txid, isClosed w' txid = isClosed w txid) : RepaymentsTold w' := by
  intro txid
  rw [repayments, hev, List.countP_append, hes, add_zero, hclosed]
  exact h txid

/-- A write of a position that is not closed over one that is not. -/
theorem isClosed_insert_of_open {txid : BytesN 32} {pos' : Position}
    (hw : w'.positions = w.positions.insert txid pos') (hbefore : isClosed w txid = false)
    (hafter : pos'.status ≠ .Closed) (t : BytesN 32) : isClosed w' t = isClosed w t := by
  rw [isClosed_insert hw]
  split_ifs with ht
  · rw [ht, hbefore]
    exact decide_eq_false hafter
  · rfl

theorem RepaymentsTold.exec {c : Call} (h : RepaymentsTold w) (he : exec A H env w c = .ok w') :
    RepaymentsTold w' := by
  obtain ⟨es, hev, hes⟩ := exec_events he
  cases exec_effect he with
  | @deposit depositor blockHash merkleProof txIndex rawTx p2wshSpk timelockHeight userPubkey keySig
      txid config spv new ev hc hnew hcons hzero hindex hactive =>
    refine h.quiet hev (fun _ => countP_quiet hes) (isClosed_insert_of_open rfl ?_ ?_)
    · rw [isClosed, hnew]
      rfl
    · rw [hactive]
      decide
  | supply =>
    obtain ⟨assets, rfl⟩ := hes
    exact h.quiet hev (fun _ => rfl) fun _ => rfl
  | withdraw =>
    obtain ⟨assets, rfl⟩ := hes
    exact h.quiet hev (fun _ => rfl) fun _ => rfl
  | borrow hself hpos hactive =>
    refine h.quiet hev (fun _ => countP_quiet hes)
      (isClosed_insert_of_open rfl (isClosed_of_active hpos hactive) ?_)
    dsimp only [accruePositionInterest]
    rw [hactive]
    decide
  | @repay repayer txid amount pos t ev hself hpos hactive hle ht =>
    obtain ⟨pos', hpos', rfl⟩ := hes
    rw [hpos] at hpos'
    cases hpos'
    have hopen := isClosed_of_active hpos hactive
    by_cases hz : A.sub (accruedDebt A pos (projected A w).borrowIndex) amount = 0
    · intro t
      rw [repayments, hev, List.countP_append, isClosed_insert rfl, if_pos hz]
      have hbefore := h t
      rw [repayments] at hbefore
      by_cases ht : t = txid
      · subst ht
        rw [hopen] at hbefore
        rw [hbefore]
        simp [Event.repays, hz]
      · rw [hbefore, if_neg ht]
        simp [Event.repays, Ne.symm ht]
    · refine h.quiet hev (fun _ => ?_) (isClosed_insert_of_open rfl hopen ?_)
      · rw [if_neg hz]
        rfl
      · dsimp only
        rw [if_neg hz]
        rw [hactive]
        decide
  | liquidate hself hc hpos hactive =>
    exact h.quiet hev (fun _ => countP_quiet hes)
      (isClosed_insert_of_open rfl (isClosed_of_active hpos hactive) (by simp))
  | configure hcall =>
    have hq : ∀ e ∈ es, e.quiet = true := by
      cases c <;> first | exact hes | cases hcall
    exact h.quiet hev (fun _ => countP_quiet hq) fun _ => rfl
  | heartbeat => exact h.quiet hev (fun _ => countP_quiet hes) fun _ => rfl
  | psbt => exact h.quiet hev (fun _ => countP_quiet hes) fun _ => rfl

theorem RepaymentsTold.step (h : RepaymentsTold w) {l : Label τ ρ}
    (hs : step A H w l = some w') : RepaymentsTold w' := by
  have hsame : w'.toStorage = w.toStorage → RepaymentsTold w' := by
    intro hst txid
    rw [repayments, isClosed, hst]
    exact h txid
  cases l with
  | invoke env c =>
    cases hs
    cases he : Lend.exec A H env w c with
    | error e => exact hsame (by rw [invoke, he])
    | ok w₁ =>
      rw [invoke, he]
      exact h.exec he
  | advance l => exact hsame (step_outside hs (by simp))
  | outside t r => exact hsame (step_outside hs (by simp))

theorem repaymentsTold_of_reachable (h : Runs.Reachable (system A H) w) : RepaymentsTold w := by
  refine h.invariant (I := RepaymentsTold) ?_ fun _ _ _ hi _ hs => hi.step hs
  intro w h0 txid
  rw [repayments, Deployed.events_eq h0, isClosed, (Deployed.eq h0).2.1]
  simp

/-! ## Frames -/

/-- A successful call leaves every position it does not name as it was. -/
theorem exec_frame {c : Call} {txid : BytesN 32} (he : exec A H env w c = .ok w')
    (hn : c.names H w ≠ some txid) : w'.positions.lookup txid = w.positions.lookup txid := by
  have hinsert : ∀ (t : BytesN 32) (p : Position), c.names H w = some t →
      (w.positions.insert t p).lookup txid = w.positions.lookup txid := by
    intro t p ht
    rw [Store.lookup_insert_eq_ite, if_neg]
    rintro rfl
    exact hn ht
  cases c with
  | deposit depositor blockHash merkleProof txIndex rawTx p2wshSpk timelockHeight userPubkey keySig =>
    obtain ⟨⟨t, w₁⟩, hr, rfl⟩ := map_eq_ok.mp he
    obtain ⟨config, r, spv, satoshis, hk, rfl, rfl⟩ := deposit_eq_ok_iff.mp hr
    refine hinsert r.txid _ ?_
    simp only [Call.names, hk.configured, Option.bind_some, hk.verified, Option.map_some]
  | borrow =>
    cases exec_effect he with
    | borrow => exact hinsert _ _ rfl
    | configure hcall => cases hcall
  | repay =>
    cases exec_effect he with
    | repay => exact hinsert _ _ rfl
    | configure hcall => cases hcall
  | liquidate =>
    cases exec_effect he with
    | liquidate => exact hinsert _ _ rfl
    | configure hcall => cases hcall
  | _ => cases exec_effect he <;> rfl

/-- Nor does a step change a position that no call in it names. -/
theorem step_frame {l : Label τ ρ} {txid : BytesN 32} (hs : step A H w l = some w')
    (hn : ∀ env c, l = .invoke env c → c.names H w ≠ some txid) :
    w'.positions.lookup txid = w.positions.lookup txid := by
  cases l with
  | invoke env c =>
    cases hs
    cases he : exec A H env w c with
    | error e => rw [invoke, he]
    | ok w₁ =>
      rw [invoke, he]
      exact exec_frame he (hn env c rfl)
  | advance l => rw [step_outside hs (by simp)]
  | outside t r => rw [step_outside hs (by simp)]

/-- The lifecycle of positions, over every run. -/
theorem position_lifecycle {tr : List (Runs.Transition (World τ ρ) (Label τ ρ))}
    (h : Runs.Run (system .i128 H) tr w) :
    (∀ t ∈ tr, ∀ txid pos, t.pre.positions.lookup txid = some pos →
      ∃ pos', t.post.positions.lookup txid = some pos' ∧ pos.Continues pos') ∧
    (∀ txid pos, w.positions.lookup txid = some pos → pos.Sound (getProtocol w).borrowIndex) ∧
    (∀ txid, w.events.countP (Event.repays txid) = if isClosed w txid then 1 else 0) ∧
    ∀ t ∈ tr, ∀ txid, (∀ env c, t.label = .invoke env c → c.names H t.pre ≠ some txid) →
      t.post.positions.lookup txid = t.pre.positions.lookup txid := by
  refine ⟨?_, sound_of_reachable (by decide) h.reachable, repaymentsTold_of_reachable h.reachable, ?_⟩
  · intro t ht
    exact step_continues (h.step_of_mem ht)
  · intro t ht txid hn
    exact step_frame (h.step_of_mem ht) hn

end

namespace Demo

/-- Alice borrows five stroops and repays them. -/
def repaidLoan : List Step :=
  [.invoke (env START) (depositCall aliceDeposit),
   .invoke (env START) (.supplyUsdc lender 10),
   .invoke (env START) (.borrow alice (txidOf aliceDeposit) 5),
   .invoke (env START) (.repay alice (txidOf aliceDeposit) 5)]

end Demo

/-- The closed position was told of once. -/
theorem position_lifecycle_repaid :
    ∃ w : Demo.State, isClosed w (Demo.txidOf Demo.aliceDeposit) = true ∧
      w.events.countP (Event.repays (Demo.txidOf Demo.aliceDeposit)) = 1 := by
  obtain ⟨tr, w, h, hp⟩ := run_of_record (A := .i128) (H := Demo.host [Demo.aliceDeposit] 900000)
    Demo.world_deployed Demo.repaidLoan
    (p := fun r => isClosed r.2 (Demo.txidOf Demo.aliceDeposit)) (by decide +kernel)
  have hcount := (position_lifecycle h).2.2.1 (Demo.txidOf Demo.aliceDeposit)
  exact ⟨w, hp, by rw [hcount, if_pos hp]⟩

end Writz.Lend

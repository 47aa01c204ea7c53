import Writz.Lend.Proofs.Effects

/-!
# Proofs: the events of a call

A successful call appends its events to the stream: exactly one `supply` for a supply, one `withdraw`
for a withdrawal, one `repay_full` or `repay` for a repayment, and none of the first three for any
other call.
-/

namespace Writz.Lend

variable {τ ρ : Type}

/-- An event that is no supply, no withdrawal and no full repayment. -/
def Event.quiet : Event → Bool
  | .supply .. | .withdraw .. | .repayFull .. => false
  | _ => true

/-- The events a call appends, in the state it starts from. -/
def Call.Emits (A : Arith) (w : World τ ρ) : Call → List Event → Prop
  | .supplyUsdc supplier amount, es =>
    ∃ assets, es = [.supply supplier amount (mintFor A (projected A w) amount)
      (projected A w).supplyIndex assets]
  | .withdrawSupply supplier amount, es =>
    ∃ assets, es = [.withdraw supplier amount
      (burnFor A (projected A w) (supplyBalanceOf w supplier) (valueOf A w (projected A w) supplier)
        amount) (projected A w).supplyIndex assets]
  | .repay repayer txid amount, es =>
    ∃ pos, w.positions.lookup txid = some pos ∧
      es = [if A.sub (accruedDebt A pos (projected A w).borrowIndex) amount = 0 then
          .repayFull txid repayer pos.p2wshScriptPubkey
        else .repay txid amount]
  | _, es => ∀ e ∈ es, e.quiet = true

section

variable {A : Arith} {H : Host τ ρ} {env : Env} {w w' : World τ ρ}

theorem deposit_events {depositor blockHash merkleProof txIndex rawTx p2wshSpk timelockHeight
    userPubkey keySig} {txid : BytesN 32}
    (h : deposit H env w depositor blockHash merkleProof txIndex rawTx p2wshSpk timelockHeight
      userPubkey keySig = .ok (txid, w')) :
    ∃ satoshis, w'.events = w.events ++ [.deposit txid satoshis timelockHeight] := by
  simp only [deposit, bind_eq_ok] at h
  obtain ⟨_, -, config, -, _, -, _, -, _, -, _, -, _, -, r, -, _, -, signed, -, _, -, _, -, spv, -,
    satoshis, -, _, -, h⟩ := h
  cases h
  exact ⟨satoshis, rfl⟩

theorem borrow_events {borrower : Address} {txid : BytesN 32} {amount : Int}
    (h : borrow A H env w borrower txid amount = .ok w') :
    w'.events = w.events ++ [.borrow txid borrower amount] := by
  simp only [borrow, bind_eq_ok, transfer_eq_ok] at h
  obtain ⟨_, -, config, -, _, -, pos, -, _, -, _, -, tip, -, _, -, _, -, _, -, price, -, collateral,
    -, _, -, w₁, ⟨t, -, rfl⟩, h⟩ := h
  cases h
  rfl

theorem liquidate_events {keeper : Address} {txid : BytesN 32}
    (h : liquidate A H env w keeper txid = .ok w') :
    ∃ bonus, w'.events = w.events ++ [.liquidate txid keeper bonus] := by
  simp only [liquidate, bind_eq_ok, transfer_eq_ok, payBonus_eq_ok] at h
  obtain ⟨_, -, config, -, _, -, pos, -, _, -, tip, -, _, -, price, -, collateral, -, _, -, w₁,
    ⟨t, -, rfl⟩, w₂, ⟨t', -, rfl⟩, h⟩ := h
  cases h
  exact ⟨_, rfl⟩

theorem adminUpdate_events {caller : Address} {check : Result Unit} {update : Config → Config}
    {ev : List Event} (h : adminUpdate H env w caller check update ev = .ok w') :
    w'.events = w.events ++ ev := by
  simp only [adminUpdate, bind_eq_ok] at h
  obtain ⟨_, -, config, -, _, -, _, -, h⟩ := h
  cases h
  rfl

theorem supplyUsdc_events {supplier : Address} {amount : Int}
    (h : supplyUsdc A H env w supplier amount = .ok w') :
    ∃ assets, w'.events = w.events ++ [.supply supplier amount
      (mintFor A (projected A w) amount) (projected A w).supplyIndex assets] := by
  simp only [supplyUsdc, bind_eq_ok, transfer_eq_ok] at h
  obtain ⟨_, -, config, -, _, -, _, -, w₁, ⟨t, -, rfl⟩, h⟩ := h
  cases h
  exact ⟨_, rfl⟩

theorem withdrawSupply_events {supplier : Address} {amount : Int}
    (h : withdrawSupply A H env w supplier amount = .ok w') :
    ∃ assets, w'.events = w.events ++ [.withdraw supplier amount
      (burnFor A (projected A w) (supplyBalanceOf w supplier) (valueOf A w (projected A w) supplier)
        amount) (projected A w).supplyIndex assets] := by
  simp only [withdrawSupply, bind_eq_ok, transfer_eq_ok] at h
  obtain ⟨_, -, config, -, _, -, _, -, _, -, w₁, ⟨t, -, rfl⟩, h⟩ := h
  cases h
  exact ⟨_, rfl⟩

theorem repay_events {repayer : Address} {txid : BytesN 32} {amount : Int}
    (h : repay A H env w repayer txid amount = .ok w') :
    ∃ pos, w.positions.lookup txid = some pos ∧ w'.events = w.events
      ++ [if A.sub (accruedDebt A pos (projected A w).borrowIndex) amount = 0 then
          .repayFull txid repayer pos.p2wshScriptPubkey
        else .repay txid amount] := by
  simp only [repay, bind_eq_ok, okOr_eq_ok, transfer_eq_ok] at h
  obtain ⟨_, -, config, -, pos, hpos, _, -, _, -, w₁, ⟨t, -, rfl⟩, h⟩ := h
  cases h
  exact ⟨pos, hpos, rfl⟩

/-- A successful call appends its events. -/
theorem exec_events {c : Call} (h : exec A H env w c = .ok w') :
    ∃ es, w'.events = w.events ++ es ∧ c.Emits A w es := by
  have hadmin : ∀ {caller check update ev}, (∀ e ∈ ev, e.quiet = true) →
      adminUpdate H env w caller check update ev = .ok w' →
        ∃ es, w'.events = w.events ++ es ∧ ∀ e ∈ es, e.quiet = true :=
    fun hev h => ⟨_, adminUpdate_events h, hev⟩
  cases c with
  | deposit =>
    obtain ⟨⟨txid, w₁⟩, hr, rfl⟩ := map_eq_ok.mp h
    obtain ⟨satoshis, hev⟩ := deposit_events hr
    exact ⟨_, hev, List.forall_mem_singleton.mpr rfl⟩
  | supplyUsdc =>
    obtain ⟨assets, hev⟩ := supplyUsdc_events h
    exact ⟨_, hev, assets, rfl⟩
  | withdrawSupply =>
    obtain ⟨assets, hev⟩ := withdrawSupply_events h
    exact ⟨_, hev, assets, rfl⟩
  | borrow => exact ⟨_, borrow_events h, List.forall_mem_singleton.mpr rfl⟩
  | repay =>
    obtain ⟨pos, hpos, hev⟩ := repay_events h
    exact ⟨_, hev, pos, hpos, rfl⟩
  | liquidate =>
    obtain ⟨bonus, hev⟩ := liquidate_events h
    exact ⟨_, hev, List.forall_mem_singleton.mpr rfl⟩
  | keeperHeartbeat =>
    simp only [exec, keeperHeartbeat, bind_eq_ok] at h
    obtain ⟨_, -, config, -, _, -, h⟩ := h
    cases h
    exact ⟨[], (List.append_nil _).symm, List.forall_mem_nil _⟩
  | publishReleasePsbt =>
    simp only [exec, publishReleasePsbt, bind_eq_ok] at h
    obtain ⟨_, -, config, -, _, -, _, -, h⟩ := h
    cases h
    exact ⟨[], (List.append_nil _).symm, List.forall_mem_nil _⟩
  | setOracle | setEntryTtl | setPaused => exact hadmin (List.forall_mem_singleton.mpr rfl) h
  | _ => exact hadmin (List.forall_mem_nil _) h

/-- A freshly deployed instance has published nothing. -/
theorem Deployed.events_eq (h : Deployed w) : w.events = [] := by
  obtain ⟨admin, spvContract, usdcToken, oracle, keeper, relayer, protocolPubkey, minConfirmations,
    minDepositSatoshis, entryTtlLedgers, h⟩ := h
  simp only [construct, bind_eq_ok] at h
  obtain ⟨_, -, _, -, _, -, h⟩ := h
  exact (congrArg Storage.events (Except.ok.inj h)).symm

end

end Writz.Lend

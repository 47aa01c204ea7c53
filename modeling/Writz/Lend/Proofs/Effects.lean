import Writz.Lend.System

/-!
# Proofs: what a call can do

One inversion of every entry point: `Effect A H w c w'` lists what a successful call `c` does to the
state and the checks it has passed that later arguments use. Everything proved about runs is a case
analysis of it.
-/

namespace Writz.Lend

variable {τ ρ : Type}

/-- The position a call brings up to date and changes the debt of. -/
def Call.touches : Call → Option (BytesN 32)
  | .borrow _ txid _ => some txid
  | .repay _ txid _ => some txid
  | .liquidate _ txid => some txid
  | _ => none

/-- The admin setters. -/
def Call.configures : Call → Bool
  | .setMaxTotalBorrowed .. | .setKeeper .. | .setKeeperStaleWindow .. | .setBorrowTimelockMargin ..
  | .setMaxTipAge .. | .setRelayer .. | .setOracle .. | .setEntryTtl .. | .setSpvContract ..
  | .setPaused .. => true
  | _ => false

/-- The value of a lender's scaled balance at the supply index of `proto`. -/
def valueOf (A : Arith) (w : World τ ρ) (proto : ProtocolState) (lender : Address) : Int :=
  (A.mul (supplyBalanceOf w lender) proto.supplyIndex).tdiv INDEX_ONE

/-- What the pool can pay out: the lenders' claim less the loans. -/
def availableIn (A : Arith) (proto : ProtocolState) : Int :=
  A.sub (totalSupplyAssets A proto proto.supplyIndex) proto.totalBorrowed

/-- The bonus a liquidation of `debt` pays out of the reserve. -/
def bonusFor (A : Arith) (config : Config) (proto : ProtocolState) (debt : Int) : Int :=
  min ((A.mul debt config.liquidationBonusBp).tdiv BP_SCALE) proto.reserveUsdc

/-- The effect of a successful call. -/
inductive Effect (A : Arith) (H : Host τ ρ) (w : World τ ρ) : Call → World τ ρ → Prop where
  /-- A new position, its transaction consumed in the shared registry. -/
  | deposit {depositor blockHash merkleProof txIndex rawTx p2wshSpk timelockHeight userPubkey keySig}
      {txid : BytesN 32} {config : Config} {spv : ρ} {pos : Position} {ev : List Event}
      (hc : w.config = some config) (hnew : w.positions.lookup txid = none)
      (hcons : H.spv.consumeDeposit w.spv config.spvContract H.self txid = some spv)
      (hdebt : pos.usdcDebt = 0) (hindex : pos.debtIndex = INDEX_ONE)
      (hactive : pos.status = .Active) :
      Effect A H w
        (.deposit depositor blockHash merkleProof txIndex rawTx p2wshSpk timelockHeight userPubkey
          keySig)
        { w with positions := w.positions.insert txid pos, spv := spv, events := ev }
  /-- Scaled units minted for the supplier. -/
  | supply {supplier : Address} {amount : Int} {t : τ} {ev : List Event}
      (hself : supplier ≠ H.self) (hmint : 0 < mintFor A (projected A w) amount)
      (ht : H.token.transfer w.token supplier H.self amount = some t) :
      Effect A H w (.supplyUsdc supplier amount)
        { w with
          token := t
          protocol := some
            { projected A w with
              totalScaledSupply :=
                A.add (projected A w).totalScaledSupply (mintFor A (projected A w) amount) }
          supplyBalances := w.supplyBalances.insert supplier
            (A.add (supplyBalanceOf w supplier) (mintFor A (projected A w) amount))
          events := ev }
  /-- Scaled units burned from the supplier. -/
  | withdraw {supplier : Address} {amount : Int} {t : τ} {ev : List Event}
      (hself : supplier ≠ H.self) (hamount : 0 < amount)
      (hvalue : amount ≤ valueOf A w (projected A w) supplier)
      (havailable : amount ≤ availableIn A (projected A w))
      (ht : H.token.transfer w.token H.self supplier amount = some t) :
      Effect A H w (.withdrawSupply supplier amount)
        { w with
          token := t
          protocol := some
            { projected A w with
              totalScaledSupply :=
                A.sub (projected A w).totalScaledSupply
                  (burnFor A (projected A w) (supplyBalanceOf w supplier)
                    (valueOf A w (projected A w) supplier) amount) }
          supplyBalances := w.supplyBalances.insert supplier
            (supplyBalanceOf w supplier
              - burnFor A (projected A w) (supplyBalanceOf w supplier)
                  (valueOf A w (projected A w) supplier) amount)
          events := ev }
  /-- A position brought up to date and topped up. -/
  | borrow {borrower : Address} {txid : BytesN 32} {amount : Int} {pos : Position} {t : τ}
      {ev : List Event} (hself : borrower ≠ H.self) (hpos : w.positions.lookup txid = some pos)
      (hactive : pos.status = .Active) (havailable : amount ≤ availableIn A (projected A w))
      (ht : H.token.transfer w.token H.self borrower amount = some t) :
      Effect A H w (.borrow borrower txid amount)
        { w with
          token := t
          positions := w.positions.insert txid
            { accruePositionInterest A w.ledger.sequence pos (projected A w) with
              usdcDebt := A.add (accruedDebt A pos (projected A w).borrowIndex) amount }
          protocol := some
            { projected A w with totalBorrowed := A.add (projected A w).totalBorrowed amount }
          events := ev }
  /-- A position brought up to date and paid down. -/
  | repay {repayer : Address} {txid : BytesN 32} {amount : Int} {pos : Position} {t : τ}
      {ev : List Event} (hself : repayer ≠ H.self) (hpos : w.positions.lookup txid = some pos)
      (hactive : pos.status = .Active)
      (hdebt : amount ≤ accruedDebt A pos (projected A w).borrowIndex)
      (ht : H.token.transfer w.token repayer H.self amount = some t) :
      Effect A H w (.repay repayer txid amount)
        { w with
          token := t
          positions := w.positions.insert txid
            { accruePositionInterest A w.ledger.sequence pos (projected A w) with
              usdcDebt := A.sub (accruedDebt A pos (projected A w).borrowIndex) amount
              status :=
                if A.sub (accruedDebt A pos (projected A w).borrowIndex) amount = 0 then .Closed
                else pos.status }
          protocol := some
            { projected A w with totalBorrowed := A.sub (projected A w).totalBorrowed amount }
          events := ev }
  /-- A position paid off by a keeper, who may get a bonus out of the reserve. -/
  | liquidate {keeper : Address} {txid : BytesN 32} {config : Config} {pos : Position} {t t' : τ}
      {heartbeat : Nat} {ev : List Event} (hself : keeper ≠ H.self) (hc : w.config = some config)
      (hpos : w.positions.lookup txid = some pos) (hactive : pos.status = .Active)
      (ht : H.token.transfer w.token keeper H.self
        (accruedDebt A pos (projected A w).borrowIndex) = some t)
      (ht' :
        if 0 < bonusFor A config (projected A w) (accruedDebt A pos (projected A w).borrowIndex) then
          H.token.transfer t H.self keeper
            (bonusFor A config (projected A w) (accruedDebt A pos (projected A w).borrowIndex))
              = some t'
        else t' = t) :
      Effect A H w (.liquidate keeper txid)
        { w with
          token := t'
          positions := w.positions.insert txid
            { accruePositionInterest A w.ledger.sequence pos (projected A w) with
              usdcDebt := 0
              status := .Liquidated }
          protocol := some
            { projected A w with
              totalBorrowed :=
                A.sub (projected A w).totalBorrowed (accruedDebt A pos (projected A w).borrowIndex)
              reserveUsdc :=
                if 0 < bonusFor A config (projected A w)
                    (accruedDebt A pos (projected A w).borrowIndex) then
                  (projected A w).reserveUsdc
                    - bonusFor A config (projected A w)
                        (accruedDebt A pos (projected A w).borrowIndex)
                else (projected A w).reserveUsdc
              lastKeeperHeartbeat := heartbeat }
          events := ev }
  /-- The keeper's heartbeat. -/
  | heartbeat {keeper : Address} {now : Nat} :
      Effect A H w (.keeperHeartbeat keeper)
        { w with protocol := some { getProtocol w with lastKeeperHeartbeat := now } }
  /-- An admin setter. None of them changes the liquidation bonus. -/
  | configure {c : Call} {config config' : Config} {ev : List Event} (hcall : c.configures = true)
      (hc : w.config = some config)
      (hbonus : config'.liquidationBonusBp = config.liquidationBonusBp) :
      Effect A H w c { w with config := some config', events := ev }
  /-- A release transaction published by the relayer. -/
  | psbt {relayer : Address} {txid : BytesN 32} {psbt : Bytes} :
      Effect A H w (.publishReleasePsbt relayer txid psbt)
        { w with releasePsbts := w.releasePsbts.insert txid psbt }

section Inversion

variable {A : Arith} {H : Host τ ρ} {env : Env} {w w' : World τ ρ}

theorem requireAuth_ne {a : Address} {u : Unit} (h : requireAuth H env a = .ok u) : a ≠ H.self := by
  intro ha
  simp [requireAuth, ha] at h

theorem transfer_eq_ok {src dst : Address} {amount : Int} :
    transfer H w src dst amount = .ok w' ↔
      ∃ t, H.token.transfer w.token src dst amount = some t ∧ { w with token := t } = w' := by
  unfold transfer
  cases H.token.transfer w.token src dst amount <;> simp

theorem payBonus_eq_ok {keeper : Address} {bonus : Int} :
    payBonus H w keeper bonus = .ok w' ↔
      ∃ t, (if 0 < bonus then H.token.transfer w.token H.self keeper bonus = some t
        else t = w.token) ∧ { w with token := t } = w' := by
  unfold payBonus
  by_cases hb : 0 < bonus
  · simp [hb, transfer_eq_ok]
  · simp [hb]

theorem deposit_effect {depositor blockHash merkleProof txIndex rawTx p2wshSpk timelockHeight
    userPubkey keySig} {txid : BytesN 32}
    (h : deposit H env w depositor blockHash merkleProof txIndex rawTx p2wshSpk timelockHeight
      userPubkey keySig = .ok (txid, w')) :
    Effect A H w (.deposit depositor blockHash merkleProof txIndex rawTx p2wshSpk timelockHeight
      userPubkey keySig) w' := by
  simp only [deposit, bind_eq_ok, failIf_eq_ok, okOr_eq_ok] at h
  obtain ⟨_, -, config, hc, _, -, _, -, _, -, _, -, _, -, r, -, _, -, signed, -, _, -, _, hnew, spv,
    hcons, sats, -, _, -, h⟩ := h
  rw [Except.ok.injEq, Prod.mk.injEq] at h
  obtain ⟨rfl, rfl⟩ := h
  rw [Option.isSome_iff_ne_none, not_not] at hnew
  exact .deposit hc hnew hcons rfl rfl rfl

theorem supplyUsdc_effect {supplier : Address} {amount : Int}
    (h : supplyUsdc A H env w supplier amount = .ok w') :
    Effect A H w (.supplyUsdc supplier amount) w' := by
  simp only [supplyUsdc, bind_eq_ok, failIf_eq_ok, okOr_eq_ok, transfer_eq_ok] at h
  obtain ⟨_, hauth, config, -, _, -, _, hmint, w₁, ⟨t, ht, rfl⟩, h⟩ := h
  cases h
  exact .supply (requireAuth_ne hauth) (not_le.mp hmint) ht

theorem withdrawSupply_effect {supplier : Address} {amount : Int}
    (h : withdrawSupply A H env w supplier amount = .ok w') :
    Effect A H w (.withdrawSupply supplier amount) w' := by
  simp only [withdrawSupply, bind_eq_ok, failIf_eq_ok, okOr_eq_ok, transfer_eq_ok] at h
  obtain ⟨_, hauth, config, -, _, hamount, _, hvalue, _, havailable, w₁, ⟨t, ht, rfl⟩, h⟩ := h
  cases h
  exact .withdraw (requireAuth_ne hauth) (not_le.mp hamount) (not_lt.mp hvalue)
    (not_lt.mp havailable) ht

theorem borrow_effect {borrower : Address} {txid : BytesN 32} {amount : Int}
    (h : borrow A H env w borrower txid amount = .ok w') :
    Effect A H w (.borrow borrower txid amount) w' := by
  simp only [borrow, bind_eq_ok, failIf_eq_ok, okOr_eq_ok, transfer_eq_ok] at h
  obtain ⟨_, hauth, config, -, _, -, pos, hpos, _, hactive, _, -, tip, -, _, -, _, havailable, _, -,
    price, -, collateral, -, _, -, w₁, ⟨t, ht, rfl⟩, h⟩ := h
  cases h
  exact .borrow (requireAuth_ne hauth) hpos (not_not.mp hactive) (not_lt.mp havailable) ht

theorem repay_effect {repayer : Address} {txid : BytesN 32} {amount : Int}
    (h : repay A H env w repayer txid amount = .ok w') :
    Effect A H w (.repay repayer txid amount) w' := by
  simp only [repay, bind_eq_ok, failIf_eq_ok, okOr_eq_ok, transfer_eq_ok] at h
  obtain ⟨_, hauth, config, -, pos, hpos, _, hactive, _, hdebt, w₁, ⟨t, ht, rfl⟩, h⟩ := h
  cases h
  exact .repay (requireAuth_ne hauth) hpos (not_not.mp hactive) (not_lt.mp hdebt) ht

theorem liquidate_effect {keeper : Address} {txid : BytesN 32}
    (h : liquidate A H env w keeper txid = .ok w') :
    Effect A H w (.liquidate keeper txid) w' := by
  simp only [liquidate, bind_eq_ok, failIf_eq_ok, okOr_eq_ok, transfer_eq_ok, payBonus_eq_ok] at h
  obtain ⟨_, hauth, config, hc, _, -, pos, hpos, _, hactive, tip, -, _, -, price, -, collateral, -,
    _, -, w₁, ⟨t, ht, rfl⟩, w₂, ⟨t', ht', rfl⟩, h⟩ := h
  cases h
  exact .liquidate (requireAuth_ne hauth) hc hpos (not_not.mp hactive) ht ht'

theorem adminUpdate_effect {c : Call} {caller : Address} {check : Result Unit}
    {update : Config → Config} {ev : List Event}
    (h : adminUpdate H env w caller check update ev = .ok w') (hcall : c.configures = true)
    (hbonus : ∀ config, (update config).liquidationBonusBp = config.liquidationBonusBp) :
    Effect A H w c w' := by
  simp only [adminUpdate, bind_eq_ok, failIf_eq_ok, okOr_eq_ok] at h
  obtain ⟨_, -, config, hc, _, -, _, -, h⟩ := h
  cases h
  exact .configure hcall hc (hbonus config)

theorem keeperHeartbeat_effect {keeper : Address} (h : keeperHeartbeat H env w keeper = .ok w') :
    Effect A H w (.keeperHeartbeat keeper) w' := by
  simp only [keeperHeartbeat, bind_eq_ok, failIf_eq_ok, okOr_eq_ok] at h
  obtain ⟨_, -, config, -, _, -, h⟩ := h
  cases h
  exact .heartbeat

theorem publishReleasePsbt_effect {relayer : Address} {txid : BytesN 32} {psbt : Bytes}
    (h : publishReleasePsbt H env w relayer txid psbt = .ok w') :
    Effect A H w (.publishReleasePsbt relayer txid psbt) w' := by
  simp only [publishReleasePsbt, bind_eq_ok, failIf_eq_ok, okOr_eq_ok] at h
  obtain ⟨_, -, config, -, _, -, _, -, h⟩ := h
  cases h
  exact .psbt

/-- A successful call has one of the effects. -/
theorem exec_effect {c : Call} (h : exec A H env w c = .ok w') : Effect A H w c w' := by
  cases c with
  | deposit =>
    obtain ⟨⟨txid, w₁⟩, hr, rfl⟩ := map_eq_ok.mp h
    exact deposit_effect hr
  | supplyUsdc => exact supplyUsdc_effect h
  | withdrawSupply => exact withdrawSupply_effect h
  | borrow => exact borrow_effect h
  | repay => exact repay_effect h
  | liquidate => exact liquidate_effect h
  | keeperHeartbeat => exact keeperHeartbeat_effect h
  | publishReleasePsbt => exact publishReleasePsbt_effect h
  | _ => exact adminUpdate_effect h rfl fun _ => rfl

/-- The state an invocation leaves is the state before it or the effect of its call. -/
theorem invoke_cases (A : Arith) (H : Host τ ρ) (env : Env) (w : World τ ρ) (c : Call) :
    invoke A H env w c = w ∨ Effect A H w c (invoke A H env w c) := by
  unfold invoke
  split
  · next w' h => exact .inr (exec_effect h)
  · exact .inl rfl

end Inversion

end Writz.Lend

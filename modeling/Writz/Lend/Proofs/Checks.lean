import Writz.Lend.Proofs.Books

/-!
# Proofs: what a borrow and a liquidation have checked

The checks of the two calls that read the price, and the two thresholds they compare with, which no
call changes.
-/

namespace Writz.Lend

variable {τ ρ : Type}

/-- What a successful borrow has checked, with what it read. -/
structure BorrowChecks (A : Arith) (H : Host τ ρ) (env : Env) (w : World τ ρ) (borrower : Address)
    (txid : BytesN 32) (usdcAmount : Int) (config : Config) (pos : Position) (price collateral : Int) :
    Prop where
  authorized : env.auth borrower = true
  configured : w.config = some config
  found : w.positions.lookup txid = some pos
  active : pos.status = .Active
  owned : pos.depositor = borrower
  capped : A.add (projected A w).totalBorrowed usdcAmount ≤ config.maxTotalBorrowed
  priced : getBtcPriceStroops env w.ledger.timestamp config.oracle = .ok price
  valued : collateralValueStroops pos.btcSatoshis price = some collateral
  healthy : config.minCollateralRatioBp
    ≤ healthRatioBp A collateral (A.add (accruedDebt A pos (projected A w).borrowIndex) usdcAmount)

/-- What a successful liquidation has checked. -/
structure LiquidateChecks (A : Arith) (H : Host τ ρ) (env : Env) (w : World τ ρ) (txid : BytesN 32)
    (config : Config) (pos : Position) (price collateral : Int) : Prop where
  configured : w.config = some config
  found : w.positions.lookup txid = some pos
  active : pos.status = .Active
  priced : getBtcPriceStroops env w.ledger.timestamp config.oracle = .ok price
  valued : collateralValueStroops pos.btcSatoshis price = some collateral
  unhealthy : healthRatioBp A collateral (accruedDebt A pos (projected A w).borrowIndex)
    < config.liquidationThresholdBp

/-- The thresholds of the constructor. -/
def Thresholds (w : World τ ρ) : Prop :=
  ∀ config, w.config = some config →
    config.minCollateralRatioBp = 15000 ∧ config.liquidationThresholdBp = 12000

section

variable {A : Arith} {H : Host τ ρ} {env : Env} {w w' : World τ ρ}

theorem requireAuth_auth {a : Address} {u : Unit} (h : requireAuth H env a = .ok u) :
    env.auth a = true := by
  unfold requireAuth at h
  rw [failIf_eq_ok, not_or, Bool.not_eq_false] at h
  exact h.2

theorem borrow_checks {borrower : Address} {txid : BytesN 32} {amount : Int}
    (h : borrow A H env w borrower txid amount = .ok w') :
    ∃ config pos price collateral,
      BorrowChecks A H env w borrower txid amount config pos price collateral := by
  simp only [borrow, bind_eq_ok, failIf_eq_ok, okOr_eq_ok, transfer_eq_ok] at h
  obtain ⟨_, hauth, config, hc, _, -, pos, hpos, _, hactive, _, howner, tip, -, _, -, _, -, _, hcap,
    price, hprice, collateral, hvalue, _, hhealth, -⟩ := h
  exact ⟨config, pos, price, collateral, requireAuth_auth hauth, hc, hpos, not_not.mp hactive,
    not_not.mp howner, not_lt.mp hcap, hprice, hvalue, not_lt.mp hhealth⟩

theorem liquidate_checks {keeper : Address} {txid : BytesN 32}
    (h : liquidate A H env w keeper txid = .ok w') :
    ∃ config pos price collateral, LiquidateChecks A H env w txid config pos price collateral := by
  simp only [liquidate, bind_eq_ok, failIf_eq_ok, okOr_eq_ok, transfer_eq_ok, payBonus_eq_ok] at h
  obtain ⟨_, -, config, hc, _, -, pos, hpos, _, hactive, tip, -, _, -, price, hprice, collateral,
    hvalue, _, hhealth, -⟩ := h
  exact ⟨config, pos, price, collateral, hc, hpos, not_not.mp hactive, hprice, hvalue,
    not_le.mp hhealth⟩

theorem Deployed.thresholds (h : Deployed w) : Thresholds w := by
  obtain ⟨admin, spvContract, usdcToken, oracle, keeper, relayer, protocolPubkey, minConfirmations,
    minDepositSatoshis, entryTtlLedgers, h⟩ := h
  simp only [construct, bind_eq_ok] at h
  obtain ⟨_, -, _, -, _, -, h⟩ := h
  intro config hc
  rw [← congrArg Storage.config (Except.ok.inj h)] at hc
  cases hc
  exact ⟨rfl, rfl⟩

theorem adminUpdate_thresholds {caller : Address} {check : Result Unit} {update : Config → Config}
    {ev : List Event} (ht : Thresholds w) (h : adminUpdate H env w caller check update ev = .ok w')
    (hupdate : ∀ config, (update config).minCollateralRatioBp = config.minCollateralRatioBp ∧
      (update config).liquidationThresholdBp = config.liquidationThresholdBp) : Thresholds w' := by
  simp only [adminUpdate, bind_eq_ok, okOr_eq_ok] at h
  obtain ⟨_, -, config, hc, _, -, _, -, h⟩ := h
  cases h
  intro config' hc'
  cases hc'
  obtain ⟨hmin, hliq⟩ := hupdate config
  obtain ⟨hmin', hliq'⟩ := ht config hc
  exact ⟨hmin.trans hmin', hliq.trans hliq'⟩

/-- No call changes the thresholds. -/
theorem exec_thresholds {c : Call} (ht : Thresholds w) (h : exec A H env w c = .ok w') :
    Thresholds w' := by
  cases c with
  | deposit | supplyUsdc | withdrawSupply | borrow | repay | liquidate | keeperHeartbeat
  | publishReleasePsbt =>
    cases exec_effect h <;> first | exact ht | contradiction
  | _ => exact adminUpdate_thresholds ht h fun _ => ⟨rfl, rfl⟩

theorem Thresholds.step (ht : Thresholds w) {l : Label τ ρ} (hs : step A H w l = some w') :
    Thresholds w' := by
  cases l with
  | invoke env c =>
    cases hs
    cases he : exec A H env w c with
    | error e =>
      rw [invoke, he]
      exact ht
    | ok w₁ =>
      rw [invoke, he]
      exact exec_thresholds ht he
  | advance l =>
    intro config hc
    rw [step_outside hs (by simp)] at hc
    exact ht config hc
  | outside t r =>
    intro config hc
    rw [step_outside hs (by simp)] at hc
    exact ht config hc

theorem thresholds_of_reachable (h : Runs.Reachable (system A H) w) : Thresholds w :=
  h.invariant (I := Thresholds) (fun _ h0 => Deployed.thresholds h0) fun _ _ _ ht _ hs => ht.step hs

end

end Writz.Lend

import Writz.Lend.Proofs.Books
import Writz.Lend.Deployment
import Writz.Util.BalanceSheet

/-!
# Proofs: solvency in exact arithmetic

The pool refines a balance sheet whose money is counted in stroops times `INDEX_ONE`, so that a scaled
unit is worth exactly the supply index: every accrual and every call is a sequence of its moves.
-/

namespace Writz.Lend

open BalanceSheet Relation

variable {τ ρ : Type}

/-- The balance sheet of a pool that holds `cash`. -/
def sheetOf (cash : Int) (p : ProtocolState) : Sheet Int where
  cash := cash * INDEX_ONE
  loans := p.totalBorrowed * INDEX_ONE
  reserve := p.reserveUsdc * INDEX_ONE
  units := p.totalScaledSupply
  price := p.supplyIndex

/-- The USDC the contract holds. -/
def cashOf (H : Host τ ρ) (w : World τ ρ) : Int := H.token.balance w.token H.self

/-- The balance sheet of a state. -/
def sheet (H : Host τ ρ) (w : World τ ρ) : Sheet Int := sheetOf (cashOf H w) (getProtocol w)

/-! ## Rounding -/

/-- A floored quotient, scaled back up, is no more than what was divided. -/
theorem tdiv_mul_le {x k : Int} (h : 0 ≤ x) : x.tdiv k * k ≤ x := by
  rw [mul_comm]
  exact Int.mul_tdiv_self_le h

/-- The quotient a withdrawal rounds up covers what was divided. -/
theorem le_ceil_mul (x : Int) {k : Int} (hk : 0 < k) : x ≤ (x + (k - 1)).tdiv k * k := by
  have := Int.lt_tdiv_add_one_mul_self (x + (k - 1)) hk
  linarith

theorem mintFor_mul_le {p : ProtocolState} {amount : Int} (h : 0 ≤ amount) :
    mintFor .exact p amount * p.supplyIndex ≤ amount * INDEX_ONE :=
  tdiv_mul_le (Int.mul_nonneg h (by decide))

/-- The units a withdrawal burns are worth at least what it pays. -/
theorem le_burnFor_mul {p : ProtocolState} {bal amount : Int} (hp : 0 < p.supplyIndex)
    (hb : 0 ≤ bal) (hvalue : amount ≤ (Arith.exact.mul bal p.supplyIndex).tdiv INDEX_ONE) :
    amount * INDEX_ONE ≤
      burnFor .exact p bal ((Arith.exact.mul bal p.supplyIndex).tdiv INDEX_ONE) amount
        * p.supplyIndex := by
  have hbal : amount * INDEX_ONE ≤ bal * p.supplyIndex :=
    (Int.mul_le_mul_of_nonneg_right hvalue (by decide)).trans
      (tdiv_mul_le (Int.mul_nonneg hb hp.le))
  have hup := le_ceil_mul (amount * INDEX_ONE) hp
  unfold burnFor
  split_ifs with hv
  · exact hbal
  · rcases min_choice ((Arith.exact.add (Arith.exact.mul amount INDEX_ONE)
      (p.supplyIndex - 1)).tdiv p.supplyIndex) bal with hm | hm
    · rw [hm]
      exact hup
    · rw [hm]
      exact hbal

/-! ## The refinement -/

/-- What an accrual adds to each side of the balance sheet. -/
theorem Accrual.move {p q : ProtocolState} (ha : Accrual .exact p q) (h : p.Sound) (cash : Int) :
    Move (sheetOf cash p) (sheetOf cash q) := by
  cases ha with
  | idle hidle hpos =>
    have hm := @Move.accrue _ _ _ (sheetOf cash p) 0 0 _ le_rfl le_rfl (by simp)
    simpa [sheetOf] using hm
  | @grow index current hb hi =>
    set δ := accruedDelta .exact p index with hδdef
    have hδ : 0 ≤ δ := accruedDelta_nonneg hb.le h.borrowIndex_pos hi.le
    obtain ⟨hf0, hf1⟩ := accruedFee_mem (A := .exact) hδ
    have hshare : 0 ≤ (δ - accruedFee .exact δ) * INDEX_ONE :=
      Int.mul_nonneg (by omega) (by decide)
    have hprice : p.supplyIndex ≤ grownSupplyIndex .exact p δ ∧
        p.totalScaledSupply * (grownSupplyIndex .exact p δ - p.supplyIndex)
          ≤ (δ - accruedFee .exact δ) * INDEX_ONE := by
      unfold grownSupplyIndex
      split_ifs with hs
      · have hle := Int.mul_tdiv_self_le (k := p.totalScaledSupply) hshare
        have hnn := Int.tdiv_nonneg hshare hs.le
        simp only [Arith.exact_add, Arith.exact_mul]
        constructor
        · omega
        · linarith
      · have hz : p.totalScaledSupply = 0 := le_antisymm (not_lt.mp hs) h.scaled_nonneg
        rw [hz]
        exact ⟨le_rfl, by simpa using hshare⟩
    have hm := @Move.accrue _ _ _ (sheetOf cash p) (δ * INDEX_ONE)
      (accruedFee .exact δ * INDEX_ONE) (grownSupplyIndex .exact p δ)
      (Int.mul_nonneg hf0 (by decide)) hprice.1 (by rw [← sub_mul]; exact hprice.2)
    simpa only [sheetOf, Arith.exact_add, ← add_mul] using hm

section

variable {H : Host τ ρ} {env : Env} {w w' : World τ ρ}

theorem transfer_in {src : Address} {n : Int} {t t' : τ} (hne : src ≠ H.self)
    (h : H.token.transfer t src H.self n = some t') :
    H.token.balance t' H.self = H.token.balance t H.self + n := by
  rw [H.token.transfer_moves h, if_neg hne.symm, if_pos rfl]
  omega

theorem transfer_out {dst : Address} {n : Int} {t t' : τ} (hne : dst ≠ H.self)
    (h : H.token.transfer t H.self dst n = some t') :
    H.token.balance t' H.self = H.token.balance t H.self - n := by
  rw [H.token.transfer_moves h, if_pos rfl, if_neg hne.symm]
  omega

/-- What is available to borrow or to withdraw is there in cash. -/
theorem le_cash_of_available {cash amount : Int} {p : ProtocolState} (hp : p.Sound)
    (hs : Solvent (sheetOf cash p)) (h : amount ≤ availableIn .exact p) : amount ≤ cash := by
  have hassets : totalSupplyAssets .exact p p.supplyIndex * INDEX_ONE
      ≤ p.totalScaledSupply * p.supplyIndex :=
    tdiv_mul_le (Int.mul_nonneg hp.scaled_nonneg hp.supplyIndex_pos.le)
  have hscaled : amount * INDEX_ONE ≤
      p.totalScaledSupply * p.supplyIndex - p.totalBorrowed * INDEX_ONE := by
    have := Int.mul_le_mul_of_nonneg_right h (by decide : 0 ≤ INDEX_ONE)
    rw [availableIn, Arith.exact_sub, sub_mul] at this
    omega
  exact Int.le_of_mul_le_mul_right (hs.le_cash hscaled) INDEX_ONE_pos

/-- The bonus is at most a tenth of the debt it rewards, and at most the reserve. -/
theorem bonusFor_le {config : Config} {p : ProtocolState} {debt : Int} (hd : 0 ≤ debt)
    (hc : config.liquidationBonusBp = 1000) :
    bonusFor .exact config p debt ≤ debt ∧ bonusFor .exact config p debt ≤ p.reserveUsdc := by
  refine ⟨(min_le_left _ _).trans ?_, min_le_right _ _⟩
  rw [hc]
  exact (mul_tdiv_le hd (by decide) (by decide) (by simp only [BP_SCALE]; omega)).2

theorem sheet_accrued_solvent (h : Books .exact w) (hs : Solvent (sheet H w)) :
    Solvent (sheetOf (cashOf H w) (projected .exact w)) :=
  ((projected_accrual .exact w).move h.sound _).solvent hs

/-- Every call is a sequence of moves of the balance sheet. -/
theorem Effect.moves {c : Call} (e : Effect .exact H w c w') (h : Books .exact w)
    (hs : Solvent (sheet H w)) : ReflTransGen Move (sheet H w) (sheet H w') := by
  have hp := h.projected_sound
  have haccrue : ReflTransGen Move (sheet H w) (sheetOf (cashOf H w) (projected .exact w)) :=
    .single ((projected_accrual .exact w).move h.sound _)
  have hsolv := sheet_accrued_solvent h hs
  cases e with
  | deposit => exact .refl
  | @supply supplier amount t ev hself hmint ht =>
    refine haccrue.tail ?_
    have hamount := H.token.transfer_nonneg ht
    have hm := Move.mint (s := sheetOf (cashOf H w) (projected .exact w))
      (a := amount * INDEX_ONE) hmint.le (mintFor_mul_le hamount)
    change Move _ (sheetOf (H.token.balance t H.self) _)
    rw [transfer_in hself ht]
    simpa only [sheetOf, cashOf, getProtocol, Option.getD_some, Arith.exact_add, Arith.exact_sub, ← add_mul] using hm
  | @withdraw supplier amount t ev hself hamount hvalue havailable ht =>
    refine haccrue.tail ?_
    have hbal := h.supplyBalance_nonneg supplier
    have hburn := burnFor_mem (A := .exact) (v := valueOf .exact w (projected .exact w) supplier)
      hp.supplyIndex_pos hbal hamount.le
    have hcover := le_cash_of_available hp hsolv havailable
    have hm := Move.burn (s := sheetOf (cashOf H w) (projected .exact w)) (a := amount * INDEX_ONE)
      (hburn.2.trans ((h.supplyBalance_le supplier).trans h.held_le))
      (Int.mul_le_mul_of_nonneg_right hcover (by decide))
      (le_burnFor_mul hp.supplyIndex_pos hbal hvalue)
    change Move _ (sheetOf (H.token.balance t H.self) _)
    rw [transfer_out hself ht]
    simpa only [sheetOf, cashOf, getProtocol, Option.getD_some, Arith.exact_add, Arith.exact_sub, ← sub_mul] using hm
  | @borrow borrower txid amount pos t ev hself hpos hactive havailable ht =>
    refine haccrue.tail ?_
    have hcover := le_cash_of_available hp hsolv havailable
    have hm := Move.lend (s := sheetOf (cashOf H w) (projected .exact w))
      (Int.mul_le_mul_of_nonneg_right hcover (by decide : 0 ≤ INDEX_ONE))
    change Move _ (sheetOf (H.token.balance t H.self) _)
    rw [transfer_out hself ht]
    simpa only [sheetOf, cashOf, getProtocol, Option.getD_some, Arith.exact_add, Arith.exact_sub, ← sub_mul, ← add_mul] using hm
  | @repay repayer txid amount pos t ev hself hpos hactive hdebt ht =>
    refine haccrue.tail ?_
    have hm := Move.settle (s := sheetOf (cashOf H w) (projected .exact w))
      (Int.mul_nonneg (H.token.transfer_nonneg ht) (by decide : 0 ≤ INDEX_ONE))
    change Move _ (sheetOf (H.token.balance t H.self) _)
    rw [transfer_in hself ht]
    simpa only [sheetOf, cashOf, getProtocol, Option.getD_some, Arith.exact_add, Arith.exact_sub, ← sub_mul, ← add_mul] using hm
  | @liquidate keeper txid config pos t t' now ev hself hc hpos hactive ht ht' =>
    set debt := accruedDebt .exact pos (projected .exact w).borrowIndex with hdebt
    have hd : 0 ≤ debt := H.token.transfer_nonneg ht
    obtain ⟨hb0, hb1⟩ := bonusFor_le (p := projected .exact w) hd (h.bonus hc)
    have hcash : H.token.balance t H.self = cashOf H w + debt := transfer_in hself ht
    have hsettle := Move.settle (s := sheetOf (cashOf H w) (projected .exact w))
      (Int.mul_nonneg hd (by decide : 0 ≤ INDEX_ONE))
    split_ifs at ht' ⊢ with hbonus
    · refine (haccrue.tail hsettle).tail ?_
      have hle : bonusFor .exact config (projected .exact w) debt ≤ cashOf H w + debt := by
        have := H.token.balance_nonneg w.token H.self
        simp only [cashOf]
        omega
      have hm := Move.pay (s := sheetOf (cashOf H w + debt)
          { projected .exact w with totalBorrowed := (projected .exact w).totalBorrowed - debt })
        (Int.mul_le_mul_of_nonneg_right hle (by decide : 0 ≤ INDEX_ONE))
        (Int.mul_le_mul_of_nonneg_right hb1 (by decide : 0 ≤ INDEX_ONE))
      change Move _ (sheetOf (H.token.balance t' H.self) _)
      rw [transfer_out hself ht', hcash]
      simpa only [sheetOf, getProtocol, Option.getD_some, Arith.exact_sub, ← sub_mul, ← add_mul] using hm
    · refine haccrue.tail ?_
      change Move _ (sheetOf (H.token.balance t' H.self) _)
      rw [ht', hcash]
      simpa only [sheetOf, getProtocol, Option.getD_some, Arith.exact_sub, ← sub_mul, ← add_mul] using hsettle
  | heartbeat => exact .refl
  | configure => exact .refl
  | psbt => exact .refl

/-! ## Runs -/

theorem Deployed.solvent (h : Deployed w) : Solvent (sheet H w) := by
  have hp := getProtocol_eq h.eq.1
  have hcash := H.token.balance_nonneg w.token H.self
  unfold sheet
  rw [hp]
  exact ⟨Int.mul_nonneg hcash (by decide), le_rfl, le_rfl, INDEX_ONE_pos.le,
    by simpa [sheetOf, cashOf] using Int.mul_nonneg hcash (by decide : 0 ≤ INDEX_ONE)⟩

/-- A step keeps the pool solvent. -/
theorem solvent_step (h : Books .exact w) (hs : Solvent (sheet H w)) {l : Label τ ρ}
    (hstep : step .exact H w l = some w') : Solvent (sheet H w') := by
  cases l with
  | invoke env c =>
    cases hstep
    rcases invoke_cases .exact H env w c with he | he
    · rwa [he]
    · exact hs.moves (he.moves h hs)
  | advance l =>
    obtain ⟨now, ledger, hp⟩ := getProtocol_of_storage (step_outside hstep (by simp))
    simp only [step] at hstep
    split_ifs at hstep
    cases hstep
    unfold sheet
    rw [hp]
    exact hs
  | outside t r =>
    obtain ⟨now, ledger, hp⟩ := getProtocol_of_storage (step_outside hstep (by simp))
    simp only [step] at hstep
    split_ifs at hstep with hle
    cases hstep
    have hgift : 0 ≤ (H.token.balance t H.self - cashOf H w) * INDEX_ONE :=
      Int.mul_nonneg (sub_nonneg.mpr hle) (by decide)
    have hm := (Move.gift (s := sheet H w) hgift).solvent hs
    unfold sheet
    rw [hp]
    simpa [sheet, sheetOf, cashOf, ← add_mul] using hm

/-- The books are kept and the pool is solvent in every reachable state. -/
theorem books_solvent_of_reachable (h : Runs.Reachable (system .exact H) w) :
    Books .exact w ∧ Solvent (sheet H w) := by
  have hinv : (Books .exact w ∧ Solvent (sheet H w)) ∧ Runs.Reachable (system .exact H) w := by
    induction h with
    | init h0 => exact ⟨⟨Deployed.books h0, Deployed.solvent h0⟩, .init h0⟩
    | step _ hp hs ih =>
      have hr := ih.2.step trivial hs
      exact ⟨⟨books_of_reachable hr, solvent_step ih.1.1 ih.1.2 hs⟩, hr⟩
  exact hinv.1

/-! ## Failed transfers -/

section Errors

variable {src : Address} {amount held : Int}

theorem transfer_eq_error {payer dst : Address} {n : Int}
    (h : transfer H w payer dst n = .error (.transfer src amount held)) :
    src = payer ∧ amount = n ∧ held = H.token.balance w.token payer := by
  unfold transfer at h
  split at h
  · cases h
  · cases h
    exact ⟨rfl, rfl, rfl⟩

theorem requireAuth_ne_transfer {a : Address} :
    requireAuth H env a ≠ .error (.transfer src amount held) := by
  simp [requireAuth]

theorem freshTipHeight_ne_transfer {config : Config} :
    freshTipHeight H w config ≠ .error (.transfer src amount held) := by
  simp [freshTipHeight, bind_eq_error]

theorem getBtcPriceStroops_ne_transfer {now : Nat} {oracle : Address} :
    getBtcPriceStroops env now oracle ≠ .error (.transfer src amount held) := by
  simp [getBtcPriceStroops, bind_eq_error]

theorem depositedSatoshis_ne_transfer {rawTx p2wshSpk : Bytes} :
    depositedSatoshis rawTx p2wshSpk ≠ .error (.transfer src amount held) := by
  unfold depositedSatoshis
  split <;> simp

end Errors

/-- A withdrawal never asks for more than the contract holds. -/
theorem withdrawSupply_covered {supplier : Address} {n amount held : Int} (h : Books .exact w)
    (hs : Solvent (sheet H w))
    (he : withdrawSupply .exact H env w supplier n = .error (.transfer H.self amount held)) :
    amount ≤ held := by
  simp only [withdrawSupply, bind_eq_error, failIf_eq_error, okOr_eq_error, failIf_eq_ok,
    okOr_eq_ok, reduceCtorEq, and_false, false_or, or_false, exists_false,
    requireAuth_ne_transfer] at he
  obtain ⟨_, -, config, -, _, -, _, -, _, havailable, he⟩ := he
  obtain ⟨-, rfl, rfl⟩ := transfer_eq_error he
  exact le_cash_of_available h.projected_sound (sheet_accrued_solvent h hs) (not_lt.mp havailable)

/-- Nor does a loan. -/
theorem borrow_covered {borrower : Address} {txid : BytesN 32} {n amount held : Int}
    (h : Books .exact w) (hs : Solvent (sheet H w))
    (he : borrow .exact H env w borrower txid n = .error (.transfer H.self amount held)) :
    amount ≤ held := by
  simp only [borrow, bind_eq_error, failIf_eq_error, okOr_eq_error, failIf_eq_ok, okOr_eq_ok,
    reduceCtorEq, and_false, false_or, or_false, exists_false, requireAuth_ne_transfer,
    freshTipHeight_ne_transfer, getBtcPriceStroops_ne_transfer] at he
  obtain ⟨_, -, config, -, _, -, pos, -, _, -, _, -, tip, -, _, -, _, havailable, _, -, price, -,
    collateral, -, _, -, he⟩ := he
  obtain ⟨-, rfl, rfl⟩ := transfer_eq_error he
  exact le_cash_of_available h.projected_sound (sheet_accrued_solvent h hs) (not_lt.mp havailable)

/-- Nor does a liquidation bonus, the debt having been paid in first. -/
theorem liquidate_covered {keeper : Address} {txid : BytesN 32} {amount held : Int}
    (h : Books .exact w)
    (he : liquidate .exact H env w keeper txid = .error (.transfer H.self amount held)) :
    amount ≤ held := by
  simp only [liquidate, bind_eq_error, failIf_eq_error, okOr_eq_error, failIf_eq_ok, okOr_eq_ok,
    reduceCtorEq, and_false, false_or, or_false, exists_false, requireAuth_ne_transfer,
    freshTipHeight_ne_transfer, getBtcPriceStroops_ne_transfer, transfer_eq_ok] at he
  obtain ⟨_, hauth, config, hc, _, -, pos, -, _, -, tip, -, _, -, price, -, collateral, -, _, -,
    he⟩ := he
  have hself := requireAuth_ne hauth
  rcases he with he | ⟨w₁, ⟨t, ht, rfl⟩, he⟩
  · exact absurd (transfer_eq_error he).1.symm hself
  · unfold payBonus at he
    split_ifs at he with hbonus
    obtain ⟨-, rfl, rfl⟩ := transfer_eq_error he
    have hd := H.token.transfer_nonneg ht
    have hle := (bonusFor_le (p := projected .exact w) hd (h.bonus hc)).1
    have hnn := H.token.balance_nonneg w.token H.self
    change _ ≤ H.token.balance t H.self
    rw [transfer_in hself ht]
    exact hle.trans (by omega)

/-- Whenever a transfer out of the contract makes a call fail, the contract held the amount. -/
theorem exec_covered {c : Call} {amount held : Int} (h : Books .exact w) (hs : Solvent (sheet H w))
    (he : exec .exact H env w c = .error (.transfer H.self amount held)) : amount ≤ held := by
  cases c with
  | withdrawSupply => exact withdrawSupply_covered h hs he
  | borrow => exact borrow_covered h hs he
  | liquidate => exact liquidate_covered h he
  | supplyUsdc supplier n =>
    simp only [exec, supplyUsdc, bind_eq_error, failIf_eq_error, okOr_eq_error, reduceCtorEq,
      and_false, false_or, or_false, exists_false, requireAuth_ne_transfer] at he
    obtain ⟨_, hauth, config, -, _, -, _, -, he⟩ := he
    exact absurd (transfer_eq_error he).1.symm (requireAuth_ne hauth)
  | repay repayer txid n =>
    simp only [exec, repay, bind_eq_error, failIf_eq_error, okOr_eq_error, reduceCtorEq,
      and_false, false_or, or_false, exists_false, requireAuth_ne_transfer] at he
    obtain ⟨_, hauth, config, -, pos, -, _, -, _, -, he⟩ := he
    exact absurd (transfer_eq_error he).1.symm (requireAuth_ne hauth)
  | deposit =>
    exfalso
    rw [exec, map_eq_error] at he
    simp [deposit, bind_eq_error, requireAuth_ne_transfer, depositedSatoshis_ne_transfer] at he
  | keeperHeartbeat =>
    exfalso
    simp [exec, keeperHeartbeat, bind_eq_error, requireAuth_ne_transfer] at he
  | publishReleasePsbt =>
    exfalso
    simp [exec, publishReleasePsbt, bind_eq_error, requireAuth_ne_transfer] at he
  | _ =>
    exfalso
    simp [exec, setMaxTotalBorrowed, setKeeper, setKeeperStaleWindow, setBorrowTimelockMargin,
      setMaxTipAge, setRelayer, setOracle, setEntryTtl, setSpvContract, setPaused, adminUpdate,
      bind_eq_error, requireAuth_ne_transfer] at he

/-! ## Pool solvency -/

/-- In exact arithmetic, cash and loans cover the lenders' claim and the reserve in every reachable
state, so no transfer out of the pool fails for lack of cash. -/
theorem pool_solvency (h : Runs.Reachable (system .exact H) w) :
    totalSupplyAssets .exact (getProtocol w) (getProtocol w).supplyIndex
        + (getProtocol w).reserveUsdc ≤ cashOf H w + (getProtocol w).totalBorrowed ∧
      0 ≤ (getProtocol w).reserveUsdc ∧
      ∀ env c amount held,
        exec .exact H env w c = .error (.transfer H.self amount held) → amount ≤ held := by
  obtain ⟨hb, hs⟩ := books_solvent_of_reachable h
  refine ⟨?_, hb.sound.reserve_nonneg, fun env c amount held he => exec_covered hb hs he⟩
  have hassets : totalSupplyAssets .exact (getProtocol w) (getProtocol w).supplyIndex * INDEX_ONE
      ≤ (getProtocol w).totalScaledSupply * (getProtocol w).supplyIndex :=
    tdiv_mul_le (Int.mul_nonneg hb.sound.scaled_nonneg hb.sound.supplyIndex_pos.le)
  have hcov := hs.covered
  simp only [sheet, sheetOf, ← add_mul] at hcov
  refine Int.le_of_mul_le_mul_right ?_ INDEX_ONE_pos
  rw [add_mul]
  omega

end

/-- A pool with one supply of ten stroops. -/
theorem pool_solvency_supplied :
    ∃ w, cashOf (Demo.host [] 0) w = 10 ∧
      totalSupplyAssets .exact (getProtocol w) (getProtocol w).supplyIndex
        + (getProtocol w).reserveUsdc ≤ cashOf (Demo.host [] 0) w + (getProtocol w).totalBorrowed := by
  obtain ⟨w, hr, hw⟩ := reachable_of_replay (A := .exact) (H := Demo.host [] 0) Demo.world_deployed
    [.invoke (Demo.env Demo.START) (.supplyUsdc Demo.lender 10)]
    (f := fun w => cashOf (Demo.host [] 0) w) (a := 10) (by decide +kernel)
  exact ⟨w, hw, (pool_solvency hr).1⟩

end Writz.Lend

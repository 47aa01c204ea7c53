import Writz.Lend.Proofs.Checks
import Writz.Lend.Proofs.Lifecycle

/-!
# Proofs: from a healthy borrow to a liquidation

A borrow leaves the collateral worth at least 150% of the debt, and a liquidation needs it below 120%.
In between, whatever else happens, the debt measured in units of the borrow index does not grow, so
the index must have.
-/

namespace Writz.Lend

variable {τ ρ : Type}

/-- The position owes at most `debt` at the index `index`, however far the index has moved on. -/
structure OwesAtMost (satoshis : Nat) (debt index : Int) (pos : Position) : Prop where
  satoshis_eq : pos.btcSatoshis = satoshis
  debt_nonneg : 0 ≤ pos.usdcDebt
  index_pos : 0 < pos.debtIndex
  units_le : pos.usdcDebt * index ≤ debt * pos.debtIndex

/-- A step that is no successful borrow on `txid`. -/
def NoBorrowOn (A : Arith) (H : Host τ ρ) (txid : BytesN 32) (w : World τ ρ) : Label τ ρ → Prop
  | .invoke env (.borrow borrower t amount) =>
    t = txid → (exec A H env w (.borrow borrower t amount)).isOk = false
  | _ => True

/-! ## The health arithmetic -/

theorem collateralValueStroops_mem {satoshis : Nat} {price value : Int} (hp : 0 ≤ price)
    (h : collateralValueStroops satoshis price = some value) :
    value = ((satoshis : Int) * price).tdiv 100000000 ∧ 0 ≤ value ∧ value * 10000 ≤ I128_MAX := by
  unfold collateralValueStroops checkedI128 at h
  simp only [Option.bind_eq_bind, Option.bind_eq_some_iff, Option.ite_none_right_eq_some,
    Option.some.injEq] at h
  obtain ⟨v, ⟨⟨-, hmax⟩, rfl⟩, -, rfl⟩ := h
  have hnn : 0 ≤ (satoshis : Int) * price := Int.mul_nonneg (Int.natCast_nonneg _) hp
  have hvalue := Int.tdiv_nonneg hnn (by decide : (0 : Int) ≤ 100000000)
  have hle := Int.mul_tdiv_self_le (k := 100000000) hnn
  refine ⟨rfl, hvalue, ?_⟩
  simp only [I128_MAX] at hmax ⊢
  omega

/-- A higher price does not lower the value. -/
theorem collateralValueStroops_mono {satoshis : Nat} {price price' value value' : Int}
    (hp : 0 ≤ price) (hle : price ≤ price')
    (h : collateralValueStroops satoshis price = some value)
    (h' : collateralValueStroops satoshis price' = some value') : value ≤ value' := by
  rw [(collateralValueStroops_mem hp h).1, (collateralValueStroops_mem (hp.trans hle) h').1]
  exact Int.tdiv_le_tdiv (by decide)
    (Int.mul_le_mul_of_nonneg_left hle (Int.natCast_nonneg _))

theorem getBtcPriceStroops_pos {env : Env} {now : Nat} {oracle : Address} {price : Int}
    (h : getBtcPriceStroops env now oracle = .ok price) : 0 < price := by
  simp only [getBtcPriceStroops, bind_eq_ok, failIf_eq_ok] at h
  obtain ⟨r, -, data, -, _, -, decimals, -, p, -, _, hpos, h⟩ := h
  cases h
  exact not_le.mp hpos

/-- A health of at least `ratio` covers the debt by that ratio. -/
theorem debt_le_of_healthy {A : Arith} {collateral debt ratio : Int} (hc : 0 ≤ collateral)
    (hd : 0 < debt) (h : ratio ≤ healthRatioBp A collateral debt) :
    ratio * debt ≤ collateral * 10000 := by
  rw [healthRatioBp, if_neg hd.ne'] at h
  calc ratio * debt ≤ (A.mul collateral 10000).tdiv debt * debt :=
        Int.mul_le_mul_of_nonneg_right h hd.le
    _ ≤ A.mul collateral 10000 := tdiv_mul_le (A.mul_nonneg hc (by decide))
    _ ≤ collateral * 10000 := A.mul_le hc (by decide)

/-- A health below `threshold` is of a debt that the collateral does not cover by it. -/
theorem lt_debt_of_unhealthy {collateral debt threshold : Int} (hc : 0 ≤ collateral)
    (hmax : collateral * 10000 ≤ I128_MAX) (hd : 0 ≤ debt) (ht : threshold ≤ I128_MAX)
    (h : healthRatioBp .i128 collateral debt < threshold) :
    collateral * 10000 < threshold * debt := by
  rcases hd.eq_or_lt with rfl | hpos
  · rw [healthRatioBp, if_pos rfl] at h
    exact absurd h (not_lt.mpr ht)
  · rw [healthRatioBp, if_neg hpos.ne'] at h
    have hexact : Arith.i128.mul collateral 10000 = collateral * 10000 :=
      clamp_i128_eq (Int.mul_nonneg hc (by decide)) hmax
    rw [hexact] at h
    calc collateral * 10000 < ((collateral * 10000).tdiv debt + 1) * debt :=
          Int.lt_tdiv_add_one_mul_self _ hpos
      _ ≤ threshold * debt := Int.mul_le_mul_of_nonneg_right (by omega) hpos.le

/-! ## The debt along a run -/

section

variable {A : Arith} {H : Host τ ρ} {env : Env} {w w' : World τ ρ} {txid : BytesN 32}
  {satoshis : Nat} {debt index : Int}

/-- A debt brought up to date is still at most the debt the index has grown to. -/
theorem OwesAtMost.accrued {pos : Position} (h : OwesAtMost satoshis debt index pos)
    (hi : 0 ≤ index) {current : Int} (hcur : 0 < current) (hdebt : 0 ≤ debt) :
    0 ≤ accruedDebt A pos current ∧ accruedDebt A pos current * index ≤ debt * current := by
  refine ⟨accruedDebt_nonneg h.debt_nonneg hcur.le, ?_⟩
  unfold accruedDebt
  split_ifs with hc
  · have hgrown : (A.mul pos.usdcDebt current).tdiv pos.debtIndex * pos.debtIndex
        ≤ pos.usdcDebt * current :=
      (tdiv_mul_le (A.mul_nonneg hc.1.le hcur.le)).trans (A.mul_le hc.1.le hcur.le)
    have hscaled : (A.mul pos.usdcDebt current).tdiv pos.debtIndex * index * pos.debtIndex
        ≤ debt * current * pos.debtIndex :=
      calc (A.mul pos.usdcDebt current).tdiv pos.debtIndex * index * pos.debtIndex
          = (A.mul pos.usdcDebt current).tdiv pos.debtIndex * pos.debtIndex * index := by ring
        _ ≤ pos.usdcDebt * current * index := Int.mul_le_mul_of_nonneg_right hgrown hi
        _ = pos.usdcDebt * index * current := by ring
        _ ≤ debt * pos.debtIndex * current :=
            Int.mul_le_mul_of_nonneg_right h.units_le hcur.le
        _ = debt * current * pos.debtIndex := by ring
    exact Int.le_of_mul_le_mul_right hscaled hc.2
  · have hzero : pos.usdcDebt = 0 := by
      have := h.debt_nonneg
      have := h.index_pos
      omega
    rw [hzero, zero_mul]
    exact Int.mul_nonneg hdebt hcur.le

/-- A position is stored that owes at most that. -/
def Owed (txid : BytesN 32) (satoshis : Nat) (debt index : Int) (w : World τ ρ) : Prop :=
  ∃ pos, w.positions.lookup txid = some pos ∧ OwesAtMost satoshis debt index pos

theorem owed_insert_of_ne {t : BytesN 32} {p : Position} (h : Owed txid satoshis debt index w)
    (hne : t ≠ txid) (hw : w'.positions = w.positions.insert t p) :
    Owed txid satoshis debt index w' := by
  obtain ⟨pos, hpos, ho⟩ := h
  refine ⟨pos, ?_, ho⟩
  rw [hw, Store.lookup_insert_eq_ite, if_neg hne.symm]
  exact hpos

theorem owed_insert {p : Position} (hw : w'.positions = w.positions.insert txid p)
    (ho : OwesAtMost satoshis debt index p) : Owed txid satoshis debt index w' := by
  refine ⟨p, ?_, ho⟩
  rw [hw, Store.lookup_insert_eq_ite, if_pos rfl]

/-- No call but a borrow on it lets the position owe more. -/
theorem Effect.owed {c : Call} (e : Effect A H w c w') (hi : (getProtocol w).Indices A)
    (h : Owed txid satoshis debt index w) (hindex : 0 ≤ index) (hdebt : 0 ≤ debt)
    (hn : ∀ borrower amount, c ≠ .borrow borrower txid amount) :
    Owed txid satoshis debt index w' := by
  have hcur : 0 < (projected A w).borrowIndex :=
    INDEX_ONE_pos.trans_le (accrueGlobal_indices hi w.ledger.sequence).2.2.borrow_one_le
  cases e with
  | @deposit depositor blockHash merkleProof txIndex rawTx p2wshSpk timelockHeight userPubkey keySig
      t config spv new ev hc hnew =>
    refine owed_insert_of_ne h ?_ rfl
    rintro rfl
    obtain ⟨pos, hpos, -⟩ := h
    rw [hnew] at hpos
    cases hpos
  | @borrow borrower t amount =>
    exact owed_insert_of_ne h (by rintro rfl; exact hn borrower amount rfl) rfl
  | @repay repayer t amount p token ev hself hpos hactive hle ht =>
    by_cases hne : t = txid
    · subst hne
      obtain ⟨pos, hpos', ho⟩ := h
      obtain rfl : p = pos := Option.some.inj (hpos.symm.trans hpos')
      obtain ⟨hnn, hunits⟩ := ho.accrued (A := A) hindex hcur hdebt
      have hamount := H.token.transfer_nonneg ht
      have hsub : A.sub (accruedDebt A p (projected A w).borrowIndex) amount
          ≤ accruedDebt A p (projected A w).borrowIndex :=
        (A.clamp_le _ (by omega)).trans (by omega)
      exact owed_insert rfl ⟨ho.satoshis_eq, A.sub_nonneg hle, hcur,
        (Int.mul_le_mul_of_nonneg_right hsub hindex).trans hunits⟩
    · exact owed_insert_of_ne h hne rfl
  | @liquidate keeper t config p token token' now ev hself hc hpos =>
    by_cases hne : t = txid
    · subst hne
      obtain ⟨pos, hpos', ho⟩ := h
      obtain rfl : p = pos := Option.some.inj (hpos.symm.trans hpos')
      refine owed_insert rfl ⟨ho.satoshis_eq, le_rfl, hcur, ?_⟩
      rw [zero_mul]
      exact Int.mul_nonneg hdebt hcur.le
    · exact owed_insert_of_ne h hne rfl
  | supply | withdraw | heartbeat | configure | psbt => exact h

theorem owed_step {l : Label τ ρ} (hi : (getProtocol w).Indices A)
    (h : Owed txid satoshis debt index w) (hindex : 0 ≤ index) (hdebt : 0 ≤ debt)
    (hn : NoBorrowOn A H txid w l) (hs : step A H w l = some w') :
    Owed txid satoshis debt index w' := by
  have hsame : w'.toStorage = w.toStorage → Owed txid satoshis debt index w' := by
    intro hst
    unfold Owed
    rw [hst]
    exact h
  cases l with
  | invoke env c =>
    cases hs
    cases he : exec A H env w c with
    | error e => exact hsame (by rw [invoke, he])
    | ok w₁ =>
      rw [invoke, he]
      refine (exec_effect he).owed hi h hindex hdebt ?_
      rintro borrower amount rfl
      have hfail := hn rfl
      rw [he] at hfail
      cases hfail
  | advance l => exact hsame (step_outside hs (by simp))
  | outside t r => exact hsame (step_outside hs (by simp))

theorem owed_of_after {w₁ w₂ : World τ ρ} (hi : (getProtocol w₁).Indices A)
    (h : Owed txid satoshis debt index w₁) (hindex : 0 ≤ index) (hdebt : 0 ≤ debt)
    (hrun : Runs.Via ((system A H).after w₁) (NoBorrowOn A H txid) w₂) :
    (getProtocol w₂).Indices A ∧ Owed txid satoshis debt index w₂ := by
  refine hrun.invariant
    (I := fun w => (getProtocol w).Indices A ∧ Owed txid satoshis debt index w) ?_ ?_
  · rintro _ rfl
    exact ⟨hi, h⟩
  · rintro w l w' ⟨hi, h⟩ hn hs
    exact ⟨(indices_step hi hs).2.2, owed_step hi h hindex hdebt hn hs⟩

/-! ## The borrow and the liquidation -/

/-- What a borrow leaves: the position as it was, with the new debt at the accrued index. -/
theorem borrow_post {borrower : Address} {amount : Int} {config : Config} {pos : Position}
    {price collateral : Int}
    (he : exec A H env w (.borrow borrower txid amount) = .ok w')
    (hk : BorrowChecks A H env w borrower txid amount config pos price collateral) :
    w'.positions.lookup txid = some
        { accruePositionInterest A w.ledger.sequence pos (projected A w) with
          usdcDebt := A.add (accruedDebt A pos (projected A w).borrowIndex) amount } ∧
      (getProtocol w').totalBorrowed = A.add (projected A w).totalBorrowed amount ∧
      (getProtocol w').borrowIndex = (projected A w).borrowIndex := by
  cases exec_effect he with
  | borrow hself hpos =>
    have heq := Option.some.inj (hpos.symm.trans hk.found)
    rw [heq]
    exact ⟨Finmap.lookup_insert _, rfl, rfl⟩
  | configure hcall => cases hcall

/-- A liquidation leaves the accrued index. -/
theorem liquidate_post {keeper : Address} (he : exec A H env w (.liquidate keeper txid) = .ok w') :
    (getProtocol w').borrowIndex = (projected A w).borrowIndex := by
  cases exec_effect he with
  | liquidate => rfl
  | configure hcall => cases hcall

end

/-- The arithmetic of the two thresholds: 150% of `debt` is covered at the index `i`, 120% of `owed`
is not at the index `j`, and `owed` is at most what `debt` has grown to. -/
theorem index_grows {debt owed c c' i j : Int} (hd : 0 < debt) (hi : 0 < i)
    (hcovered : 15000 * debt ≤ c * 10000) (hc : c ≤ c') (huncovered : c' * 10000 < 12000 * owed)
    (howed : owed * i ≤ debt * j) : 5 * i < 4 * j := by
  have hratio : 5 * debt < 4 * owed := by omega
  have hscaled : debt * (5 * i) < debt * (4 * j) :=
    calc debt * (5 * i) = 5 * debt * i := by ring
      _ < 4 * owed * i := Int.mul_lt_mul_of_pos_right hratio hi
      _ = 4 * (owed * i) := by ring
      _ ≤ 4 * (debt * j) := by omega
      _ = debt * (4 * j) := by ring
  exact lt_of_mul_lt_mul_left hscaled hd.le

/-- A successful borrow that leaves a debt leaves it covered, and within the cap; and a liquidation
after it, at no lower a price and without another borrow in between, needs the borrow index to have
grown by more than a quarter. -/
theorem healthy_borrower_is_safe {H : Host τ ρ} {env : Env} {w w₁ : World τ ρ} {borrower : Address}
    {txid : BytesN 32} {amount price : Int} {config : Config} {pos₁ : Position}
    (hr : Runs.Reachable (system .i128 H) w)
    (hb : exec .i128 H env w (.borrow borrower txid amount) = .ok w₁)
    (hc : w.config = some config)
    (hprice : getBtcPriceStroops env w.ledger.timestamp config.oracle = .ok price)
    (hpos₁ : w₁.positions.lookup txid = some pos₁) (hdebt : pos₁.usdcDebt ≠ 0) :
    (∃ value, collateralValueStroops pos₁.btcSatoshis price = some value ∧
      15000 * pos₁.usdcDebt ≤ value * 10000) ∧
    (getProtocol w₁).totalBorrowed ≤ config.maxTotalBorrowed ∧
    ∀ w₂ w₃ env' keeper config' price',
      Runs.Via ((system .i128 H).after w₁) (NoBorrowOn .i128 H txid) w₂ →
      exec .i128 H env' w₂ (.liquidate keeper txid) = .ok w₃ →
      w₂.config = some config' →
      getBtcPriceStroops env' w₂.ledger.timestamp config'.oracle = .ok price' → price ≤ price' →
        5 * (getProtocol w₁).borrowIndex < 4 * (getProtocol w₃).borrowIndex := by
  have hreach₁ : Runs.Reachable (system .i128 H) w₁ :=
    hr.step (a := .invoke env (.borrow borrower txid amount)) trivial
      (congrArg some (by rw [invoke, hb]))
  have hi₁ := indices_of_reachable (A := .i128) (by decide) hreach₁
  have hs₁ := sound_of_reachable (A := .i128) (by decide) hreach₁ txid pos₁ hpos₁
  obtain ⟨config₀, pos, price₀, value, hk⟩ := borrow_checks hb
  obtain rfl : config = config₀ := Option.some.inj (hc.symm.trans hk.configured)
  obtain rfl : price = price₀ := Except.ok.inj (hprice.symm.trans hk.priced)
  obtain ⟨hstored, htotal, hindex⟩ := borrow_post hb hk
  obtain rfl := Option.some.inj (hpos₁.symm.trans hstored)
  have hpricepos := getBtcPriceStroops_pos hprice
  have hvalue := collateralValueStroops_mem hpricepos.le hk.valued
  have hpositive : 0 < Arith.i128.add (accruedDebt .i128 pos (projected .i128 w).borrowIndex) amount :=
    lt_of_le_of_ne hs₁.debt_nonneg (Ne.symm hdebt)
  have hcovered : 15000
      * Arith.i128.add (accruedDebt .i128 pos (projected .i128 w).borrowIndex) amount
        ≤ value * 10000 := by
    have hhealthy := hk.healthy
    rw [(thresholds_of_reachable hr config hc).1] at hhealthy
    exact debt_le_of_healthy hvalue.2.1 hpositive hhealthy
  refine ⟨⟨value, hk.valued, hcovered⟩, by rw [htotal]; exact hk.capped, ?_⟩
  intro w₂ w₃ env' keeper config' price' hrun hl hc' hprice' hle
  have howed : Owed txid pos.btcSatoshis
      (Arith.i128.add (accruedDebt .i128 pos (projected .i128 w).borrowIndex) amount)
      (getProtocol w₁).borrowIndex w₁ := by
    refine ⟨_, hpos₁, rfl, hs₁.debt_nonneg, INDEX_ONE_pos.trans_le hs₁.one_le, ?_⟩
    rw [hindex]
    exact le_rfl
  obtain ⟨hi₂, pos₂, hpos₂, ho⟩ := owed_of_after hi₁ howed
    (INDEX_ONE_pos.le.trans hi₁.borrow_one_le) hpositive.le hrun
  have hreach₂ : Runs.Reachable (system .i128 H) w₂ := hreach₁.append hrun.reachable
  obtain ⟨config₂, pos', price₂, value', hk'⟩ := liquidate_checks hl
  obtain rfl : config' = config₂ := Option.some.inj (hc'.symm.trans hk'.configured)
  obtain rfl : price' = price₂ := Except.ok.inj (hprice'.symm.trans hk'.priced)
  obtain rfl : pos₂ = pos' := Option.some.inj (hpos₂.symm.trans hk'.found)
  have hvalued' := hk'.valued
  rw [ho.satoshis_eq] at hvalued'
  have hvalue' := collateralValueStroops_mem (hpricepos.le.trans hle) hvalued'
  obtain ⟨hnn, hunits⟩ := ho.accrued (A := .i128) (INDEX_ONE_pos.le.trans hi₁.borrow_one_le)
    (INDEX_ONE_pos.trans_le (accrueGlobal_indices hi₂ w₂.ledger.sequence).2.2.borrow_one_le)
    hpositive.le
  have hunhealthy := hk'.unhealthy
  rw [(thresholds_of_reachable hreach₂ config' hc').2] at hunhealthy
  rw [liquidate_post hl]
  exact index_grows hpositive (INDEX_ONE_pos.trans_le hi₁.borrow_one_le) hcovered
    (collateralValueStroops_mono hpricepos.le hle hk.valued hvalued')
    (lt_debt_of_unhealthy hvalue'.2.1 hvalue'.2.2 hnn (by decide) hunhealthy) hunits

theorem eq_ok_of_toOption {ε α : Type} {x : Except ε α} {a : α} (h : x.toOption = some a) :
    x = .ok a := by
  cases x with
  | error e => cases h
  | ok b => exact congrArg Except.ok (Option.some.inj h)

namespace Demo

/-- The deployment with a Bitcoin tip that stays fresh for a million ledgers. -/
def tippedHost : Host (Store Address Nat) (List (BytesN 32)) :=
  { host [aliceDeposit] 900000 with spv := spv [aliceDeposit.rawTx] 900000 (START + 5000000) }

/-- Everybody authorizes, and a bitcoin is worth 15 stroops. -/
def poorEnv (now : Nat) : Env where
  auth _ := true
  lastprice _ := some (some { price := 15, timestamp := now })
  decimals _ := some 7

end Demo

/-- Alice borrows ten stroops on fifteen, and a million ledgers later Bob liquidates her. -/
theorem healthy_borrower_is_safe_liquidated :
    ∃ w₁ w₃ : Demo.State, ∃ pos₁,
      w₁.positions.lookup (Demo.txidOf Demo.aliceDeposit) = some pos₁ ∧ pos₁.usdcDebt = 10 ∧
      (∃ value, collateralValueStroops pos₁.btcSatoshis 15 = some value ∧
        15000 * pos₁.usdcDebt ≤ value * 10000) ∧
      5 * (getProtocol w₁).borrowIndex < 4 * (getProtocol w₃).borrowIndex := by
  have hrun : ((system .i128 Demo.tippedHost).replay Demo.world
      [.invoke (Demo.poorEnv Demo.START) (Demo.depositCall Demo.aliceDeposit),
        .invoke (Demo.poorEnv Demo.START) (.supplyUsdc Demo.lender 10)]).any (fun w =>
      w.config.any fun config =>
      (exec .i128 Demo.tippedHost (Demo.poorEnv Demo.START) w
          (.borrow Demo.alice (Demo.txidOf Demo.aliceDeposit) 10)).toOption.any fun w₁ =>
        (w₁.positions.lookup (Demo.txidOf Demo.aliceDeposit)).any fun pos₁ =>
        (step .i128 Demo.tippedHost w₁ (.advance (Demo.ledger 1000000))).any fun w₂ =>
          w₂.config.any fun config' =>
          (exec .i128 Demo.tippedHost (Demo.poorEnv (Demo.START + 5000000)) w₂
            (.liquidate Demo.bob (Demo.txidOf Demo.aliceDeposit))).toOption.any fun _ => decide
          (pos₁.usdcDebt = 10
            ∧ getBtcPriceStroops (Demo.poorEnv Demo.START) w.ledger.timestamp config.oracle = .ok 15
            ∧ getBtcPriceStroops (Demo.poorEnv (Demo.START + 5000000)) w₂.ledger.timestamp
              config'.oracle = .ok 15)) = true := by
    decide +kernel
  obtain ⟨w, hw, hrun⟩ := (Option.any_eq_true _ _).mp hrun
  obtain ⟨config, hc, hrun⟩ := (Option.any_eq_true _ _).mp hrun
  obtain ⟨w₁, hw₁, hrun⟩ := (Option.any_eq_true _ _).mp hrun
  obtain ⟨pos₁, hpos₁, hrun⟩ := (Option.any_eq_true _ _).mp hrun
  obtain ⟨w₂, hw₂, hrun⟩ := (Option.any_eq_true _ _).mp hrun
  obtain ⟨config', hc', hrun⟩ := (Option.any_eq_true _ _).mp hrun
  obtain ⟨w₃, hw₃, hrun⟩ := (Option.any_eq_true _ _).mp hrun
  obtain ⟨hdebt, hprice, hprice'⟩ := of_decide_eq_true hrun
  obtain ⟨hvalue, -, hsafe⟩ := healthy_borrower_is_safe
    (Runs.Via.replay (.init Demo.world_deployed) hw) (eq_ok_of_toOption hw₁) hc hprice hpos₁
    (by rw [hdebt]; decide)
  have hafter : Runs.Via ((system .i128 Demo.tippedHost).after w₁)
      (NoBorrowOn .i128 Demo.tippedHost (Demo.txidOf Demo.aliceDeposit)) w₂ :=
    (Runs.Via.init rfl).step (a := .advance (Demo.ledger 1000000)) trivial hw₂
  exact ⟨w₁, w₃, pos₁, hpos₁, hdebt, hvalue,
    hsafe w₂ w₃ _ _ config' 15 hafter (eq_ok_of_toOption hw₃) hc' hprice' le_rfl⟩

/-! ## The health view -/

/-- A health below `threshold` is of a debt that the collateral does not cover by it, and only that. -/
theorem healthRatioBp_lt_iff {collateral debt threshold : Int} (hc : 0 ≤ collateral)
    (hmax : collateral * 10000 ≤ I128_MAX) (hd : 0 ≤ debt) (ht : threshold ≤ I128_MAX) :
    healthRatioBp .i128 collateral debt < threshold ↔ collateral * 10000 < threshold * debt := by
  refine ⟨lt_debt_of_unhealthy hc hmax hd ht, fun h => ?_⟩
  by_contra hle
  rcases hd.eq_or_lt with rfl | hpos
  · omega
  · have hcovered := debt_le_of_healthy hc hpos (not_lt.mp hle)
    omega

section View

variable {H : Host τ ρ} {env : Env} {w w' : World τ ρ} {txid : BytesN 32} {config : Config} {pos : Position}

theorem checkUndercollateralized_eq_ok {A : Arith} {u : Unit} :
    checkUndercollateralized A env w config pos = .ok u ↔ ∃ price collateral,
      getBtcPriceStroops env w.ledger.timestamp config.oracle = .ok price ∧
      collateralValueStroops pos.btcSatoshis price = some collateral ∧
      healthRatioBp A collateral (accruedDebt A pos (projected A w).borrowIndex)
        < config.liquidationThresholdBp := by
  simp only [checkUndercollateralized, bind_eq_ok, okOr_eq_ok, failIf_eq_ok, not_le]
  constructor
  · rintro ⟨price, hprice, collateral, hvalue, hhealth⟩
    exact ⟨price, collateral, hprice, hvalue, hhealth⟩
  · rintro ⟨price, collateral, hprice, hvalue, hhealth⟩
    exact ⟨price, hprice, collateral, hvalue, hhealth⟩

/-- `liquidate` makes this check. -/
theorem checkUndercollateralized_of_liquidate {A : Arith} {keeper : Address} (hc : w.config = some config)
    (hpos : w.positions.lookup txid = some pos) (h : liquidate A H env w keeper txid = .ok w') :
    checkUndercollateralized A env w config pos = .ok () := by
  obtain ⟨config', pos', price, collateral, hk⟩ := liquidate_checks h
  obtain rfl := Option.some.inj (hc.symm.trans hk.configured)
  obtain rfl := Option.some.inj (hpos.symm.trans hk.found)
  exact checkUndercollateralized_eq_ok.mpr ⟨price, collateral, hk.priced, hk.valued, hk.unhealthy⟩

theorem getHealthRatioBp_eq {A : Arith} (hc : w.config = some config)
    (hpos : w.positions.lookup txid = some pos) :
    getHealthRatioBp A env w txid = if pos.usdcDebt = 0 then .ok I128_MAX else (do
      let price ← getBtcPriceStroops env w.ledger.timestamp config.oracle
      let collateral ← okOr (collateralValueStroops pos.btcSatoshis price) (.err .Overflow)
      .ok (healthRatioBp A collateral pos.usdcDebt)) := by
  rw [getHealthRatioBp, hc, hpos]
  rfl

theorem getHealthRatioBp_lt_iff {A : Arith} {threshold : Int} (hc : w.config = some config)
    (hpos : w.positions.lookup txid = some pos) (ht : threshold ≤ I128_MAX) :
    (∃ h, getHealthRatioBp A env w txid = .ok h ∧ h < threshold) ↔ ∃ price collateral,
      getBtcPriceStroops env w.ledger.timestamp config.oracle = .ok price ∧
      collateralValueStroops pos.btcSatoshis price = some collateral ∧
      healthRatioBp A collateral pos.usdcDebt < threshold := by
  rw [getHealthRatioBp_eq hc hpos]
  split_ifs with hdebt
  · constructor
    · rintro ⟨h, hview, hlt⟩
      cases hview
      omega
    · rintro ⟨price, collateral, -, -, hlt⟩
      rw [healthRatioBp, if_pos hdebt] at hlt
      omega
  · simp only [bind_eq_ok, okOr_eq_ok]
    constructor
    · rintro ⟨h, ⟨price, hprice, collateral, hvalue, hview⟩, hlt⟩
      cases hview
      exact ⟨price, collateral, hprice, hvalue, hlt⟩
    · rintro ⟨price, collateral, hprice, hvalue, hlt⟩
      exact ⟨_, ⟨price, hprice, collateral, hvalue, rfl⟩, hlt⟩

end View

namespace Demo

/-- Alice has borrowed ten stroops on fifteen. -/
def borrowSteps : List (Label (Store Address Nat) (List (BytesN 32))) :=
  [.invoke (poorEnv START) (depositCall aliceDeposit), .invoke (poorEnv START) (.supplyUsdc lender 10),
    .invoke (poorEnv START) (.borrow alice (txidOf aliceDeposit) 10)]

end Demo

end Writz.Lend

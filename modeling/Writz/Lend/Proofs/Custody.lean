import Writz.Lend.Proofs.Checks
import Writz.Lend.Proofs.Lifecycle

/-!
# Proofs: who can end a debt-free position

Calls that the depositor does not authorize leave a position without debt exactly as it is, but for
one: a repayment of nothing, which anybody can make, closes it.
-/

namespace Writz.Lend

variable {τ ρ : Type}

/-- A step that `a` has not authorized and that is no repayment of nothing on `txid`. -/
def Spared (a : Address) (txid : BytesN 32) (_ : World τ ρ) : Label τ ρ → Prop
  | .invoke env c => env.auth a = false ∧ ∀ repayer, c ≠ .repay repayer txid 0
  | _ => True

section

variable {A : Arith} {H : Host τ ρ} {env : Env} {w w' : World τ ρ} {txid : BytesN 32} {pos : Position}

theorem accruedDebt_of_zero (h : pos.usdcDebt = 0) (index : Int) : accruedDebt A pos index = 0 := by
  unfold accruedDebt
  rw [if_neg (by omega), h]

/-- A liquidation of a position without debt fails. -/
theorem not_liquidate_of_no_debt {keeper : Address} (ht : Thresholds w)
    (hpos : w.positions.lookup txid = some pos) (hzero : pos.usdcDebt = 0) :
    liquidate A H env w keeper txid ≠ .ok w' := by
  intro h
  obtain ⟨config, pos', price, collateral, hk⟩ := liquidate_checks h
  obtain rfl : pos = pos' := Option.some.inj (hpos.symm.trans hk.found)
  have hhealth := hk.unhealthy
  rw [accruedDebt_of_zero hzero, healthRatioBp, if_pos rfl, (ht config hk.configured).2] at hhealth
  exact absurd hhealth (by decide)

/-- A spared call leaves a position without debt as it is. -/
theorem exec_spares {c : Call} (ht : Thresholds w) (hpos : w.positions.lookup txid = some pos)
    (hzero : pos.usdcDebt = 0) (hauth : env.auth pos.depositor = false)
    (hn : ∀ repayer, c ≠ .repay repayer txid 0) (he : exec A H env w c = .ok w') :
    w'.positions.lookup txid = some pos := by
  have hother : ∀ (t : BytesN 32) (p : Position), t ≠ txid →
      (w.positions.insert t p).lookup txid = some pos := by
    intro t p hne
    rw [Store.lookup_insert_eq_ite, if_neg hne.symm]
    exact hpos
  have he' := exec_effect he
  cases he' with
  | @deposit depositor blockHash merkleProof txIndex rawTx p2wshSpk timelockHeight userPubkey keySig
      t config spv new ev hc hnew =>
    refine hother t new ?_
    rintro rfl
    rw [hnew] at hpos
    cases hpos
  | @borrow borrower t amount p token ev hself hfound =>
    refine hother t _ ?_
    rintro rfl
    obtain ⟨config, p', price, collateral, hk⟩ := borrow_checks he
    obtain rfl : pos = p' := Option.some.inj (hpos.symm.trans hk.found)
    rw [hk.owned, hk.authorized] at hauth
    cases hauth
  | @repay repayer t amount p token ev hself hfound hactive hle htransfer =>
    refine hother t _ ?_
    rintro rfl
    obtain rfl : pos = p := Option.some.inj (hpos.symm.trans hfound)
    have hamount := H.token.transfer_nonneg htransfer
    rw [accruedDebt_of_zero hzero] at hle
    obtain rfl : amount = 0 := le_antisymm hle hamount
    exact hn repayer rfl
  | @liquidate keeper t config p token token' now ev hself hc hfound =>
    refine hother t _ ?_
    rintro rfl
    exact not_liquidate_of_no_debt ht hpos hzero he
  | supply | withdraw | heartbeat | configure | psbt => exact hpos

theorem step_spares {l : Label τ ρ} (ht : Thresholds w) (hpos : w.positions.lookup txid = some pos)
    (hzero : pos.usdcDebt = 0) (hspared : Spared pos.depositor txid w l)
    (hs : step A H w l = some w') : w'.positions.lookup txid = some pos := by
  cases l with
  | invoke env c =>
    cases hs
    cases he : exec A H env w c with
    | error e =>
      rw [invoke, he]
      exact hpos
    | ok w₁ =>
      rw [invoke, he]
      exact exec_spares ht hpos hzero hspared.1 hspared.2 he
  | advance l =>
    rw [step_outside hs (by simp)]
    exact hpos
  | outside t r =>
    rw [step_outside hs (by simp)]
    exact hpos

/-- Whatever others do from a reachable state, an active position without debt stays as it is, as long
as nobody repays nothing on it. -/
theorem debt_free_position_stays (hr : Runs.Reachable (system .i128 H) w)
    (hpos : w.positions.lookup txid = some pos) (hactive : pos.status = .Active)
    (hzero : pos.usdcDebt = 0)
    (hrun : Runs.Via ((system .i128 H).after w) (Spared pos.depositor txid) w') :
    ∃ pos', w'.positions.lookup txid = some pos' ∧ pos'.status = .Active ∧
      pos'.usdcDebt = 0 ∧ pos'.btcSatoshis = pos.btcSatoshis ∧ pos'.depositor = pos.depositor ∧
      pos'.timelockHeight = pos.timelockHeight := by
  have hinv : Thresholds w' ∧ w'.positions.lookup txid = some pos := by
    refine hrun.invariant (I := fun w' => Thresholds w' ∧ w'.positions.lookup txid = some pos) ?_ ?_
    · rintro _ rfl
      exact ⟨thresholds_of_reachable hr, hpos⟩
    · rintro w₁ l w₂ ⟨ht, hpos⟩ hspared hs
      exact ⟨ht.step hs, step_spares ht hpos hzero hspared hs⟩
  exact ⟨pos, hinv.2, hactive, hzero, rfl, rfl, rfl⟩

end

namespace Demo

/-- Bob alone authorizes. -/
def bobsEnv : Env := { env START with auth := fun a => decide (a = bob) }

end Demo

/-- Bob's own supply leaves Alice's fresh position as it is. -/
theorem debt_free_position_stays_supplied :
    ∃ w w' : Demo.State, ∃ pos, w.positions.lookup (Demo.txidOf Demo.aliceDeposit) = some pos ∧
      (getProtocol w').totalScaledSupply = 7 ∧
      ∃ pos', w'.positions.lookup (Demo.txidOf Demo.aliceDeposit) = some pos' ∧
        pos'.status = .Active ∧ pos'.depositor = pos.depositor := by
  have hrun : ((system .i128 (Demo.host [Demo.aliceDeposit] 900000)).replay Demo.world
      [.invoke (Demo.env Demo.START) (Demo.depositCall Demo.aliceDeposit)]).any (fun w =>
        (w.positions.lookup (Demo.txidOf Demo.aliceDeposit)).any fun pos =>
          decide (pos.status = .Active ∧ pos.usdcDebt = 0 ∧ Demo.bobsEnv.auth pos.depositor = false
            ∧ (getProtocol (invoke .i128 (Demo.host [Demo.aliceDeposit] 900000) Demo.bobsEnv w
              (.supplyUsdc Demo.bob 7))).totalScaledSupply = 7)) = true := by
    decide +kernel
  obtain ⟨w, hw, hrun⟩ := (Option.any_eq_true _ _).mp hrun
  obtain ⟨pos, hpos, hrun⟩ := (Option.any_eq_true _ _).mp hrun
  obtain ⟨hactive, hzero, hauth, hsupply⟩ := of_decide_eq_true hrun
  have hreach : Runs.Reachable (system .i128 (Demo.host [Demo.aliceDeposit] 900000)) w :=
    Runs.Via.replay (.init Demo.world_deployed) hw
  have hvia : Runs.Via ((system .i128 (Demo.host [Demo.aliceDeposit] 900000)).after w)
      (Spared pos.depositor (Demo.txidOf Demo.aliceDeposit)) _ :=
    (Runs.Via.init rfl).step (a := .invoke Demo.bobsEnv (.supplyUsdc Demo.bob 7))
      ⟨hauth, fun _ h => nomatch h⟩ rfl
  obtain ⟨pos', hpos', hactive', -, -, hdepositor, -⟩ :=
    debt_free_position_stays hreach hpos hactive hzero hvia
  exact ⟨w, _, pos, hpos, hsupply, pos', hpos', hactive', hdepositor⟩

/-- Bob closes Alice's fresh position by repaying nothing. -/
theorem stranger_closes_position :
    ∃ (w w' : Demo.State) (pos pos' : Position),
      Runs.Reachable (system .i128 (Demo.host [Demo.aliceDeposit] 900000)) w ∧
      w.positions.lookup (Demo.txidOf Demo.aliceDeposit) = some pos ∧
      pos.status = .Active ∧ pos.usdcDebt = 0 ∧ pos.depositor = Demo.alice ∧
      Demo.bobsEnv.auth Demo.alice = false ∧
      step .i128 (Demo.host [Demo.aliceDeposit] 900000) w (.invoke Demo.bobsEnv
        (.repay Demo.bob (Demo.txidOf Demo.aliceDeposit) 0)) = some w' ∧
      w'.positions.lookup (Demo.txidOf Demo.aliceDeposit) = some pos' ∧ pos'.status = .Closed := by
  have hrun : ((system .i128 (Demo.host [Demo.aliceDeposit] 900000)).replay Demo.world
      [.invoke (Demo.env Demo.START) (Demo.depositCall Demo.aliceDeposit)]).any (fun w =>
        (w.positions.lookup (Demo.txidOf Demo.aliceDeposit)).any fun pos =>
          ((invoke .i128 (Demo.host [Demo.aliceDeposit] 900000) Demo.bobsEnv w
            (.repay Demo.bob (Demo.txidOf Demo.aliceDeposit) 0)).positions.lookup
              (Demo.txidOf Demo.aliceDeposit)).any fun pos' =>
          decide (pos.status = .Active ∧ pos.usdcDebt = 0 ∧ pos.depositor = Demo.alice
            ∧ pos'.status = .Closed)) = true := by
    decide +kernel
  obtain ⟨w, hw, hrun⟩ := (Option.any_eq_true _ _).mp hrun
  obtain ⟨pos, hpos, hrun⟩ := (Option.any_eq_true _ _).mp hrun
  obtain ⟨pos', hpos', hrun⟩ := (Option.any_eq_true _ _).mp hrun
  obtain ⟨hactive, hzero, howner, hclosed⟩ := of_decide_eq_true hrun
  exact ⟨w, _, pos, pos', Runs.Via.replay (.init Demo.world_deployed) hw, hpos, hactive, hzero, howner,
    by decide +kernel, rfl, hpos', hclosed⟩

end Writz.Lend

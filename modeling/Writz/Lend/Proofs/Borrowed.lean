import Writz.Lend.Proofs.Books
import Writz.Lend.Deployment

/-!
# Proofs: the sign of `total_borrowed`

`total_borrowed` is grown with one floor per accrual while a position's debt is grown with one floor
over all of them, so a position can owe more than the total says is owed. The total stays
non-negative, and the rates in range, as long as nobody pays back more than the total.
-/

namespace Writz.Lend

variable {τ ρ : Type}

/-- A repayment or liquidation that pays no more than the total borrowed, brought up to date; a
supply whose units fit; any other step. -/
def PaysWithinTotal (A : Arith) (w : World τ ρ) : Label τ ρ → Prop
  | .invoke _ (.repay _ txid amount) =>
    ∀ pos, w.positions.lookup txid = some pos → pos.status = .Active →
      amount ≤ accruedDebt A pos (projected A w).borrowIndex →
        amount ≤ (projected A w).totalBorrowed
  | .invoke _ (.liquidate _ txid) =>
    ∀ pos, w.positions.lookup txid = some pos → pos.status = .Active →
      accruedDebt A pos (projected A w).borrowIndex ≤ (projected A w).totalBorrowed
  | l => MintFits A w l

section

variable {A : Arith} {H : Host τ ρ} {env : Env} {w w' : World τ ρ}

theorem PaysWithinTotal.mintFits {l : Label τ ρ} (h : PaysWithinTotal A w l) : MintFits A w l := by
  cases l with
  | invoke env c => cases c <;> first | exact h | exact trivial
  | _ => trivial

theorem projected_totalBorrowed_nonneg (h : Books A w) (hb : 0 ≤ (getProtocol w).totalBorrowed) :
    0 ≤ (projected A w).totalBorrowed :=
  (projected_accrual A w).totalBorrowed_nonneg h.sound.borrowIndex_pos hb

/-- A call that pays back no more than the total leaves a total. -/
theorem Effect.totalBorrowed_nonneg {c : Call} (e : Effect A H w c w') (h : Books A w)
    (hb : 0 ≤ (getProtocol w).totalBorrowed) (hpay : PaysWithinTotal A w (.invoke env c)) :
    0 ≤ (getProtocol w').totalBorrowed := by
  have hp := projected_totalBorrowed_nonneg h hb
  cases e with
  | supply | withdraw => exact hp
  | borrow hself hpos hactive havailable ht =>
    exact A.add_nonneg hp (H.token.transfer_nonneg ht)
  | repay hself hpos hactive hdebt ht => exact A.sub_nonneg (hpay _ hpos hactive hdebt)
  | liquidate hself hc hpos hactive ht ht' => exact A.sub_nonneg (hpay _ hpos hactive)
  | deposit | heartbeat | configure | psbt => exact hb

theorem totalBorrowed_nonneg_step {l : Label τ ρ} (h : Books A w)
    (hb : 0 ≤ (getProtocol w).totalBorrowed) (hpay : PaysWithinTotal A w l)
    (hs : step A H w l = some w') : 0 ≤ (getProtocol w').totalBorrowed := by
  cases l with
  | invoke env c =>
    cases hs
    rcases invoke_cases A H env w c with he | he
    · rwa [he]
    · exact he.totalBorrowed_nonneg h hb hpay
  | advance l =>
    obtain ⟨now, ledger, he⟩ := getProtocol_of_storage (step_outside hs (by simp))
    rwa [he]
  | outside t r =>
    obtain ⟨now, ledger, he⟩ := getProtocol_of_storage (step_outside hs (by simp))
    rwa [he]

theorem Deployed.totalBorrowed_eq (h : Deployed w) : (getProtocol w).totalBorrowed = 0 := by
  rw [getProtocol_eq h.eq.1]

theorem books_totalBorrowed_of_via (h : Runs.Via (system A H) (PaysWithinTotal A) w) :
    Books A w ∧ 0 ≤ (getProtocol w).totalBorrowed := by
  refine h.invariant (I := fun w => Books A w ∧ 0 ≤ (getProtocol w).totalBorrowed)
    (fun s h0 => ⟨Deployed.books h0, (Deployed.totalBorrowed_eq h0).ge⟩) ?_
  intro s l s' hI hpay hs
  exact ⟨hI.1.step hpay.mintFits hs, totalBorrowed_nonneg_step hI.1 hI.2 hpay hs⟩

/-- The rates the views return are in range while the total is not negative. -/
theorem rates_mem (h : Books A w) (hb : 0 ≤ (getProtocol w).totalBorrowed) :
    (0 ≤ getBorrowRateBp A w ∧ getBorrowRateBp A w ≤ 20800) ∧
      (0 ≤ getSupplyRateBp A w ∧ getSupplyRateBp A w ≤ 20800) := by
  have hp := projected_totalBorrowed_nonneg h hb
  have ha : 0 ≤ totalSupplyAssets A (projected A w) (projected A w).supplyIndex :=
    h.projected_sound.assets_nonneg
  have hr := borrowRateBp_mem (A := A) hp ha
  exact ⟨hr, supplyRateBp_mem hr hp ha⟩

end

namespace Demo

/-- Alice borrows the whole pool, a supply of one stroop accrues in between, and she repays her
debt of 11 when the total still says 10. -/
def overpaidRun : List Step :=
  [.invoke (env START) (depositCall aliceDeposit),
   .invoke (env START) (.supplyUsdc lender 10),
   .invoke (env START) (.borrow alice (txidOf aliceDeposit) 10),
   .advance (ledger 182000),
   .invoke (env START) (.supplyUsdc lender 1),
   .advance (ledger 364000),
   .invoke (env START) (.repay alice (txidOf aliceDeposit) 11)]

end Demo

end Writz.Lend

import Writz.Lend.Proofs.Checks
import Writz.Lend.Proofs.Lenders
import Writz.Lend.Proofs.Repricing

/-!
# Proofs: what lenders keep

What a lender brings in and earns is still there or has been paid out, less than one unit for each of the
lender's own calls. And in `i128`, what the contract shows a lender never falls unless the lender
withdraws, whatever anyone else does.
-/

namespace Writz.Lend

variable {τ ρ : Type}

/-! ## Rounding -/

/-- Minting withholds less than one unit. -/
theorem lt_mintFor_mul {p : ProtocolState} {amount : Int} (hp : 0 < p.supplyIndex) :
    amount * INDEX_ONE < mintFor .exact p amount * p.supplyIndex + p.supplyIndex := by
  have hlt := Int.lt_tdiv_add_one_mul_self (amount * INDEX_ONE) hp
  unfold mintFor
  simp only [Arith.exact_mul]
  linarith

/-- A withdrawal burns less than one unit more than it pays. -/
theorem burnFor_mul_lt {p : ProtocolState} {amount : Int} (hone : INDEX_ONE ≤ p.supplyIndex) (hamount : 0 < amount)
    (bal : Int) :
    burnFor .exact p bal ((Arith.exact.mul bal p.supplyIndex).tdiv INDEX_ONE) amount * p.supplyIndex
      < amount * INDEX_ONE + p.supplyIndex := by
  have hpos : 0 < p.supplyIndex := INDEX_ONE_pos.trans_le hone
  unfold burnFor
  split_ifs with hv
  · -- the whole balance, whose value was rounded down by less than a stroop
    have hlt := Int.lt_tdiv_add_one_mul_self (bal * p.supplyIndex) INDEX_ONE_pos
    simp only [Arith.exact_mul] at hv
    rw [← hv] at hlt
    linarith
  · have hup := tdiv_mul_le (x := amount * INDEX_ONE + (p.supplyIndex - 1)) (k := p.supplyIndex)
      (by have := Int.mul_pos hamount INDEX_ONE_pos; omega)
    have hmin := min_le_left ((Arith.exact.add (Arith.exact.mul amount INDEX_ONE) (p.supplyIndex - 1)).tdiv
      p.supplyIndex) bal
    have hscaled := Int.mul_le_mul_of_nonneg_right hmin hpos.le
    simp only [Arith.exact_add, Arith.exact_mul] at hscaled ⊢
    linarith

/-- The worth of a unit at a lender's own call, of which rounding may take less. -/
def unitFor (lender : Address) (w : World τ ρ) : Call → Int
  | .supplyUsdc supplier _ | .withdrawSupply supplier _ =>
    if supplier = lender then (projected .exact w).supplyIndex else 0
  | _ => 0

section

variable {H : Host τ ρ} {w w' : World τ ρ}

theorem unitFor_of_configures {c : Call} {lender : Address} (h : c.configures = true) : unitFor lender w c = 0 := by
  cases c <;> first | rfl | cases h

/-- A call leaves or pays a lender what the lender brings in, owns and earns, but for a unit. -/
theorem Effect.le_withdrawn {c : Call} (e : Effect .exact H w c w') (h : (getProtocol w).Indices .exact)
    (lender : Address) :
    c.supplied (· == lender) * INDEX_ONE + (worthOf w lender + growthFor lender w c)
      ≤ c.withdrawn (· == lender) * INDEX_ONE + worthOf w' lender + unitFor lender w c := by
  have hgrow := balance_mul_projected w lender
  obtain ⟨-, -, hp⟩ := accrueGlobal_indices h w.ledger.sequence
  have hone : INDEX_ONE ≤ (projected .exact w).supplyIndex := hp.supply_one_le
  have hpos : 0 < (projected .exact w).supplyIndex := INDEX_ONE_pos.trans_le hone
  cases e with
  | @supply supplier amount t ev hself hmint ht =>
    have hvalue : amount * INDEX_ONE
        < mintFor .exact (projected .exact w) amount * (projected .exact w).supplyIndex + (projected .exact w).supplyIndex :=
      lt_mintFor_mul hpos
    unfold worthOf at hgrow ⊢
    conv_rhs => rw [supplyBalanceOf_insert rfl]
    simp only [Call.withdrawn, Call.supplied, growthFor, unitFor, Call.accrues, if_true, getProtocol, Option.getD_some,
      beq_iff_eq, Arith.exact_add] at hgrow ⊢
    by_cases hl : lender = supplier
    · subst hl
      rw [if_pos rfl, if_pos rfl, if_pos rfl]
      linarith
    · rw [if_neg hl, if_neg (Ne.symm hl), if_neg (Ne.symm hl)]
      change _ ≤ _ + supplyBalanceOf w lender * _ + _
      linarith
  | @withdraw supplier amount t ev hself hamount hvalue havailable ht =>
    have hburn := burnFor_mul_lt hone hamount (supplyBalanceOf w supplier)
    unfold worthOf at hgrow ⊢
    conv_rhs => rw [supplyBalanceOf_insert rfl]
    simp only [Call.withdrawn, Call.supplied, growthFor, unitFor, Call.accrues, if_true, getProtocol, Option.getD_some,
      beq_iff_eq] at hgrow ⊢
    by_cases hl : lender = supplier
    · subst hl
      rw [if_pos rfl, if_pos rfl, if_pos rfl]
      unfold valueOf
      linarith
    · rw [if_neg hl, if_neg (Ne.symm hl), if_neg (Ne.symm hl)]
      change _ ≤ _ + supplyBalanceOf w lender * _ + _
      linarith
  | borrow | repay | liquidate =>
    change _ ≤ _ + supplyBalanceOf w lender * (projected .exact w).supplyIndex + _
    simp only [Call.withdrawn, Call.supplied, growthFor, unitFor, Call.accrues, if_true]
    linarith
  | configure hcall =>
    obtain ⟨hw, hs, ha⟩ := Call.quiet_of_configures (p := (· == lender)) hcall
    rw [hw, hs, growthFor, ha, unitFor_of_configures hcall]
    simp only [zero_mul, zero_add, Bool.false_eq_true, if_false, add_zero]
    exact le_rfl
  | deposit | heartbeat | psbt =>
    simp only [Call.withdrawn, Call.supplied, growthFor, unitFor, Call.accrues, zero_mul, zero_add, Bool.false_eq_true,
      if_false, add_zero]
    exact le_rfl

/-- Over a run, what a lender brought in and earned is still there or was paid out, less than a unit for
each of the lender's own calls. -/
theorem no_lender_loses_by_rounding {tr : List (Runs.Transition (World τ ρ) (Label τ ρ))}
    (h : Runs.Run (system .exact H) tr w) (lender : Address) :
    total (onSuccess .exact H fun _ c => c.supplied (· == lender)) tr * 1000000000000000000
        + total (onSuccess .exact H (growthFor lender)) tr
      ≤ total (onSuccess .exact H fun _ c => c.withdrawn (· == lender)) tr * 1000000000000000000
        + supplyBalanceOf w lender * (getProtocol w).supplyIndex
        + total (onSuccess .exact H (unitFor lender)) tr := by
  change _ * INDEX_ONE + _ ≤ _ * INDEX_ONE + worthOf w lender + _
  induction h with
  | @init w h0 =>
    obtain ⟨hp, -, hbal, -⟩ := h0.eq
    unfold worthOf supplyBalanceOf
    rw [getProtocol_eq hp, hbal]
    simp
  | @step tr w w' l hr hs ih =>
    have hi := indices_of_reachable (A := .exact) rfl hr.reachable
    simp only [total_cons]
    rcases step_cases hs with ⟨env, c, rfl, he, hf⟩ | ⟨hst, hf⟩
    · have hstep := he.le_withdrawn hi lender
      simp only [hf]
      linarith
    · obtain ⟨now, ledger, hp⟩ := getProtocol_of_storage hst
      have hworthOf : worthOf w' lender = worthOf w lender := by
        unfold worthOf supplyBalanceOf
        rw [hp, hst]
      simp only [hf, zero_add, hworthOf]
      exact ih

end

/-- Ten stroops supplied, three of them withdrawn. -/
theorem no_lender_loses_by_rounding_withdrawn :
    ∃ (tr : List (Runs.Transition Demo.State Demo.Step)) (w : Demo.State),
      total (onSuccess .exact (Demo.host [] 0) fun _ c => c.supplied (· == Demo.lender)) tr = 10 ∧
        10 * 1000000000000000000 + total (onSuccess .exact (Demo.host [] 0) (growthFor Demo.lender)) tr
          ≤ total (onSuccess .exact (Demo.host [] 0) fun _ c => c.withdrawn (· == Demo.lender)) tr * 1000000000000000000
            + supplyBalanceOf w Demo.lender * (getProtocol w).supplyIndex
            + total (onSuccess .exact (Demo.host [] 0) (unitFor Demo.lender)) tr := by
  obtain ⟨tr, w, h, hp⟩ := run_of_record (A := .exact) (H := Demo.host [] 0) Demo.world_deployed
    [.invoke (Demo.env Demo.START) (.supplyUsdc Demo.lender 10),
      .invoke (Demo.env Demo.START) (.withdrawSupply Demo.lender 3)]
    (p := fun r =>
      decide (total (onSuccess .exact (Demo.host [] 0) fun _ c => c.supplied (· == Demo.lender)) r.1 = 10))
    (by decide +kernel)
  have hten := of_decide_eq_true hp
  exact ⟨tr, w, hten, hten ▸ no_lender_loses_by_rounding h Demo.lender⟩

/-! ## What is shown -/

section

variable {A : Arith}

/-- More ledgers do not grow an index less. -/
theorem growIndex_mono {index rate e e' : Int} (h0 : 0 ≤ index) (hf : A.clamp index = index) (h : e ≤ e') :
    growIndex A index rate e ≤ growIndex A index rate e' := by
  by_cases he : e ≤ 0 ∨ rate ≤ 0
  · have hidle : growIndex A index rate e = index := if_pos he
    rw [hidle]
    exact (growIndex_mem h0 hf).1
  · obtain ⟨hpos, hrate⟩ := not_or.mp he
    have hne : ¬ (e' ≤ 0 ∨ rate ≤ 0) := by omega
    unfold growIndex
    rw [if_neg he, if_neg hne]
    unfold accrueInterest
    by_cases hindex : index = 0
    · rw [if_pos (by tauto), if_pos (by tauto)]
    · rw [if_neg (by omega), if_neg (by omega)]
      have hscale : 0 ≤ A.mul LEDGERS_PER_YEAR BP_SCALE := A.mul_nonneg (by decide) (by decide)
      have hrated : 0 ≤ A.mul index rate := A.mul_nonneg h0 (by omega)
      have hmul : A.mul (A.mul index rate) e ≤ A.mul (A.mul index rate) e' :=
        A.mono _ _ (Int.mul_le_mul_of_nonneg_left h hrated)
      have hdiv : (A.mul (A.mul index rate) e).tdiv (A.mul LEDGERS_PER_YEAR BP_SCALE)
          ≤ (A.mul (A.mul index rate) e').tdiv (A.mul LEDGERS_PER_YEAR BP_SCALE) := by
        rcases hscale.eq_or_lt with hzero | hlt
        · rw [← hzero, Int.tdiv_zero, Int.tdiv_zero]
        · exact Int.tdiv_le_tdiv hlt hmul
      exact A.mono _ _ (by omega)

theorem project_borrowIndex_mono {p : ProtocolState} (h : p.Indices A) {c c' : Nat} (hle : c ≤ c') :
    (project A p c).borrowIndex ≤ (project A p c').borrowIndex := by
  have h0 : 0 ≤ p.borrowIndex := INDEX_ONE_pos.le.trans h.borrow_one_le
  have hform : ∀ c : Nat, (project A p c).borrowIndex = growIndex A p.borrowIndex
      (borrowRateBp A p.totalBorrowed (totalSupplyAssets A p p.supplyIndex)) ((c - p.indexLedger : Nat) : Int) := by
    intro c
    unfold project
    dsimp only
    split_ifs with he <;> first | rfl | exact (if_pos (Or.inl (not_lt.mp he))).symm
  rw [hform, hform]
  exact growIndex_mono h0 h.borrow_fits (by omega)

theorem interestAt_mono {p : ProtocolState} (h : p.Indices A) {c c' : Nat} (hle : c ≤ c') :
    interestAt A p c ≤ interestAt A p c' := by
  have hindex := project_borrowIndex_mono h hle
  have hpos : 0 < p.borrowIndex := INDEX_ONE_pos.trans_le h.borrow_one_le
  by_cases hg : 0 < p.totalBorrowed ∧ p.borrowIndex < (project A p c).borrowIndex
  · have hg' : 0 < p.totalBorrowed ∧ p.borrowIndex < (project A p c').borrowIndex := ⟨hg.1, hg.2.trans_le hindex⟩
    unfold interestAt accruedDelta
    rw [if_pos hg, if_pos hg']
    exact Int.tdiv_le_tdiv hpos (A.mono _ _ (Int.mul_le_mul_of_nonneg_left (by omega) hg.1.le))
  · have hzero : interestAt A p c = 0 := if_neg hg
    rw [hzero]
    exact interestAt_nonneg hpos c'

end

/-- The fee takes no more of more interest than what there is more of it. -/
theorem share_mono {x y : Int} (hx : 0 ≤ x) (h : x ≤ y) : x - accruedFee .i128 x ≤ y - accruedFee .i128 y := by
  have hfee : ∀ z : Int, 0 ≤ z → accruedFee .i128 z = min (z * 1500) I128_MAX / 10000 := by
    intro z hz
    have hclamp : Arith.i128.mul z PROTOCOL_FEE_BP = min (z * 1500) I128_MAX := by
      simp only [Arith.mul, Arith.i128, PROTOCOL_FEE_BP, I128_MIN, I128_MAX]
      omega
    rw [accruedFee, hclamp]
    exact Int.tdiv_eq_ediv_of_nonneg (le_min (by omega) (by decide))
  rw [hfee x hx, hfee y (hx.trans h)]
  generalize I128_MAX = m
  omega

theorem grownSupplyIndex_mono {p : ProtocolState} {x y : Int} (hx : 0 ≤ x) (h : x ≤ y) :
    grownSupplyIndex .i128 p x ≤ grownSupplyIndex .i128 p y := by
  have hshare := share_mono hx h
  unfold grownSupplyIndex
  split_ifs with hs
  · have hscaled : Arith.i128.mul (x - accruedFee .i128 x) INDEX_ONE ≤ Arith.i128.mul (y - accruedFee .i128 y) INDEX_ONE :=
      Arith.i128.mono _ _ (Int.mul_le_mul_of_nonneg_right hshare (by decide))
    have hdiv := Int.tdiv_le_tdiv hs hscaled
    exact Arith.i128.mono _ _ (by omega)
  · exact le_rfl

section

variable {H : Host τ ρ} {w w' : World τ ρ}

/-- An accrual in a later ledger gives no smaller index. -/
theorem project_supplyIndex_mono {p : ProtocolState} (h : p.Indices .i128) {c c' : Nat} (hle : c ≤ c') :
    (project .i128 p c).supplyIndex ≤ (project .i128 p c').supplyIndex := by
  have hpos : 0 < p.borrowIndex := INDEX_ONE_pos.trans_le h.borrow_one_le
  rw [project_supplyIndex h, project_supplyIndex h]
  exact grownSupplyIndex_mono (interestAt_nonneg hpos c) (interestAt_mono h hle)

/-- The supply index a view shows never falls. -/
theorem shownIndex_step (h : (getProtocol w).Indices .i128) {l : Label τ ρ} (hs : step .i128 H w l = some w') :
    (projected .i128 w).supplyIndex ≤ (projected .i128 w').supplyIndex := by
  cases l with
  | invoke env c =>
    cases hs
    rcases invoke_cases .i128 H env w c with he | he
    · rw [he]
    · obtain ⟨hledger, hc⟩ := he.indexes
      split_ifs at hc
      · obtain ⟨-, hsupply, hcurrent⟩ := hc
        have hsame := accrueGlobal_of_current (A := .i128) hcurrent
        rw [← hsupply]
        unfold projected
        rw [hledger, hsame]
      · obtain ⟨now, hp⟩ := hc
        unfold projected
        rw [hledger, hp]
        exact le_rfl
  | advance l =>
    obtain ⟨hledger, -, hsupply, -⟩ := project_of_advance hs
    have hle := step_sequence_le hs
    rw [hledger] at hle
    rw [hsupply]
    exact project_supplyIndex_mono h hle
  | outside t r =>
    simp only [step] at hs
    split_ifs at hs
    cases hs
    exact le_rfl

/-- Stored balances are in range. -/
def BalancesFit (w : World τ ρ) : Prop :=
  ∀ a, 0 ≤ supplyBalanceOf w a ∧ Arith.i128.clamp (supplyBalanceOf w a) = supplyBalanceOf w a

/-- What a step may be while a lender withdraws nothing: a withdrawal is not authorized by the lender. -/
def Label.leaves (lender : Address) : Label τ ρ → Bool
  | .invoke env (.withdrawSupply supplier _) => decide (supplier ≠ lender) || !env.auth lender
  | _ => true

theorem supplyBalanceOf_of_storage (hs : w'.toStorage = w.toStorage) (a : Address) :
    supplyBalanceOf w' a = supplyBalanceOf w a := by
  unfold supplyBalanceOf
  rw [hs]

/-- A call keeps the balances in range, and takes no units from a lender but in a withdrawal of that lender. -/
theorem Effect.balances {c : Call} (e : Effect .i128 H w c w') (h : (getProtocol w).Indices .i128) (hb : BalancesFit w) :
    BalancesFit w' ∧ ∀ a, (∀ amount, c ≠ .withdrawSupply a amount) → supplyBalanceOf w a ≤ supplyBalanceOf w' a := by
  cases e with
  | @supply supplier amount t ev hself hmint ht =>
    have hadded := le_add_of_fits (hb supplier).2 hmint.le
    constructor
    · intro a
      rw [supplyBalanceOf_insert rfl]
      split_ifs with ha
      · exact ⟨(hb supplier).1.trans hadded, Arith.i128.clamp_clamp _⟩
      · exact hb a
    · intro a _
      conv_rhs => rw [supplyBalanceOf_insert rfl]
      split_ifs with ha
      · rw [ha]
        exact hadded
      · exact le_rfl
  | @withdraw supplier amount t ev hself hamount hvalue havailable ht =>
    obtain ⟨-, -, hp⟩ := accrueGlobal_indices h w.ledger.sequence
    have hpos : 0 < (projected .i128 w).supplyIndex := INDEX_ONE_pos.trans_le hp.supply_one_le
    have hburn := burnFor_mem (A := .i128) (v := valueOf .i128 w (projected .i128 w) supplier) hpos (hb supplier).1 hamount.le
    constructor
    · intro a
      rw [supplyBalanceOf_insert rfl]
      split_ifs with ha
      · exact ⟨by omega, Arith.i128.clamp_fixed _ _ (by omega) (by omega) (hb supplier).2⟩
      · exact hb a
    · intro a hother
      conv_rhs => rw [supplyBalanceOf_insert rfl]
      have ha : a ≠ supplier := fun ha => hother amount (ha ▸ rfl)
      rw [if_neg ha]
      exact le_rfl
  | _ => exact ⟨hb, fun _ _ => le_rfl⟩

/-- A step while a lender withdraws nothing. -/
theorem balances_step {l : Label τ ρ} (h : (getProtocol w).Indices .i128) (hb : BalancesFit w)
    (hs : step .i128 H w l = some w') :
    BalancesFit w' ∧ ∀ a, l.leaves a = true → supplyBalanceOf w a ≤ supplyBalanceOf w' a := by
  rcases step_cases hs with ⟨env, c, rfl, he, -⟩ | ⟨hst, -⟩
  · obtain ⟨hfit, hkeeps⟩ := he.balances h hb
    refine ⟨hfit, fun a hleaves => ?_⟩
    by_cases hc : ∀ amount, c ≠ .withdrawSupply a amount
    · exact hkeeps a hc
    · -- the lender's own withdrawal fails, for it is not authorized
      obtain ⟨amount, hc⟩ := not_forall.mp hc
      obtain rfl := not_not.mp hc
      have hauth : env.auth a = false := by
        unfold Label.leaves at hleaves
        simpa using hleaves
      cases hs
      have hsame : invoke .i128 H env w (.withdrawSupply a amount) = w := by
        unfold invoke
        split
        · next w' hok =>
          change withdrawSupply .i128 H env w a amount = .ok w' at hok
          simp only [withdrawSupply, bind_eq_ok] at hok
          obtain ⟨_, hrequired, -⟩ := hok
          rw [requireAuth_auth hrequired] at hauth
          cases hauth
        · rfl
      rw [hsame]
  · have hbal := supplyBalanceOf_of_storage hst
    refine ⟨fun a => ?_, fun a _ => (hbal a).ge⟩
    rw [hbal]
    exact hb a

theorem balancesFit_of_reachable (h : Runs.Reachable (system .i128 H) w) : BalancesFit w := by
  have hboth : (getProtocol w).Indices .i128 ∧ BalancesFit w := by
    refine h.invariant (I := fun w => (getProtocol w).Indices .i128 ∧ BalancesFit w) ?_ ?_
    · intro w h0
      refine ⟨Deployed.indices h0 (by decide), fun a => ?_⟩
      obtain ⟨-, -, hbal, -⟩ := h0.eq
      have hzero : supplyBalanceOf w a = 0 := by
        rw [supplyBalanceOf, hbal]
        rfl
      rw [hzero]
      exact ⟨le_rfl, Arith.i128.clamp_zero⟩
    · intro w l w' ⟨hi, hb⟩ _ hs
      exact ⟨(indices_step hi hs).2.2, (balances_step hi hb hs).1⟩
  exact hboth.2

/-- In every run in which a lender authorizes no withdrawal, the lender's units and what the contract shows
them to be worth never fall, whatever anyone calls and whatever the admin sets. -/
theorem lender_value_never_falls (s w : World τ ρ) (lender : Address) (hr : Runs.Reachable (system .i128 H) s)
    (h : Runs.Via ((system .i128 H).after s) (fun _ l => l.leaves lender = true) w) :
    supplyBalanceOf s lender ≤ supplyBalanceOf w lender ∧
      getSupplyBalance .i128 s lender ≤ getSupplyBalance .i128 w lender := by
  have hi := indices_of_reachable (A := .i128) (by decide) hr
  have hb := balancesFit_of_reachable hr
  obtain ⟨hunits, hindex, -, -⟩ : supplyBalanceOf s lender ≤ supplyBalanceOf w lender ∧
      (projected .i128 s).supplyIndex ≤ (projected .i128 w).supplyIndex ∧
      (getProtocol w).Indices .i128 ∧ BalancesFit w := by
    refine h.invariant (I := fun w => supplyBalanceOf s lender ≤ supplyBalanceOf w lender ∧
      (projected .i128 s).supplyIndex ≤ (projected .i128 w).supplyIndex ∧
      (getProtocol w).Indices .i128 ∧ BalancesFit w) ?_ ?_
    · rintro w rfl
      exact ⟨le_rfl, le_rfl, hi, hb⟩
    · rintro w l w' ⟨hunits, hindex, hi, hb⟩ hleaves hs
      obtain ⟨hfit, hkeeps⟩ := balances_step hi hb hs
      exact ⟨hunits.trans (hkeeps lender hleaves), hindex.trans (shownIndex_step hi hs), (indices_step hi hs).2.2, hfit⟩
  refine ⟨hunits, ?_⟩
  have hpos : 0 ≤ (projected .i128 s).supplyIndex :=
    INDEX_ONE_pos.le.trans (accrueGlobal_indices hi s.ledger.sequence).2.2.supply_one_le
  have hvalue : supplyBalanceOf s lender * (projected .i128 s).supplyIndex
      ≤ supplyBalanceOf w lender * (projected .i128 w).supplyIndex :=
    mul_le_mul hunits hindex hpos ((hb lender).1.trans hunits)
  exact Int.tdiv_le_tdiv INDEX_ONE_pos (Arith.i128.mono _ _ hvalue)

end

namespace Demo

/-- What others do while the lender waits: the loan is repaid in part, Bob lends and leaves, the admin pauses. -/
def busySteps : List Step :=
  [.advance (ledger 182000), .invoke (env START) (.repay alice (txidOf aliceDeposit) 900),
   .invoke (env START) (.supplyUsdc bob 500), .invoke (env START) (.withdrawSupply bob 100),
   .invoke (env START) (.setPaused admin true)]

end Demo

/-- The lender's thousand stroops have become more. -/
theorem lender_value_never_falls_busy :
    ∃ s w : Demo.State, getSupplyBalance .i128 s Demo.lender = 1000 ∧ getSupplyBalance .i128 w Demo.lender ≠ 1000 ∧
      getSupplyBalance .i128 s Demo.lender ≤ getSupplyBalance .i128 w Demo.lender := by
  have hrun : ((system .i128 (Demo.host [Demo.aliceDeposit] 900000)).replay Demo.world Demo.lentSteps).any (fun s =>
      ((system .i128 (Demo.host [Demo.aliceDeposit] 900000)).replayIf (fun _ l => l.leaves Demo.lender) s
        Demo.busySteps).any fun w => decide (getSupplyBalance .i128 s Demo.lender = 1000
          ∧ getSupplyBalance .i128 w Demo.lender ≠ 1000)) = true := by
    decide +kernel
  obtain ⟨s, hs, hrun⟩ := (Option.any_eq_true _ _).mp hrun
  obtain ⟨w, hw, hrun⟩ := (Option.any_eq_true _ _).mp hrun
  obtain ⟨hbefore, hafter⟩ := of_decide_eq_true hrun
  have hreach : Runs.Reachable (system .i128 (Demo.host [Demo.aliceDeposit] 900000)) s :=
    Runs.Via.replay (.init Demo.world_deployed) hs
  have hvia : Runs.Via ((system .i128 (Demo.host [Demo.aliceDeposit] 900000)).after s)
      (fun _ l => l.leaves Demo.lender = true) w := (Runs.Via.init rfl).replayIf (fun _ _ h => h) hw
  exact ⟨s, w, hbefore, hafter, (lender_value_never_falls s w Demo.lender hreach hvia).2⟩

end Writz.Lend

import Writz.Lend.Proofs.Interest
import Writz.Lend.Proofs.Solvency

/-!
# Proofs: what lenders can take out

In exact arithmetic, a lender's withdrawals and remaining units are worth no more than the lender's
supplies and the growth of the supply index on the units held; and all lenders together take out no
more than they put in and their shares of the interest. Both are potentials of a run: every step moves
the two sides by the same amount, or the second by more.
-/

namespace Writz.Lend

variable {τ ρ : Type}

/-- What a call moves in from lenders that satisfy `p`. -/
def Call.supplied (p : Address → Bool) : Call → Int
  | .supplyUsdc supplier amount => if p supplier then amount else 0
  | _ => 0

/-- What a call moves out to lenders that satisfy `p`. -/
def Call.withdrawn (p : Address → Bool) : Call → Int
  | .withdrawSupply supplier amount => if p supplier then amount else 0
  | _ => 0

/-- The growth of the supply index in the accrual of a call, on the units a lender holds at it. -/
def growthFor (lender : Address) (w : World τ ρ) (c : Call) : Int :=
  if c.accrues then
    supplyBalanceOf w lender * ((projected .exact w).supplyIndex - (getProtocol w).supplyIndex)
  else
    0

/-- The lenders' share of the interest the accrual of a call charges. -/
def lenderShareOf (w : World τ ρ) (c : Call) : Int :=
  if c.accrues then lenderShareAt .exact (getProtocol w) w.ledger.sequence else 0

theorem Call.quiet_of_configures {c : Call} {p : Address → Bool} (h : c.configures = true) :
    c.withdrawn p = 0 ∧ c.supplied p = 0 ∧ c.accrues = false := by
  cases c <;> first | exact ⟨rfl, rfl, rfl⟩ | cases h

/-! ## Potentials -/

/-- What a lender's units are worth, in stroops times `INDEX_ONE`. -/
def worthOf (w : World τ ρ) (lender : Address) : Int :=
  supplyBalanceOf w lender * (getProtocol w).supplyIndex

/-- What all units are worth. -/
def worth (w : World τ ρ) : Int :=
  (getProtocol w).totalScaledSupply * (getProtocol w).supplyIndex

section

variable {H : Host τ ρ} {env : Env} {w w' : World τ ρ}

theorem supplyBalanceOf_insert {s : Store Address Int} {a lender : Address} {b : Int}
    (hs : w'.supplyBalances = s.insert a b) :
    supplyBalanceOf w' lender = if lender = a then b else (s.lookup lender).getD 0 := by
  unfold supplyBalanceOf
  rw [hs, Store.lookup_insert_eq_ite]
  split_ifs <;> rfl

/-- The growth of the supply index is covered by the lenders' share of the interest. -/
theorem units_mul_growth_le (h : Books .exact w) :
    (getProtocol w).totalScaledSupply
        * ((projected .exact w).supplyIndex - (getProtocol w).supplyIndex)
      ≤ lenderShareAt .exact (getProtocol w) w.ledger.sequence * INDEX_ONE := by
  have hshare := lenderShareAt_nonneg (A := .exact) h.sound.borrowIndex_pos w.ledger.sequence
  have hscaled : 0 ≤ lenderShareAt .exact (getProtocol w) w.ledger.sequence * INDEX_ONE :=
    Int.mul_nonneg hshare (by decide)
  by_cases hg : 0 < (getProtocol w).totalBorrowed ∧ (getProtocol w).borrowIndex
      < (project .exact (getProtocol w) w.ledger.sequence).borrowIndex
  · rw [projected, accrueGlobal_eq_grown hg]
    dsimp only
    unfold grownSupplyIndex
    split_ifs with hs
    · have hle := Int.mul_tdiv_self_le (k := (getProtocol w).totalScaledSupply) hscaled
      simp only [Arith.exact_add, Arith.exact_mul, lenderShareAt] at *
      linarith
    · rw [sub_self, mul_zero]
      exact hscaled
  · rw [projected, accrueGlobal_eq_idle hg]
    simpa using hscaled

/-- What a lender's units are worth once the supply index has grown. -/
theorem balance_mul_projected (w : World τ ρ) (lender : Address) :
    supplyBalanceOf w lender * (projected .exact w).supplyIndex
      = worthOf w lender + supplyBalanceOf w lender
          * ((projected .exact w).supplyIndex - (getProtocol w).supplyIndex) := by
  unfold worthOf
  ring

/-- A call pays a lender no more than the lender brings in, owns and earns. -/
theorem Effect.withdrawn_le {c : Call} (e : Effect .exact H w c w') (h : Books .exact w)
    (lender : Address) :
    c.withdrawn (· == lender) * INDEX_ONE + worthOf w' lender
      ≤ c.supplied (· == lender) * INDEX_ONE + (worthOf w lender + growthFor lender w c) := by
  have hgrow := balance_mul_projected w lender
  have hp := h.projected_sound
  cases e with
  | @supply supplier amount t ev hself hmint ht =>
    have hvalue := mintFor_mul_le (p := projected .exact w) (H.token.transfer_nonneg ht)
    unfold worthOf at hgrow ⊢
    rw [supplyBalanceOf_insert rfl]
    simp only [Call.withdrawn, Call.supplied, growthFor, Call.accrues, if_true, getProtocol,
      Option.getD_some, beq_iff_eq, Arith.exact_add] at hgrow ⊢
    by_cases hl : lender = supplier
    · subst hl
      rw [if_pos rfl, if_pos rfl]
      linarith
    · rw [if_neg hl, if_neg (Ne.symm hl)]
      change _ + supplyBalanceOf w lender * _ ≤ _
      linarith
  | @withdraw supplier amount t ev hself hamount hvalue havailable ht =>
    have hburn := le_burnFor_mul hp.supplyIndex_pos
      (h.supplyBalance_nonneg supplier) hvalue
    unfold worthOf at hgrow ⊢
    rw [supplyBalanceOf_insert rfl]
    simp only [Call.withdrawn, Call.supplied, growthFor, Call.accrues, if_true, getProtocol,
      Option.getD_some, beq_iff_eq] at hgrow ⊢
    by_cases hl : lender = supplier
    · subst hl
      rw [if_pos rfl, if_pos rfl]
      unfold valueOf
      linarith
    · rw [if_neg hl, if_neg (Ne.symm hl)]
      change _ + supplyBalanceOf w lender * _ ≤ _
      linarith
  | borrow | repay | liquidate =>
    change _ + supplyBalanceOf w lender * (projected .exact w).supplyIndex ≤ _
    simp only [Call.withdrawn, Call.supplied, growthFor, Call.accrues, if_true]
    linarith
  | configure hcall =>
    obtain ⟨hw, hs, ha⟩ := Call.quiet_of_configures (p := (· == lender)) hcall
    rw [hw, hs, growthFor, ha]
    simp only [zero_mul, zero_add, Bool.false_eq_true, if_false, add_zero]
    exact le_rfl
  | deposit | heartbeat | psbt =>
    simp only [Call.withdrawn, Call.supplied, growthFor, Call.accrues, zero_mul, zero_add,
      Bool.false_eq_true, if_false, add_zero]
    exact le_rfl

/-- A call pays all lenders no more than they bring in, own and earn. -/
theorem Effect.all_withdrawn_le {c : Call} (e : Effect .exact H w c w') (h : Books .exact w) :
    c.withdrawn (fun _ => true) * INDEX_ONE + worth w'
      ≤ c.supplied (fun _ => true) * INDEX_ONE + (worth w + lenderShareOf w c * INDEX_ONE) := by
  have hgrow : (getProtocol w).totalScaledSupply * (projected .exact w).supplyIndex
      ≤ worth w + lenderShareAt .exact (getProtocol w) w.ledger.sequence * INDEX_ONE := by
    have := units_mul_growth_le h
    unfold worth
    linarith
  have hp := h.projected_sound
  unfold worth at hgrow ⊢
  cases e with
  | @supply supplier amount t ev hself hmint ht =>
    have hvalue := mintFor_mul_le (p := projected .exact w) (H.token.transfer_nonneg ht)
    simp only [Call.withdrawn, Call.supplied, lenderShareOf, Call.accrues, if_true, getProtocol,
      Option.getD_some, projected_totalScaledSupply, Arith.exact_add] at hgrow ⊢
    linarith
  | @withdraw supplier amount t ev hself hamount hvalue havailable ht =>
    have hburn := le_burnFor_mul hp.supplyIndex_pos
      (h.supplyBalance_nonneg supplier) hvalue
    simp only [Call.withdrawn, Call.supplied, lenderShareOf, Call.accrues, if_true, getProtocol,
      Option.getD_some, projected_totalScaledSupply, Arith.exact_sub] at hgrow ⊢
    unfold valueOf
    linarith
  | borrow | repay | liquidate =>
    simp only [Call.withdrawn, Call.supplied, lenderShareOf, Call.accrues, if_true, getProtocol,
      Option.getD_some, projected_totalScaledSupply] at hgrow ⊢
    linarith
  | configure hcall =>
    obtain ⟨hw, hs, ha⟩ := Call.quiet_of_configures (p := fun _ => true) hcall
    rw [hw, hs, lenderShareOf, ha]
    simp only [zero_mul, zero_add, Bool.false_eq_true, if_false, add_zero]
    exact le_rfl
  | deposit | heartbeat | psbt =>
    simp only [Call.withdrawn, Call.supplied, lenderShareOf, Call.accrues, zero_mul, zero_add,
      Bool.false_eq_true, if_false, add_zero]
    exact le_rfl

/-! ## Runs -/

/-- The two potentials of a run. -/
theorem potentials_of_run {tr : List (Runs.Transition (World τ ρ) (Label τ ρ))}
    (h : Runs.Run (system .exact H) tr w) (lender : Address) :
    total (onSuccess .exact H fun _ c => c.withdrawn (· == lender)) tr * INDEX_ONE
          + worthOf w lender
        ≤ total (onSuccess .exact H fun _ c => c.supplied (· == lender)) tr * INDEX_ONE
          + total (onSuccess .exact H (growthFor lender)) tr ∧
      total (onSuccess .exact H fun _ c => c.withdrawn fun _ => true) tr * INDEX_ONE + worth w
        ≤ (total (onSuccess .exact H fun _ c => c.supplied fun _ => true) tr
          + total (onSuccess .exact H lenderShareOf) tr) * INDEX_ONE := by
  induction h with
  | @init w h0 =>
    obtain ⟨hp, -, hbal, -⟩ := h0.eq
    unfold worthOf worth supplyBalanceOf
    rw [getProtocol_eq hp, hbal]
    simp
  | @step tr w w' l hr hs ih =>
    have hb := books_of_reachable hr.reachable
    simp only [total_cons]
    rcases step_cases hs with ⟨env, c, rfl, he, hf⟩ | ⟨hst, hf⟩
    · have h₁ := he.withdrawn_le hb lender
      have h₂ := he.all_withdrawn_le hb
      simp only [hf]
      constructor <;> linarith [ih.1, ih.2]
    · obtain ⟨now, ledger, hp⟩ := getProtocol_of_storage hst
      have hworthOf : worthOf w' lender = worthOf w lender := by
        unfold worthOf supplyBalanceOf
        rw [hp, hst]
      have hworth : worth w' = worth w := by
        unfold worth
        rw [hp]
      simp only [hf, zero_add, hworthOf, hworth]
      exact ih

/-- No lender, and no set of lenders, takes value out by rounding. -/
theorem no_lender_gains_by_rounding {tr : List (Runs.Transition (World τ ρ) (Label τ ρ))}
    (h : Runs.Run (system .exact H) tr w) :
    (∀ lender, total (onSuccess .exact H fun _ c => c.withdrawn (· == lender)) tr
          * 1000000000000000000 + supplyBalanceOf w lender * (getProtocol w).supplyIndex
        ≤ total (onSuccess .exact H fun _ c => c.supplied (· == lender)) tr * 1000000000000000000
          + total (onSuccess .exact H (growthFor lender)) tr) ∧
      total (onSuccess .exact H fun _ c => c.withdrawn fun _ => true) tr
          + (getProtocol w).totalScaledSupply * (getProtocol w).supplyIndex / 1000000000000000000
        ≤ total (onSuccess .exact H fun _ c => c.supplied fun _ => true) tr
          + total (onSuccess .exact H lenderShareOf) tr := by
  constructor
  · exact fun lender => (potentials_of_run h lender).1
  · have hall := (potentials_of_run h H.self).2
    simp only [INDEX_ONE, worth] at hall
    omega

end

/-- Ten stroops supplied, three of them withdrawn. -/
theorem no_lender_gains_by_rounding_withdrawn :
    ∃ (tr : List (Runs.Transition Demo.State Demo.Step)) (w : Demo.State),
      total (onSuccess .exact (Demo.host [] 0) fun _ c => c.withdrawn (· == Demo.lender)) tr = 3 ∧
        supplyBalanceOf w Demo.lender = 7 ∧
        3 * 1000000000000000000 + supplyBalanceOf w Demo.lender * (getProtocol w).supplyIndex
          ≤ total (onSuccess .exact (Demo.host [] 0) fun _ c => c.supplied (· == Demo.lender)) tr
              * 1000000000000000000
            + total (onSuccess .exact (Demo.host [] 0) (growthFor Demo.lender)) tr := by
  obtain ⟨tr, w, h, hp⟩ := run_of_record (A := .exact) (H := Demo.host [] 0) Demo.world_deployed
    [.invoke (Demo.env Demo.START) (.supplyUsdc Demo.lender 10),
      .invoke (Demo.env Demo.START) (.withdrawSupply Demo.lender 3)]
    (p := fun r =>
      decide (total (onSuccess .exact (Demo.host [] 0) fun _ c => c.withdrawn (· == Demo.lender)) r.1
        = 3 ∧ supplyBalanceOf r.2 Demo.lender = 7)) (by decide +kernel)
  obtain ⟨hw, hbal⟩ := of_decide_eq_true hp
  exact ⟨tr, w, hw, hbal, hw ▸ (no_lender_gains_by_rounding h).1 Demo.lender⟩

end Writz.Lend

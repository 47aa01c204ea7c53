import Writz.Lend.Proofs.Solvency
import Writz.Lend.Proofs.Indexes

/-!
# Proofs: the lenders' exit

Once nothing is owed, in the total as in the positions, the lenders can withdraw all they see, in any
order. The total is not recomputed from the positions, so the last repayment has to be of what the
total says.
-/

namespace Writz.Lend

open BalanceSheet Relation

variable {τ ρ : Type}

/-- A token that pays out of what `src` holds, to anyone. -/
def Token.Pays (T : Token τ) (src : Address) : Prop :=
  ∀ t dst n, 0 ≤ n → n ≤ T.balance t src → ∃ t', T.transfer t src dst n = some t'

/-- One lender's withdrawal of all they see: who authorizes what, the ledger, the lender. -/
structure Exit where
  env : Env
  ledger : Ledger
  lender : Address

/-- Each lender in turn withdraws the whole displayed value, at the ledger of the call. -/
def exitAll (A : Arith) (H : Host τ ρ) : World τ ρ → List Exit → Result (World τ ρ)
  | w, [] => .ok w
  | w, e :: es => do
    let w := { w with ledger := e.ledger }
    let w ← withdrawSupply A H e.env w e.lender (getSupplyBalance A w e.lender)
    exitAll A H w es

/-- No position owes anything. -/
def NoDebt (w : World τ ρ) : Prop := ∀ txid pos, w.positions.lookup txid = some pos → pos.usdcDebt = 0

/-- A step whose result is the one of exact arithmetic. -/
def Unsaturated (H : Host τ ρ) (w : World τ ρ) (l : Label τ ρ) : Prop :=
  step .i128 H w l = step .exact H w l

/-- A payment of the whole debt of the only position that owes anything is of the whole total. -/
def ClearsTotal (A : Arith) (w : World τ ρ) : Label τ ρ → Prop
  | .invoke _ (.repay _ txid amount) =>
    ∀ pos, w.positions.lookup txid = some pos → pos.status = .Active →
      (∀ txid' pos', txid' ≠ txid → w.positions.lookup txid' = some pos' → pos'.usdcDebt = 0) →
        amount = accruedDebt A pos (projected A w).borrowIndex →
          amount = (projected A w).totalBorrowed
  | .invoke _ (.liquidate _ txid) =>
    ∀ pos, w.positions.lookup txid = some pos → pos.status = .Active →
      (∀ txid' pos', txid' ≠ txid → w.positions.lookup txid' = some pos' → pos'.usdcDebt = 0) →
        accruedDebt A pos (projected A w).borrowIndex = (projected A w).totalBorrowed
  | _ => True

/-! ## The total is cleared with the last debt -/

section Clearing

variable {H : Host τ ρ} {env : Env} {w w' : World τ ρ}

theorem projected_of_zero {A : Arith} (h : (getProtocol w).totalBorrowed = 0) :
    (projected A w).totalBorrowed = 0 ∧ (projected A w).supplyIndex = (getProtocol w).supplyIndex ∧
      (projected A w).reserveUsdc = (getProtocol w).reserveUsdc := by
  have ha := projected_accrual A w
  generalize projected A w = q at ha
  cases ha with
  | idle => exact ⟨h, rfl, rfl⟩
  | grow hb => omega

/-- The other positions owe nothing, when no position does after one of them is written. -/
theorem NoDebt.of_insert {s : Store (BytesN 32) Position} {txid : BytesN 32} {pos : Position}
    (h : ∀ txid' pos', (s.insert txid pos).lookup txid' = some pos' → pos'.usdcDebt = 0) :
    pos.usdcDebt = 0 ∧
      ∀ txid' pos', txid' ≠ txid → s.lookup txid' = some pos' → pos'.usdcDebt = 0 := by
  refine ⟨h txid pos (by rw [Store.lookup_insert_eq_ite, if_pos rfl]), fun txid' pos' hne hl => ?_⟩
  exact h txid' pos' (by rwa [Store.lookup_insert_eq_ite, if_neg hne])

/-- A call keeps the total cleared with the debts. -/
theorem Effect.cleared {c : Call} (e : Effect .exact H w c w') (hb : Books .exact w)
    (hi : Indexed w) (hclear : ClearsTotal .exact w (.invoke env c))
    (h : NoDebt w → (getProtocol w).totalBorrowed = 0) :
    NoDebt w' → (getProtocol w').totalBorrowed = 0 := by
  intro hnone
  cases e with
  | deposit hc hnew =>
    refine h fun txid' pos' hl => (NoDebt.of_insert hnone).2 txid' pos' ?_ hl
    rintro rfl
    rw [hnew] at hl
    cases hl
  | supply | withdraw => exact (projected_of_zero (h hnone)).1
  | @borrow borrower txid amount pos t ev hself hpos hactive havailable ht =>
    -- nothing was borrowed and nothing was owed before
    obtain ⟨hsum, hothers⟩ := NoDebt.of_insert hnone
    have hamount := H.token.transfer_nonneg ht
    have hle := le_accruedDebt (hb.debt_nonneg _ _ hpos) (hi.debtIndex_mem_projected _ _ hpos).2
    have hd := hb.debt_nonneg _ _ hpos
    simp only [Arith.exact_add] at hsum
    have hzero : (getProtocol w).totalBorrowed = 0 := by
      refine h fun txid' pos' hl => ?_
      rcases eq_or_ne txid' txid with rfl | hne
      · rw [hpos] at hl
        cases hl
        omega
      · exact hothers txid' pos' hne hl
    have hproj := (projected_of_zero (A := .exact) hzero).1
    change (projected .exact w).totalBorrowed + amount = 0
    omega
  | @repay repayer txid amount pos t ev hself hpos hactive hdebt ht =>
    obtain ⟨hsum, hothers⟩ := NoDebt.of_insert hnone
    simp only [Arith.exact_sub] at hsum
    have hall := hclear pos hpos hactive hothers (by omega)
    change (projected .exact w).totalBorrowed - amount = 0
    omega
  | @liquidate keeper txid config pos t t' now ev hself hc hpos hactive ht ht' =>
    have hall := hclear pos hpos hactive (NoDebt.of_insert hnone).2
    change (projected .exact w).totalBorrowed - _ = 0
    omega
  | heartbeat | configure | psbt => exact h hnone

theorem cleared_step {l : Label τ ρ} (hb : Books .exact w) (hi : Indexed w)
    (hclear : ClearsTotal .exact w l) (h : NoDebt w → (getProtocol w).totalBorrowed = 0)
    (hs : step .exact H w l = some w') : NoDebt w' → (getProtocol w').totalBorrowed = 0 := by
  have houtside : (∀ env c, l ≠ .invoke env c) →
      NoDebt w' → (getProtocol w').totalBorrowed = 0 := by
    intro hl hnone
    have hst := step_outside hs hl
    obtain ⟨now, ledger, he⟩ := getProtocol_of_storage hst
    unfold NoDebt at hnone
    rw [hst] at hnone
    rw [he]
    exact h hnone
  cases l with
  | invoke env c =>
    cases hs
    rcases invoke_cases .exact H env w c with he | he
    · rwa [he]
    · exact he.cleared hb hi hclear h
  | advance l => exact houtside (by simp)
  | outside t r => exact houtside (by simp)

/-- In runs that clear the total with the last debt, no debt means a total of zero. -/
theorem cleared_of_via (h : Runs.Via (system .exact H) (ClearsTotal .exact) w) :
    NoDebt w → (getProtocol w).totalBorrowed = 0 := by
  have hinv : (Books .exact w ∧ Indexed w) ∧ (NoDebt w → (getProtocol w).totalBorrowed = 0) := by
    induction h with
    | init h0 =>
      refine ⟨⟨Deployed.books h0, Deployed.indexed h0⟩, fun _ => ?_⟩
      rw [getProtocol_eq (Deployed.eq h0).1]
    | step hv hclear hs ih =>
      have hr := (hv.step hclear hs).reachable
      exact ⟨⟨books_of_reachable hr, indexed_of_reachable hr⟩,
        cleared_step ih.1.1 ih.1.2 hclear ih.2 hs⟩
  exact hinv.2

end Clearing

/-! ## Leaving a pool that is owed nothing -/

/-- A pool that is owed nothing. -/
structure Quiet (H : Host τ ρ) (w : World τ ρ) : Prop where
  books : Books .i128 w
  solvent : Solvent (sheet H w)
  total : (getProtocol w).totalBorrowed = 0

section Leaving

variable {H : Host τ ρ} {env : Env} {w w' : World τ ρ}

theorem Quiet.of_storage (h : Quiet H w) (hs : w'.toStorage = w.toStorage)
    (ht : w'.token = w.token) : Quiet H w' := by
  obtain ⟨now, ledger, he⟩ := getProtocol_of_storage hs
  refine ⟨h.books.of_storage hs, ?_, by rw [he]; exact h.total⟩
  unfold sheet cashOf
  rw [he, ht]
  exact h.solvent

/-- What a lender sees in a pool that is owed nothing. -/
theorem getSupplyBalance_of_zero {A : Arith} (h : (getProtocol w).totalBorrowed = 0) (a : Address) :
    getSupplyBalance A w a
      = (A.mul (supplyBalanceOf w a) (getProtocol w).supplyIndex).tdiv INDEX_ONE := by
  rw [getSupplyBalance, (projected_of_zero h).2.1]

/-- No lender sees more than the pool has available. -/
theorem Quiet.value_le_available (h : Quiet H w) (a : Address) :
    getSupplyBalance .i128 w a ≤ availableIn .i128 (projected .i128 w) := by
  obtain ⟨htotal, hindex, -⟩ := projected_of_zero (A := .i128) h.total
  have hp := h.books.sound
  rw [getSupplyBalance_of_zero h.total, availableIn, htotal, hindex, Arith.sub, sub_zero,
    totalSupplyAssets, projected_totalScaledSupply]
  have hmul := Arith.i128.mul_nonneg hp.scaled_nonneg hp.supplyIndex_pos.le
  have hfix : Arith.i128.clamp ((Arith.i128.mul (getProtocol w).totalScaledSupply
      (getProtocol w).supplyIndex).tdiv INDEX_ONE) = (Arith.i128.mul
        (getProtocol w).totalScaledSupply (getProtocol w).supplyIndex).tdiv INDEX_ONE :=
    Arith.i128.clamp_fixed _ _ (Int.tdiv_nonneg hmul (by decide)) (Int.tdiv_le_self _ hmul)
      (Arith.i128.clamp_clamp _)
  rw [hfix]
  exact Int.tdiv_le_tdiv INDEX_ONE_pos (Arith.i128.mul_mono
    ((h.books.supplyBalance_le a).trans h.books.held_le) hp.supplyIndex_pos.le)

/-- What a lender sees is worth no more than their units. -/
theorem Quiet.value_mul_le (h : Quiet H w) (a : Address) :
    getSupplyBalance .i128 w a * INDEX_ONE ≤ supplyBalanceOf w a * (getProtocol w).supplyIndex := by
  have hb := h.books.supplyBalance_nonneg a
  have hp := h.books.sound.supplyIndex_pos.le
  rw [getSupplyBalance_of_zero h.total]
  exact (tdiv_mul_le (Arith.i128.mul_nonneg hb hp)).trans (Arith.i128.mul_le hb hp)

/-- What a lender sees is there in cash. -/
theorem Quiet.value_le_cash (h : Quiet H w) (a : Address) :
    getSupplyBalance .i128 w a ≤ cashOf H w := by
  have hle : getSupplyBalance .i128 w a * INDEX_ONE ≤ (sheet H w).cash := by
    refine h.solvent.le_cash ((h.value_mul_le a).trans ?_)
    simp only [sheet, sheetOf, h.total, zero_mul, sub_zero]
    exact Int.mul_le_mul_of_nonneg_right ((h.books.supplyBalance_le a).trans h.books.held_le)
      h.books.sound.supplyIndex_pos.le
  exact Int.le_of_mul_le_mul_right hle INDEX_ONE_pos

/-- A lender who sees something can withdraw all of it. -/
theorem Quiet.withdraw (h : Quiet H w) (hpays : H.token.Pays H.self) {a : Address}
    (hauth : requireAuth H env a = .ok ()) (hpos : 0 < getSupplyBalance .i128 w a) :
    ∃ w', withdrawSupply .i128 H env w a (getSupplyBalance .i128 w a) = .ok w' := by
  obtain ⟨config, hc, -⟩ := h.books.configured
  obtain ⟨t, ht⟩ := hpays w.token a _ hpos.le (h.value_le_cash a)
  simp only [withdrawSupply, bind_eq_ok, failIf_eq_ok, okOr_eq_ok, transfer_eq_ok]
  refine ⟨_, (), hauth, config, hc, (), not_le.mpr hpos, (), not_lt.mpr le_rfl, (),
    not_lt.mpr (h.value_le_available a), _, ⟨t, ht, rfl⟩, rfl⟩

/-- The pool is still owed nothing, and the other lenders see what they saw. -/
theorem Quiet.withdrawn (h : Quiet H w) {a : Address}
    (hw : withdrawSupply .i128 H env w a (getSupplyBalance .i128 w a) = .ok w') :
    Quiet H w' ∧ ∀ b, b ≠ a → getSupplyBalance .i128 w' b = getSupplyBalance .i128 w b := by
  have he := withdrawSupply_effect (A := .i128) hw
  obtain ⟨htotal, hindex, hreserve⟩ := projected_of_zero (A := .i128) h.total
  have hfits : MintFits .i128 w (.invoke env (.withdrawSupply a (getSupplyBalance .i128 w a))) :=
    trivial
  have hbooks := he.books h.books hfits
  generalize hn : getSupplyBalance .i128 w a = n at he
  cases he with
  | configure hcall => cases hcall
  | @withdraw _ _ t ev hself hamount hvalue havailable ht =>
    have hburn : burnFor .i128 (projected .i128 w) (supplyBalanceOf w a)
        (valueOf .i128 w (projected .i128 w) a) n = supplyBalanceOf w a := by
      rw [burnFor, if_pos]
      exact hn.symm
    have hbal := h.books.supplyBalance_nonneg a
    have hle : supplyBalanceOf w a ≤ (getProtocol w).totalScaledSupply :=
      (h.books.supplyBalance_le a).trans h.books.held_le
    have htotal' : (projected .i128 w).totalBorrowed = 0 := htotal
    refine ⟨⟨hbooks, ?_, htotal'⟩, fun b hb => ?_⟩
    · have hm := Move.burn (s := sheet H w) (a := n * INDEX_ONE) hle
        (Int.mul_le_mul_of_nonneg_right (hn ▸ h.value_le_cash a) (by decide))
        (hn ▸ h.value_mul_le a)
      have hs := hm.solvent h.solvent
      have hsub := Arith.i128.sub_eq hbal hle h.books.fits
      change Solvent (sheetOf (H.token.balance t H.self) _)
      rw [transfer_out hself ht, getProtocol]
      simp only [Option.getD_some, hburn, projected_totalScaledSupply, hsub, sheetOf, htotal, hindex,
        hreserve]
      simpa only [sheet, sheetOf, cashOf, h.total, ← sub_mul] using hs
    · rw [getSupplyBalance_of_zero h.total, getSupplyBalance_of_zero]
      swap
      · exact htotal'
      change (Arith.i128.mul (supplyBalanceOf _ b) (projected .i128 w).supplyIndex).tdiv _ = _
      rw [hindex]
      congr 2
      unfold supplyBalanceOf
      rw [Store.lookup_insert_eq_ite, if_neg hb]

/-- The lenders can all leave, one after the other. -/
theorem Quiet.exitAll (hpays : H.token.Pays H.self) (es : List Exit) :
    ∀ {w : World τ ρ}, Quiet H w → (es.map Exit.lender).Nodup →
      (∀ e ∈ es, requireAuth H e.env e.lender = .ok () ∧
        0 < getSupplyBalance .i128 w e.lender) → ∃ w', exitAll .i128 H w es = .ok w' := by
  induction es with
  | nil => intro w _ _ _; exact ⟨w, rfl⟩
  | cons e es ih =>
    intro w h hnodup hes
    obtain ⟨hauth, hpos⟩ := hes e List.mem_cons_self
    have hq : Quiet H { w with ledger := e.ledger } := h.of_storage rfl rfl
    have hsame : ∀ b, getSupplyBalance .i128 { w with ledger := e.ledger } b
        = getSupplyBalance .i128 w b := by
      intro b
      rw [getSupplyBalance_of_zero hq.total, getSupplyBalance_of_zero h.total]
      obtain ⟨now, ledger, he⟩ := @getProtocol_of_storage _ _ w { w with ledger := e.ledger } rfl
      rw [he]
      rfl
    obtain ⟨w₁, hw₁⟩ := hq.withdraw hpays hauth (by rwa [hsame])
    obtain ⟨hq₁, hrest⟩ := hq.withdrawn hw₁
    obtain ⟨hnot, hnodup⟩ := List.nodup_cons.mp hnodup
    obtain ⟨w₂, hw₂⟩ := ih hq₁ hnodup fun e' he' => by
      have hne : e'.lender ≠ e.lender := fun heq =>
        hnot (heq ▸ List.mem_map_of_mem (f := Exit.lender) he')
      rw [hrest _ hne, hsame]
      exact hes e' (List.mem_cons_of_mem _ he')
    exact ⟨w₂, bind_eq_ok.mpr ⟨w₁, hw₁, hw₂⟩⟩

/-! ## Runs -/

theorem scaledSupply_le_of_reachable (h : Runs.Reachable (system .i128 H) w) :
    (getProtocol w).totalScaledSupply ≤ I128_MAX := by
  refine h.invariant (I := fun w => (getProtocol w).totalScaledSupply ≤ I128_MAX) ?_ ?_
  · intro s h0
    rw [getProtocol_eq (Deployed.eq h0).1]
    exact (by decide : (0 : Int) ≤ I128_MAX)
  · intro s l s' hs _ hstep
    have houtside : (∀ env c, l ≠ .invoke env c) → (getProtocol s').totalScaledSupply ≤ I128_MAX := by
      intro hl
      obtain ⟨now, ledger, he⟩ := getProtocol_of_storage (step_outside hstep hl)
      rwa [he]
    cases l with
    | invoke env c =>
      cases hstep
      rcases invoke_cases .i128 H env s c with he | he
      · rwa [he]
      · generalize invoke .i128 H env s c = s' at he
        cases he with
        | supply | withdraw => exact max_le (by decide) (min_le_right _ _)
        | _ => exact hs
    | advance l => exact houtside (by simp)
    | outside t r => exact houtside (by simp)

/-- A run of unsaturated steps that clears the total with the last debt ends, when no position owes
anything, in a pool that is owed nothing. -/
theorem quiet_of_via
    (h : Runs.Via (system .i128 H) (fun w l => Unsaturated H w l ∧ ClearsTotal .exact w l) w)
    (hn : NoDebt w) : Quiet H w := by
  have hexact : Runs.Via (system .exact H) (ClearsTotal .exact) w :=
    h.simulate (T := system .i128 H) (U := system .exact H) (fun _ h0 => h0)
      fun s l s' (hp : Unsaturated H s l ∧ ClearsTotal .exact s l) hs =>
        ⟨hp.2, hp.1.symm.trans hs⟩
  obtain ⟨hb, hs⟩ := books_solvent_of_reachable hexact.reachable
  have hle := scaledSupply_le_of_reachable h.reachable
  have hnn := hb.sound.scaled_nonneg
  have hfits : Arith.i128.clamp (getProtocol w).totalScaledSupply
      = (getProtocol w).totalScaledSupply := by
    simp only [Arith.i128, I128_MIN, I128_MAX] at *
    omega
  exact ⟨⟨hb.sound, hfits, hb.held_le, hb.balance_nonneg, hb.debt_nonneg, hb.configured⟩, hs,
    cleared_of_via hexact hn⟩

end Leaving

/-! ## On the small deployment -/

/-- No stored entry owes anything. -/
theorem noDebt_of_entries {w : World τ ρ} (h : ∀ e ∈ w.positions.entries, e.2.usdcDebt = 0) :
    NoDebt w :=
  fun txid pos hl => h ⟨txid, pos⟩ (Finmap.lookup_eq_some_iff.mp hl)

namespace Demo

theorem host_pays (ds : List SignedDeposit) (height : Nat) (src : Address) :
    (host ds height).token.Pays src := by
  intro t dst n h0 hle
  exact ⟨_, if_pos ⟨h0, hle⟩⟩

/-- The lender's and Alice's exit, a day apart. -/
def exits : List Exit :=
  [{ env := env START, ledger := ledger 17280, lender := alice },
   { env := env START, ledger := ledger 34560, lender := lender }]

/-- Alice and Bob borrow ten stroops each of a pool of twenty, which accrues once; both repay what
they owe, still ten each. -/
def strandedRun : List Step :=
  [.invoke (env START) (depositCall aliceDeposit),
   .invoke (env START) (depositCall bobDeposit),
   .invoke (env START) (.supplyUsdc lender 20),
   .invoke (env START) (.borrow alice (txidOf aliceDeposit) 10),
   .invoke (env START) (.borrow bob (txidOf bobDeposit) 10),
   .advance (ledger 182000),
   .invoke (env START) (.repay alice (txidOf aliceDeposit) 10),
   .invoke (env START) (.repay bob (txidOf bobDeposit) 10)]

end Demo

end Writz.Lend

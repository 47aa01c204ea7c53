import Writz.Lend.Proofs.Indexes
import Writz.Lend.Deployment
import Writz.Util.IndexedDebt

/-!
# Proofs: the drift of `total_borrowed`

`total_borrowed` and the positions' debts are grown by separate floors. Measured in units of the
borrow index, an accrual lowers the total by less than one part in `INDEX_ONE`, and bringing a
position up to date lowers its debt by less than that; everything else moves both alike.
-/

namespace Writz.Lend

open IndexedDebt

variable {τ ρ : Type}

/-- The units a position owes. -/
def owedUnits (pos : Position) : ℚ := units pos.usdcDebt pos.debtIndex

/-- How far the total is ahead of the positions, in units. -/
def drift (w : World τ ρ) : ℚ :=
  units (getProtocol w).totalBorrowed (getProtocol w).borrowIndex - Store.sum owedUnits w.positions

/-- An accrual in which the borrow index grew. -/
def grewIndex (t : Runs.Transition (World τ ρ) (Label τ ρ)) : Bool :=
  decide ((getProtocol t.pre).borrowIndex < (getProtocol t.post).borrowIndex)

/-- A call that brings a position with non-zero debt up to date. -/
def touchesDebt (w : World τ ρ) (c : Call) : Bool :=
  c.touches.any fun txid => (w.positions.lookup txid).any fun pos => decide (pos.usdcDebt ≠ 0)

/-- A successful borrow, repayment or liquidation on a position with non-zero debt. -/
def touchedDebt (H : Host τ ρ) (t : Runs.Transition (World τ ρ) (Label τ ρ)) : Bool :=
  match t.label with
  | .invoke env c => (exec .exact H env t.pre c).isOk && touchesDebt t.pre c
  | _ => false

/-- One part in `INDEX_ONE` for each of `n` roundings. -/
def parts (n : Nat) : ℚ := n / INDEX_ONE

theorem parts_add (m n : Nat) : parts (m + n) = parts m + parts n := by
  unfold parts
  push_cast
  rw [add_div]

theorem parts_nonneg (n : Nat) : 0 ≤ parts n := by
  unfold parts INDEX_ONE
  positivity

/-- One part of an index that is at least `INDEX_ONE`. -/
theorem one_div_le_parts {i : Int} (h : INDEX_ONE ≤ i) : 1 / (i : ℚ) ≤ parts 1 := by
  have hone : (0 : ℚ) < (INDEX_ONE : Int) := by exact_mod_cast INDEX_ONE_pos
  have hi : ((INDEX_ONE : Int) : ℚ) ≤ i := by exact_mod_cast h
  unfold parts
  push_cast
  exact one_div_le_one_div_of_le hone hi

/-! ## One accrual -/

theorem borrowRateBp_nonpos {borrowed assets : Int} (hb : borrowed ≤ 0) (ha : 0 ≤ assets) :
    borrowRateBp .exact borrowed assets ≤ 0 := by
  have hdiv : ∀ {x k : Int}, x ≤ 0 → 0 ≤ k → x.tdiv k ≤ 0 := by
    intro x k hx hk
    have h := Int.tdiv_nonneg (neg_nonneg.mpr hx) hk
    rw [Int.neg_tdiv] at h
    omega
  have hu : utilizationBp .exact borrowed assets ≤ 0 :=
    (min_le_left _ _).trans (hdiv (Int.mul_nonpos_of_nonpos_of_nonneg hb (by decide)) ha)
  unfold borrowRateBp
  dsimp only
  split_ifs with h0 hopt
  · exact le_rfl
  · exact hdiv (Int.mul_nonpos_of_nonpos_of_nonneg hu (by decide)) (by decide)
  · simp only [U_OPTIMAL_BP] at hopt
    omega

/-- The index moves only where interest is charged. -/
theorem growIndex_of_not_pos {p : ProtocolState} {elapsed : Int} (h : p.Sound)
    (hb : p.totalBorrowed ≤ 0) :
    growIndex .exact p.borrowIndex
      (borrowRateBp .exact p.totalBorrowed (totalSupplyAssets .exact p p.supplyIndex)) elapsed
        = p.borrowIndex :=
  if_pos (.inr (borrowRateBp_nonpos hb h.assets_nonneg))

theorem accrueGlobal_borrowIndex_of_not_pos {p : ProtocolState} (h : p.Sound) (current : Nat)
    (hb : p.totalBorrowed ≤ 0) : (accrueGlobal .exact current p).borrowIndex = p.borrowIndex := by
  have hg : ∀ elapsed : Int, growIndex .exact p.borrowIndex
      (borrowRateBp .exact p.totalBorrowed (totalSupplyAssets .exact p p.supplyIndex)) elapsed
        = p.borrowIndex := fun _ => growIndex_of_not_pos h hb
  unfold accrueGlobal project
  dsimp only
  split_ifs <;> first | rfl | exact hg _

/-- What an accrual does to the units of the total. -/
theorem accrueGlobal_units {p : ProtocolState} (h : p.Sound) (hone : INDEX_ONE ≤ p.borrowIndex)
    (current : Nat) :
    units (accrueGlobal .exact current p).totalBorrowed (accrueGlobal .exact current p).borrowIndex
        ≤ units p.totalBorrowed p.borrowIndex ∧
      units p.totalBorrowed p.borrowIndex ≤
        units (accrueGlobal .exact current p).totalBorrowed
          (accrueGlobal .exact current p).borrowIndex
          + parts (if p.borrowIndex < (accrueGlobal .exact current p).borrowIndex then 1 else 0) := by
  have ha := accrueGlobal_accrual .exact current p
  have hle := accrueGlobal_borrowIndex_le h.borrowIndex_pos.le current
  have hsame := accrueGlobal_borrowIndex_of_not_pos h current
  generalize accrueGlobal .exact current p = q at *
  cases ha with
  | @idle index current hidle hpos =>
    have heq : index = p.borrowIndex := by
      rcases hidle with hb | hb
      · exact hsame hb
      · exact le_antisymm hb hle
    subst heq
    exact ⟨le_rfl, le_add_of_nonneg_right (parts_nonneg _)⟩
  | @grow index current hb hi =>
    obtain ⟨h₁, h₂⟩ := units_accrue hb.le h.borrowIndex_pos hi.le
    dsimp only at hi ⊢
    rw [if_pos hi]
    exact ⟨h₁, h₂.le.trans (by
      have := one_div_le_parts (hone.trans hi.le)
      simp only [Arith.exact_add, accruedDelta, Arith.exact_mul]
      linarith)⟩

/-! ## One position -/

/-- What bringing a position up to date does to the units it owes. -/
theorem accruedDebt_units {pos : Position} {index : Int} (hd : 0 ≤ pos.usdcDebt)
    (hi : 0 < pos.debtIndex) (hone : INDEX_ONE ≤ index) :
    units (accruedDebt .exact pos index) index ≤ owedUnits pos ∧
      owedUnits pos ≤ units (accruedDebt .exact pos index) index
        + parts (if pos.usdcDebt ≠ 0 then 1 else 0) := by
  unfold accruedDebt
  rcases hd.eq_or_lt with hz | hpos
  · rw [if_neg (by omega), ← hz]
    simp [owedUnits, ← hz, parts]
  · rw [if_pos ⟨hpos, hi⟩, if_pos hpos.ne']
    obtain ⟨h₁, h₂⟩ := units_grow hd hi (INDEX_ONE_pos.trans_le hone)
    exact ⟨h₁, h₂.le.trans (by
      have := one_div_le_parts hone
      simp only [Arith.exact_mul]
      linarith)⟩

section

variable {H : Host τ ρ} {env : Env} {w w' : World τ ρ}

/-- Writing a position moves the units owed by the difference. -/
theorem sum_insert_owedUnits {txid : BytesN 32} {pos : Position}
    (h : w.positions.lookup txid = some pos) (pos' : Position) :
    Store.sum owedUnits (w.positions.insert txid pos')
      = Store.sum owedUnits w.positions - owedUnits pos + owedUnits pos' := by
  have := Store.sum_insert owedUnits w.positions txid pos'
  rw [h] at this
  simp only [Option.elim_some] at this
  linarith

theorem touchesDebt_of_lookup {c : Call} {txid : BytesN 32} {pos : Position}
    (hc : c.touches = some txid) (h : w.positions.lookup txid = some pos) :
    (if touchesDebt w c then 1 else 0) = if pos.usdcDebt ≠ 0 then 1 else 0 := by
  simp [touchesDebt, hc, h]

/-- The units of the total, brought up to date. -/
def projectedUnits (w : World τ ρ) : ℚ :=
  units (projected .exact w).totalBorrowed (projected .exact w).borrowIndex

/-- The roundings of one accrual: one if the index grows. -/
def accrualParts (w : World τ ρ) : ℚ :=
  parts (if (getProtocol w).borrowIndex < (projected .exact w).borrowIndex then 1 else 0)

theorem projectedUnits_mem (hb : Books .exact w) (hi : Indexed w) :
    projectedUnits w ≤ units (getProtocol w).totalBorrowed (getProtocol w).borrowIndex ∧
      units (getProtocol w).totalBorrowed (getProtocol w).borrowIndex
        ≤ projectedUnits w + accrualParts w :=
  accrueGlobal_units hb.sound hi.one_le w.ledger.sequence

/-- A call that leaves the positions as they are, the total brought up to date. -/
theorem drift_accrued (hb : Books .exact w) (hi : Indexed w) :
    drift w - accrualParts w ≤ projectedUnits w - Store.sum owedUnits w.positions ∧
      projectedUnits w - Store.sum owedUnits w.positions ≤ drift w := by
  obtain ⟨h₁, h₂⟩ := projectedUnits_mem hb hi
  unfold drift
  constructor <;> linarith

/-- A call that brings one position up to date and then adds the same to the total and to its debt,
or takes the same from both. -/
theorem drift_touched {c : Call} {txid : BytesN 32} {pos pos' : Position} {u : ℚ}
    (hb : Books .exact w) (hi : Indexed w) (hc : c.touches = some txid)
    (hpos : w.positions.lookup txid = some pos)
    (hu : u - owedUnits pos' = projectedUnits w
      - units (accruedDebt .exact pos (projected .exact w).borrowIndex)
          (projected .exact w).borrowIndex) :
    drift w - accrualParts w ≤ u - Store.sum owedUnits (w.positions.insert txid pos') ∧
      u - Store.sum owedUnits (w.positions.insert txid pos')
        ≤ drift w + parts (if touchesDebt w c then 1 else 0) := by
  obtain ⟨h₁, h₂⟩ := drift_accrued hb hi
  obtain ⟨hd₁, hd₂⟩ := accruedDebt_units (hb.debt_nonneg _ _ hpos) (hi.debtIndex_mem _ _ hpos).1
    (hi.one_le.trans hi.le_projected)
  rw [sum_insert_owedUnits hpos, touchesDebt_of_lookup hc hpos]
  constructor <;> linarith

/-- What a call does to the drift. -/
theorem Effect.drift {c : Call} (e : Effect .exact H w c w') (hb : Books .exact w)
    (hi : Indexed w) :
    drift w - parts (if (getProtocol w).borrowIndex < (getProtocol w').borrowIndex then 1 else 0)
        ≤ drift w' ∧
      drift w' ≤ drift w + parts (if touchesDebt w c then 1 else 0) := by
  have hnn := parts_nonneg (if touchesDebt w c then 1 else 0)
  have hidle : ∀ d, d = Lend.drift w →
      Lend.drift w - parts (if (getProtocol w).borrowIndex < (getProtocol w).borrowIndex
        then 1 else 0) ≤ d ∧ d ≤ Lend.drift w + parts (if touchesDebt w c then 1 else 0) := by
    intro d hd
    rw [if_neg (lt_irrefl _), hd]
    have := parts_nonneg 0
    constructor <;> linarith
  cases e with
  | deposit hc hnew hcons hdebt =>
    refine hidle _ ?_
    unfold Lend.drift
    dsimp only
    rw [Store.sum_insert_new owedUnits hnew, owedUnits, hdebt, units_zero, add_zero]
    rfl
  | supply | withdraw =>
    obtain ⟨h₁, h₂⟩ := drift_accrued hb hi
    exact ⟨h₁, h₂.trans (le_add_of_nonneg_right hnn)⟩
  | borrow hself hpos hactive havailable ht =>
    refine drift_touched hb hi rfl hpos ?_
    simp only [getProtocol, Option.getD_some, owedUnits, projectedUnits, accruePositionInterest,
      Arith.exact_add, units_add]
    ring
  | repay hself hpos hactive hdebt ht =>
    refine drift_touched hb hi rfl hpos ?_
    simp only [getProtocol, Option.getD_some, owedUnits, projectedUnits, accruePositionInterest,
      Arith.exact_sub, units_sub]
    ring
  | liquidate hself hc hpos hactive ht ht' =>
    refine drift_touched hb hi rfl hpos ?_
    simp only [getProtocol, Option.getD_some, owedUnits, projectedUnits, accruePositionInterest,
      Arith.exact_sub, units_sub, units_zero, sub_zero]
  | heartbeat | configure | psbt => exact hidle _ rfl

/-! ## Runs -/

theorem drift_of_storage (hs : w'.toStorage = w.toStorage) : drift w' = drift w := by
  obtain ⟨now, ledger, he⟩ := getProtocol_of_storage hs
  unfold drift
  rw [he, hs]

/-- One step of a run, counted. -/
theorem drift_step {l : Label τ ρ} (hb : Books .exact w) (hi : Indexed w)
    (hs : step .exact H w l = some w') :
    drift w - parts (if grewIndex ⟨w, l, w'⟩ then 1 else 0) ≤ drift w' ∧
      drift w' ≤ drift w + parts (if touchedDebt H ⟨w, l, w'⟩ then 1 else 0) := by
  have hsame : ∀ n m, drift w' = drift w →
      drift w - parts n ≤ drift w' ∧ drift w' ≤ drift w + parts m := by
    intro n m he
    have := parts_nonneg n
    have := parts_nonneg m
    constructor <;> linarith
  cases l with
  | invoke env c =>
    obtain rfl : invoke .exact H env w c = w' := Option.some.inj hs
    cases he : exec .exact H env w c with
    | error e => exact hsame _ _ (by rw [invoke, he])
    | ok w₁ =>
      have hw : invoke .exact H env w c = w₁ := by rw [invoke, he]
      have h := (exec_effect he).drift hb hi
      rw [hw]
      simpa [grewIndex, touchedDebt, he, Except.isOk, Except.toBool] using h
  | advance l => exact hsame _ _ (drift_of_storage (step_outside hs (by simp)))
  | outside t r => exact hsame _ _ (drift_of_storage (step_outside hs (by simp)))

theorem Deployed.drift_eq (h : Deployed w) : drift w = 0 := by
  obtain ⟨hp, hpos, -⟩ := h.eq
  unfold drift
  rw [getProtocol_eq hp, hpos, Store.sum_empty, units_zero, sub_zero]

/-- Over a run, the drift is bounded by the roundings of each kind. -/
theorem drift_of_run {tr : List (Runs.Transition (World τ ρ) (Label τ ρ))}
    (h : Runs.Run (system .exact H) tr w) :
    -parts (tr.countP grewIndex) ≤ drift w ∧ drift w ≤ parts (tr.countP (touchedDebt H)) := by
  induction h with
  | init h0 =>
    rw [Deployed.drift_eq h0]
    simp [parts]
  | step hr hs ih =>
    have hreach := hr.reachable
    obtain ⟨h₁, h₂⟩ := drift_step (books_of_reachable hreach) (indexed_of_reachable hreach) hs
    rw [List.countP_cons, List.countP_cons, parts_add, parts_add]
    constructor <;> linarith [ih.1, ih.2]

end

end Writz.Lend

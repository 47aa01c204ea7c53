import Writz.Lend.Proofs.Interest
import Writz.Lend.Proofs.Solvency

/-!
# Proofs: no repricing within a ledger

The first call that accrues in a ledger fixes both indexes and all the interest for the interval that
ends there; what the calls before it do is not read by the accrual, and the calls after it accrue
nothing. In `i128` the totals stay small enough for a `u32` number of ledgers to credit all of it.
-/

namespace Writz.Lend

variable {τ ρ : Type}

/-! ## The indexes under saturating arithmetic -/

section

variable {A : Arith}

/-- Both indexes are in range and at least one. -/
structure ProtocolState.Indices (A : Arith) (p : ProtocolState) : Prop where
  borrow_one_le : INDEX_ONE ≤ p.borrowIndex
  supply_one_le : INDEX_ONE ≤ p.supplyIndex
  borrow_fits : A.clamp p.borrowIndex = p.borrowIndex
  supply_fits : A.clamp p.supplyIndex = p.supplyIndex

/-- Adding to a value in range does not lower it. -/
theorem le_add_of_fits {x n : Int} (hx : A.clamp x = x) (hn : 0 ≤ n) : x ≤ A.add x n := by
  have h := A.mono x (x + n) (by omega)
  rwa [hx] at h

theorem growIndex_mem {index rate elapsed : Int} (h0 : 0 ≤ index) (hf : A.clamp index = index) :
    index ≤ growIndex A index rate elapsed ∧
      A.clamp (growIndex A index rate elapsed) = growIndex A index rate elapsed := by
  unfold growIndex
  split_ifs with hg
  · exact ⟨le_rfl, hf⟩
  · have hinterest : 0 ≤ (A.mul (A.mul index rate) elapsed).tdiv (A.mul LEDGERS_PER_YEAR BP_SCALE) :=
      Int.tdiv_nonneg (A.mul_nonneg (A.mul_nonneg h0 (by omega)) (by omega))
        (A.mul_nonneg (by decide) (by decide))
    unfold accrueInterest
    split_ifs
    · exact ⟨le_rfl, hf⟩
    · exact ⟨le_add_of_fits hf hinterest, A.clamp_clamp _⟩

theorem project_borrowIndex_mem {p : ProtocolState} (h : p.Indices A) (current : Nat) :
    p.borrowIndex ≤ (project A p current).borrowIndex ∧
      A.clamp (project A p current).borrowIndex = (project A p current).borrowIndex := by
  have h0 : 0 ≤ p.borrowIndex := INDEX_ONE_pos.le.trans h.borrow_one_le
  unfold project
  dsimp only
  split_ifs
  · exact growIndex_mem h0 h.borrow_fits
  · exact growIndex_mem h0 h.borrow_fits
  · exact growIndex_mem h0 h.borrow_fits
  · exact ⟨le_rfl, h.borrow_fits⟩

theorem grownSupplyIndex_mem {p : ProtocolState} (h : p.Indices A) {delta : Int} (hd : 0 ≤ delta) :
    p.supplyIndex ≤ grownSupplyIndex A p delta ∧
      A.clamp (grownSupplyIndex A p delta) = grownSupplyIndex A p delta := by
  have hfee := (accruedFee_mem (A := A) hd).2
  unfold grownSupplyIndex
  split_ifs with hs
  · exact ⟨le_add_of_fits h.supply_fits
      (Int.tdiv_nonneg (A.mul_nonneg (by omega) (by decide)) hs.le), A.clamp_clamp _⟩
  · exact ⟨le_rfl, h.supply_fits⟩

/-- An accrual raises the indexes and keeps them in range. -/
theorem accrueGlobal_indices {p : ProtocolState} (h : p.Indices A) (current : Nat) :
    p.borrowIndex ≤ (accrueGlobal A current p).borrowIndex ∧
      p.supplyIndex ≤ (accrueGlobal A current p).supplyIndex ∧
      (accrueGlobal A current p).Indices A := by
  obtain ⟨hle, hfits⟩ := project_borrowIndex_mem h current
  have hpos : 0 < p.borrowIndex := INDEX_ONE_pos.trans_le h.borrow_one_le
  by_cases hg : 0 < p.totalBorrowed ∧ p.borrowIndex < (project A p current).borrowIndex
  · obtain ⟨hs, hsfits⟩ := grownSupplyIndex_mem h (interestAt_nonneg (A := A) hpos current)
    rw [accrueGlobal_eq_grown hg]
    exact ⟨hle, hs, h.borrow_one_le.trans hle, h.supply_one_le.trans hs, hfits, hsfits⟩
  · rw [accrueGlobal_eq_idle hg]
    exact ⟨hle, le_rfl, h.borrow_one_le.trans hle, h.supply_one_le, hfits, h.supply_fits⟩

/-- A second accrual in one ledger changes nothing. -/
theorem accrueGlobal_of_current {p : ProtocolState} {current : Nat} (h : p.indexLedger = current) :
    accrueGlobal A current p = p := by
  subst h
  unfold accrueGlobal project
  simp

end

/-! ## What calls do to the indexes -/

section

variable {A : Arith} {H : Host τ ρ} {env : Env} {w w' : World τ ρ}

/-- A call that accrues leaves the indexes its accrual writes; any other leaves the accounts as they
were, but for the keeper's heartbeat. -/
theorem Effect.indexes {c : Call} (e : Effect A H w c w') :
    w'.ledger = w.ledger ∧
      if c.accrues then
        (getProtocol w').borrowIndex = (projected A w).borrowIndex ∧
          (getProtocol w').supplyIndex = (projected A w).supplyIndex ∧
          (getProtocol w').indexLedger = w.ledger.sequence
      else
        ∃ now, getProtocol w' = { getProtocol w with lastKeeperHeartbeat := now } := by
  cases e with
  | supply | withdraw | borrow | repay | liquidate => exact ⟨rfl, rfl, rfl, rfl⟩
  | configure hcall =>
    refine ⟨rfl, ?_⟩
    have ha : c.accrues = false := by cases c <;> first | rfl | cases hcall
    rw [ha]
    exact ⟨_, rfl⟩
  | deposit | heartbeat | psbt => exact ⟨rfl, _, rfl⟩

theorem indices_of_heartbeat {p : ProtocolState} (h : p.Indices A) (now ledger : Nat) :
    ({ p with lastKeeperHeartbeat := now, indexLedger := ledger } : ProtocolState).Indices A :=
  ⟨h.borrow_one_le, h.supply_one_le, h.borrow_fits, h.supply_fits⟩

theorem Deployed.indices (h : Deployed w) (hA : A.clamp INDEX_ONE = INDEX_ONE) :
    (getProtocol w).Indices A := by
  rw [getProtocol_eq h.eq.1]
  exact ⟨le_rfl, le_rfl, hA, hA⟩

theorem Effect.indices {c : Call} (e : Effect A H w c w') (h : (getProtocol w).Indices A) :
    (getProtocol w).borrowIndex ≤ (getProtocol w').borrowIndex ∧
      (getProtocol w).supplyIndex ≤ (getProtocol w').supplyIndex ∧ (getProtocol w').Indices A := by
  obtain ⟨hb, hsup, hi⟩ := accrueGlobal_indices h w.ledger.sequence
  obtain ⟨-, hc⟩ := e.indexes
  split_ifs at hc
  · obtain ⟨hb', hs', -⟩ := hc
    rw [hb', hs']
    exact ⟨hb, hsup, hb'.symm ▸ hi.borrow_one_le, hs'.symm ▸ hi.supply_one_le,
      by rw [hb']; exact hi.borrow_fits, by rw [hs']; exact hi.supply_fits⟩
  · obtain ⟨now, hp⟩ := hc
    rw [hp]
    exact ⟨le_rfl, le_rfl, indices_of_heartbeat h _ _⟩

/-- A step raises the indexes and keeps them in range. -/
theorem indices_step (h : (getProtocol w).Indices A) {l : Label τ ρ} (hs : step A H w l = some w') :
    (getProtocol w).borrowIndex ≤ (getProtocol w').borrowIndex ∧
      (getProtocol w).supplyIndex ≤ (getProtocol w').supplyIndex ∧ (getProtocol w').Indices A := by
  rcases step_cases hs with ⟨env, c, rfl, he, -⟩ | ⟨hst, -⟩
  · exact he.indices h
  · obtain ⟨now, ledger, hp⟩ := getProtocol_of_storage hst
    rw [hp]
    exact ⟨le_rfl, le_rfl, indices_of_heartbeat h _ _⟩

theorem step_sequence_le {l : Label τ ρ} (hs : step A H w l = some w') :
    w.ledger.sequence ≤ w'.ledger.sequence := by
  cases l with
  | invoke env c =>
    cases hs
    rcases invoke_cases A H env w c with he | he
    · rw [he]
    · exact (congrArg Ledger.sequence he.indexes.1).ge
  | advance l =>
    simp only [step] at hs
    split_ifs at hs with hle
    cases hs
    exact hle.1
  | outside t r =>
    simp only [step] at hs
    split_ifs at hs
    cases hs
    exact le_rfl

theorem indices_of_reachable (hA : A.clamp INDEX_ONE = INDEX_ONE)
    (h : Runs.Reachable (system A H) w) : (getProtocol w).Indices A :=
  h.invariant (I := fun w => (getProtocol w).Indices A) (fun _ h0 => Deployed.indices h0 hA)
    fun _ _ _ hi _ hs => (indices_step hi hs).2.2

/-- Along the continuation of a run the indexes only rise. -/
theorem indexes_le_of_after {s : World τ ρ} {P : World τ ρ → Label τ ρ → Prop}
    (h : (getProtocol s).Indices A) (hrun : Runs.Via ((system A H).after s) P w) :
    (getProtocol s).borrowIndex ≤ (getProtocol w).borrowIndex ∧
      (getProtocol s).supplyIndex ≤ (getProtocol w).supplyIndex ∧ (getProtocol w).Indices A := by
  refine hrun.invariant (I := fun w => (getProtocol s).borrowIndex ≤ (getProtocol w).borrowIndex ∧
    (getProtocol s).supplyIndex ≤ (getProtocol w).supplyIndex ∧ (getProtocol w).Indices A) ?_ ?_
  · rintro w rfl
    exact ⟨le_rfl, le_rfl, h⟩
  · rintro w l w' ⟨hb, hs, hi⟩ - hstep
    obtain ⟨hb', hs', hi'⟩ := indices_step hi hstep
    exact ⟨hb.trans hb', hs.trans hs', hi'⟩

end

/-! ## The totals under saturating arithmetic -/

/-- No `i128` product divided by an index is larger. -/
def MAX_ACCRUAL : Int := 170141183460469231731

theorem tdiv_le_maxAccrual {x i : Int} (hx : 0 ≤ x) (hmax : x ≤ I128_MAX) (hi : INDEX_ONE ≤ i) :
    x.tdiv i ≤ MAX_ACCRUAL := by
  have hle : x.tdiv i * i ≤ x := tdiv_mul_le hx
  by_contra hlt
  have hone : (MAX_ACCRUAL + 1) * INDEX_ONE ≤ x.tdiv i * i :=
    Int.mul_le_mul (by omega) hi (by decide) (Int.tdiv_nonneg hx (INDEX_ONE_pos.le.trans hi))
  have hover : I128_MAX < (MAX_ACCRUAL + 1) * INDEX_ONE := by decide
  omega

theorem clamp_i128_le {x : Int} : Arith.i128.clamp x ≤ I128_MAX := by
  change max I128_MIN (min x I128_MAX) ≤ I128_MAX
  simp only [I128_MIN, I128_MAX]
  omega

/-- What is at most a bound that is not negative still is after saturating. -/
theorem clamp_i128_le_of_le {x b : Int} (hb : 0 ≤ b) (h : x ≤ b) : Arith.i128.clamp x ≤ b := by
  change max I128_MIN (min x I128_MAX) ≤ b
  simp only [I128_MIN, I128_MAX]
  omega

theorem clamp_i128_eq {x : Int} (h0 : 0 ≤ x) (h : x ≤ I128_MAX) : Arith.i128.clamp x = x :=
  Arith.i128.clamp_fixed x I128_MAX h0 h (by decide)

theorem interestAt_le {p : ProtocolState} (hp : p.Indices .i128) (current : Nat) :
    interestAt .i128 p current ≤ MAX_ACCRUAL := by
  unfold interestAt
  split_ifs with h
  · exact tdiv_le_maxAccrual (Arith.i128.mul_nonneg h.1.le (by omega)) clamp_i128_le
      hp.borrow_one_le
  · decide

/-- What is lent and what is reserved grow by one largest accrual a ledger at most. -/
structure Bounded (w : World τ ρ) : Prop where
  indices : (getProtocol w).Indices .i128
  index_le : (getProtocol w).indexLedger ≤ w.ledger.sequence
  borrowed_le : (getProtocol w).totalBorrowed ≤ ((getProtocol w).indexLedger + 1) * MAX_ACCRUAL
  reserve_nonneg : 0 ≤ (getProtocol w).reserveUsdc
  reserve_le : (getProtocol w).reserveUsdc ≤ ((getProtocol w).indexLedger + 1) * MAX_ACCRUAL

section

variable {H : Host τ ρ} {env : Env} {w w' : World τ ρ}

/-- The accrual of a call keeps within the bounds. -/
theorem Bounded.projected (h : Bounded w) :
    (projected .i128 w).totalBorrowed ≤ (w.ledger.sequence + 1) * MAX_ACCRUAL ∧
      0 ≤ (Lend.projected .i128 w).reserveUsdc ∧
      (Lend.projected .i128 w).reserveUsdc ≤ (w.ledger.sequence + 1) * MAX_ACCRUAL := by
  have hpos : 0 < (getProtocol w).borrowIndex := INDEX_ONE_pos.trans_le h.indices.borrow_one_le
  have hb := h.borrowed_le
  have hr := h.reserve_le
  have hle := h.index_le
  have hn := h.reserve_nonneg
  by_cases hg : 0 < (getProtocol w).totalBorrowed ∧ (getProtocol w).borrowIndex
      < (project .i128 (getProtocol w) w.ledger.sequence).borrowIndex
  · have hlt : (getProtocol w).indexLedger < w.ledger.sequence := by
      by_contra hge
      have heq := accrueGlobal_of_current (A := .i128) (le_antisymm hle (not_lt.mp hge))
      have := congrArg ProtocolState.borrowIndex heq
      exact absurd this hg.2.ne'
    have hδ := interestAt_nonneg (A := .i128) hpos w.ledger.sequence
    have hδle := interestAt_le h.indices w.ledger.sequence
    obtain ⟨hf0, hf1⟩ := accruedFee_mem (A := .i128) hδ
    have hborrowed := Arith.i128.clamp_le ((getProtocol w).totalBorrowed
      + interestAt .i128 (getProtocol w) w.ledger.sequence) (by omega)
    have hreserve := Arith.i128.clamp_le ((getProtocol w).reserveUsdc
      + accruedFee .i128 (interestAt .i128 (getProtocol w) w.ledger.sequence)) (by omega)
    rw [Lend.projected, accrueGlobal_eq_grown hg]
    simp only [Arith.add, MAX_ACCRUAL] at *
    refine ⟨by omega, Arith.i128.clamp_nonneg (by omega), by omega⟩
  · rw [Lend.projected, accrueGlobal_eq_idle hg]
    simp only [MAX_ACCRUAL] at *
    refine ⟨by omega, hn, by omega⟩

/-- What is lent never exceeds the largest amount of assets there can be, when it is lent. -/
theorem add_le_of_available {p : ProtocolState} {amount : Int} (h0 : 0 ≤ amount)
    (h : amount ≤ availableIn .i128 p) :
    p.totalBorrowed + amount ≤ MAX_ACCRUAL := by
  have hassets : totalSupplyAssets .i128 p p.supplyIndex ≤ MAX_ACCRUAL :=
    (Int.tdiv_le_tdiv INDEX_ONE_pos clamp_i128_le).trans (by decide)
  change amount ≤ max I128_MIN (min (_ - _) I128_MAX) at h
  simp only [I128_MIN, I128_MAX] at h
  omega

theorem Effect.bounded {c : Call} (e : Effect .i128 H w c w') (h : Bounded w) : Bounded w' := by
  obtain ⟨hb, hr0, hr⟩ := h.projected
  have hi := (e.indices h.indices).2.2
  have hbound : 0 ≤ ((w.ledger.sequence : Int) + 1) * MAX_ACCRUAL :=
    Int.mul_nonneg (by omega) (by decide)
  cases e with
  | supply | withdraw => exact ⟨hi, le_rfl, hb, hr0, hr⟩
  | @borrow borrower txid amount pos t ev hself hpos hactive havailable ht =>
    have hamount := H.token.transfer_nonneg ht
    have hlent := add_le_of_available hamount havailable
    refine ⟨hi, le_rfl, clamp_i128_le_of_le hbound (hlent.trans ?_), hr0, hr⟩
    change MAX_ACCRUAL ≤ ((w.ledger.sequence : Int) + 1) * MAX_ACCRUAL
    simp only [MAX_ACCRUAL]
    omega
  | @repay repayer txid amount pos t ev hself hpos hactive hdebt ht =>
    have hamount := H.token.transfer_nonneg ht
    exact ⟨hi, le_rfl, clamp_i128_le_of_le hbound ((sub_le_self _ hamount).trans hb), hr0, hr⟩
  | @liquidate keeper txid config pos t t' now ev hself hc hpos hactive ht ht' =>
    have hdebt := H.token.transfer_nonneg ht
    have hres : ∀ bonus reserve : Int, bonus ≤ reserve → 0 ≤ reserve →
        0 ≤ (if 0 < bonus then reserve - bonus else reserve) ∧
          (if 0 < bonus then reserve - bonus else reserve) ≤ reserve := by
      intro bonus reserve hle h0
      split_ifs <;> omega
    obtain ⟨h0, hle⟩ := hres _ _ (min_le_right _ _) hr0
    exact ⟨hi, le_rfl, clamp_i128_le_of_le hbound ((sub_le_self _ hdebt).trans hb), h0,
      hle.trans hr⟩
  | deposit | heartbeat | configure | psbt =>
    exact ⟨hi, h.index_le, h.borrowed_le, h.reserve_nonneg, h.reserve_le⟩

theorem Bounded.of_storage (h : Bounded w) (hs : w'.toStorage = w.toStorage)
    (hl : w.ledger.sequence ≤ w'.ledger.sequence) : Bounded w' := by
  have hi := h.indices
  cases hp : w.protocol with
  | some p =>
    have he : getProtocol w' = getProtocol w := by
      unfold getProtocol
      rw [show w'.protocol = w.protocol from congrArg Storage.protocol hs, hp]
      rfl
    exact ⟨by rw [he]; exact h.indices, by rw [he]; exact h.index_le.trans hl,
      by rw [he]; exact h.borrowed_le, by rw [he]; exact h.reserve_nonneg,
      by rw [he]; exact h.reserve_le⟩
  | none =>
    have he := getProtocol_eq (w := w') ((congrArg Storage.protocol hs).trans hp)
    have hbound : 0 ≤ ((w'.ledger.sequence : Int) + 1) * MAX_ACCRUAL :=
      Int.mul_nonneg (by omega) (by decide)
    rw [getProtocol_eq hp] at hi
    refine ⟨?_, ?_, ?_, ?_, ?_⟩ <;> rw [he]
    · exact indices_of_heartbeat hi _ _
    · exact hbound
    · exact hbound

theorem Deployed.bounded (h : Deployed w) : Bounded w := by
  have hi : (getProtocol w).Indices .i128 := h.indices (by decide)
  have hbound : 0 ≤ ((w.ledger.sequence : Int) + 1) * MAX_ACCRUAL :=
    Int.mul_nonneg (by omega) (by decide)
  refine ⟨hi, ?_, ?_, ?_, ?_⟩ <;> rw [getProtocol_eq h.eq.1]
  · exact hbound
  · exact hbound

theorem bounded_of_reachable (h : Runs.Reachable (system .i128 H) w) : Bounded w := by
  refine h.invariant (I := Bounded) (fun _ h0 => Deployed.bounded h0) fun w l w' hi _ hs => ?_
  rcases step_cases hs with ⟨env, c, rfl, he, -⟩ | ⟨hst, -⟩
  · exact he.bounded hi
  · exact hi.of_storage hst (step_sequence_le hs)

/-! ## One ledger -/

/-- A step that closes no ledger. -/
def Label.inLedger : Label τ ρ → Bool
  | .advance _ => false
  | _ => true

theorem interestAt_nonneg_of_indices {p : ProtocolState} (h : p.Indices .i128) (current : Nat) :
    0 ≤ interestAt .i128 p current :=
  interestAt_nonneg (INDEX_ONE_pos.trans_le h.borrow_one_le) current

/-- The fee is 15% of the interest, rounded down. -/
theorem accruedFee_eq {delta : Int} (h0 : 0 ≤ delta) (h : delta ≤ MAX_ACCRUAL) :
    accruedFee .i128 delta = delta * 1500 / 10000 := by
  have hmul : Arith.i128.mul delta PROTOCOL_FEE_BP = delta * 1500 :=
    clamp_i128_eq (Int.mul_nonneg h0 (by decide)) (by
      simp only [MAX_ACCRUAL] at h
      simp only [PROTOCOL_FEE_BP, I128_MAX]
      omega)
  rw [accruedFee, hmul, BP_SCALE, Int.tdiv_eq_ediv_of_nonneg (by omega)]

/-- In a `u32` number of ledgers nothing of the interest is lost to saturation. -/
theorem Bounded.credited (h : Bounded w) (h32 : w.ledger.sequence ≤ U32_MAX) :
    (Lend.projected .i128 w).totalBorrowed - (getProtocol w).totalBorrowed
        = interestAt .i128 (getProtocol w) w.ledger.sequence ∧
      (Lend.projected .i128 w).reserveUsdc - (getProtocol w).reserveUsdc
        = accruedFee .i128 (interestAt .i128 (getProtocol w) w.ledger.sequence) := by
  have hδ := interestAt_nonneg_of_indices h.indices w.ledger.sequence
  have hδle := interestAt_le h.indices w.ledger.sequence
  obtain ⟨hf0, hf1⟩ := accruedFee_mem (A := .i128) hδ
  have hb := h.borrowed_le
  have hr := h.reserve_le
  have hn := h.reserve_nonneg
  have hle := h.index_le
  by_cases hg : 0 < (getProtocol w).totalBorrowed ∧ (getProtocol w).borrowIndex
      < (project .i128 (getProtocol w) w.ledger.sequence).borrowIndex
  · rw [Lend.projected, accrueGlobal_eq_grown hg]
    simp only [Arith.add]
    have hmax : ((w.ledger.sequence : Int) + 2) * MAX_ACCRUAL ≤ I128_MAX := by
      simp only [MAX_ACCRUAL, I128_MAX, U32_MAX] at *
      omega
    simp only [MAX_ACCRUAL] at *
    rw [clamp_i128_eq (by omega) (by omega), clamp_i128_eq (by omega) (by omega)]
    constructor <;> omega
  · have hzero : interestAt .i128 (getProtocol w) w.ledger.sequence = 0 := if_neg hg
    rw [Lend.projected, accrueGlobal_eq_idle hg, hzero, accruedFee_zero]
    constructor <;> exact sub_self _

/-- What a run within the ledger of `s` has done to the accounts: nothing before its first accrual,
and after it the indexes and the interest are the ones computed from `s`. -/
inductive WithinLedger (H : Host τ ρ) (s : World τ ρ)
    (tr : List (Runs.Transition (World τ ρ) (Label τ ρ))) (w : World τ ρ) : Prop where
  | before {now : Nat} (haccruals : total (onSuccess .i128 H accrualOf) tr = 0)
      (hinterest : total (onSuccess .i128 H (interestOf .i128)) tr = 0)
      (hreserve : total (onSuccess .i128 H (reserveOf .i128)) tr = 0)
      (hsame : getProtocol w = { getProtocol s with lastKeeperHeartbeat := now })
  | after (haccruals : 1 ≤ total (onSuccess .i128 H accrualOf) tr)
      (hinterest : total (onSuccess .i128 H (interestOf .i128)) tr
        = interestAt .i128 (getProtocol s) s.ledger.sequence)
      (hreserve : total (onSuccess .i128 H (reserveOf .i128)) tr
        = accruedFee .i128 (interestAt .i128 (getProtocol s) s.ledger.sequence))
      (hborrow : (getProtocol w).borrowIndex = (projected .i128 s).borrowIndex)
      (hsupply : (getProtocol w).supplyIndex = (projected .i128 s).supplyIndex)
      (hledger : (getProtocol w).indexLedger = s.ledger.sequence)

theorem step_ledger_eq {l : Label τ ρ} (hin : l.inLedger = true) (hs : step .i128 H w l = some w') :
    w'.ledger = w.ledger := by
  cases l with
  | invoke env c =>
    cases hs
    rcases invoke_cases .i128 H env w c with he | he
    · rw [he]
    · exact he.indexes.1
  | advance l => cases hin
  | outside t r =>
    simp only [step] at hs
    split_ifs at hs
    cases hs
    rfl

theorem getProtocol_congr (hs : w'.toStorage = w.toStorage) (hl : w'.ledger = w.ledger) :
    getProtocol w' = getProtocol w := by
  unfold getProtocol
  rw [hs, hl]

section

variable {s : World τ ρ} {tr : List (Runs.Transition (World τ ρ) (Label τ ρ))}

/-- The first accrual of the ledger. -/
theorem WithinLedger.first {c : Call} {t : Runs.Transition (World τ ρ) (Label τ ρ)} {now : Nat}
    (hb : Bounded s) (h32 : s.ledger.sequence ≤ U32_MAX) (hl : w.ledger = s.ledger)
    (haccruals : total (onSuccess .i128 H accrualOf) tr = 0)
    (hinterest : total (onSuccess .i128 H (interestOf .i128)) tr = 0)
    (hreserve : total (onSuccess .i128 H (reserveOf .i128)) tr = 0)
    (hsame : getProtocol w = { getProtocol s with lastKeeperHeartbeat := now })
    (ha : c.accrues = true) (hf : ∀ f, onSuccess .i128 H f t = f w c)
    (hindexes : (getProtocol w').borrowIndex = (projected .i128 w).borrowIndex ∧
      (getProtocol w').supplyIndex = (projected .i128 w).supplyIndex ∧
      (getProtocol w').indexLedger = w.ledger.sequence) : WithinLedger H s (t :: tr) w' := by
  obtain ⟨hborrow, hsupply, hledger⟩ := hindexes
  have hproj : projected .i128 w = { projected .i128 s with lastKeeperHeartbeat := now } := by
    rw [projected, hsame, hl]
    rfl
  obtain ⟨hcredit, hfee⟩ := hb.credited h32
  rw [hproj] at hborrow hsupply
  refine .after ?_ ?_ ?_ hborrow hsupply (by rw [hledger, hl])
  · rw [total_cons, haccruals, hf, accrualOf, if_pos ha]
    decide
  · rw [total_cons, hinterest, hf, interestOf, if_pos ha, hproj, hsame, add_zero]
    exact hcredit
  · rw [total_cons, hreserve, hf, reserveOf, if_pos ha, hproj, hsame, add_zero]
    exact hfee

/-- A later one. -/
theorem WithinLedger.later {c : Call} {t : Runs.Transition (World τ ρ) (Label τ ρ)}
    (hl : w.ledger = s.ledger) (haccruals : 1 ≤ total (onSuccess .i128 H accrualOf) tr)
    (hinterest : total (onSuccess .i128 H (interestOf .i128)) tr
      = interestAt .i128 (getProtocol s) s.ledger.sequence)
    (hreserve : total (onSuccess .i128 H (reserveOf .i128)) tr
      = accruedFee .i128 (interestAt .i128 (getProtocol s) s.ledger.sequence))
    (hborrow : (getProtocol w).borrowIndex = (projected .i128 s).borrowIndex)
    (hsupply : (getProtocol w).supplyIndex = (projected .i128 s).supplyIndex)
    (hledger : (getProtocol w).indexLedger = s.ledger.sequence)
    (ha : c.accrues = true) (hf : ∀ f, onSuccess .i128 H f t = f w c)
    (hindexes : (getProtocol w').borrowIndex = (projected .i128 w).borrowIndex ∧
      (getProtocol w').supplyIndex = (projected .i128 w).supplyIndex ∧
      (getProtocol w').indexLedger = w.ledger.sequence) : WithinLedger H s (t :: tr) w' := by
  obtain ⟨hborrow', hsupply', hledger'⟩ := hindexes
  have hproj : projected .i128 w = getProtocol w :=
    accrueGlobal_of_current (by rw [hledger, hl])
  rw [hproj] at hborrow' hsupply'
  refine .after ?_ ?_ ?_ (hborrow'.trans hborrow) (hsupply'.trans hsupply) (by rw [hledger', hl])
  · rw [total_cons, hf, accrualOf, if_pos ha]
    omega
  · rw [total_cons, hinterest, hf, interestOf, if_pos ha, hproj, sub_self, zero_add]
  · rw [total_cons, hreserve, hf, reserveOf, if_pos ha, hproj, sub_self, zero_add]

/-- A step that accrues nothing. -/
theorem WithinLedger.idle (h : WithinLedger H s tr w)
    {t : Runs.Transition (World τ ρ) (Label τ ρ)} {now : Nat}
    (haccruals : onSuccess .i128 H accrualOf t = 0)
    (hinterest : onSuccess .i128 H (interestOf .i128) t = 0)
    (hreserve : onSuccess .i128 H (reserveOf .i128) t = 0)
    (hsame : getProtocol w' = { getProtocol w with lastKeeperHeartbeat := now }) :
    WithinLedger H s (t :: tr) w' := by
  cases h with
  | before h₁ h₂ h₃ hp =>
    have hp' : getProtocol w' = { getProtocol s with lastKeeperHeartbeat := now } := by
      rw [hsame, hp]
    refine .before ?_ ?_ ?_ hp'
    · rw [total_cons, haccruals, h₁, add_zero]
    · rw [total_cons, hinterest, h₂, add_zero]
    · rw [total_cons, hreserve, h₃, add_zero]
  | after h₁ h₂ h₃ hb hs hl =>
    refine .after ?_ ?_ ?_ ?_ ?_ ?_
    · rw [total_cons, haccruals, zero_add]
      exact h₁
    · rw [total_cons, hinterest, zero_add, h₂]
    · rw [total_cons, hreserve, zero_add, h₃]
    · rw [hsame]
      exact hb
    · rw [hsame]
      exact hs
    · rw [hsame]
      exact hl

theorem WithinLedger.step (hb : Bounded s) (h32 : s.ledger.sequence ≤ U32_MAX)
    (hl : w.ledger = s.ledger) (h : WithinLedger H s tr w) {l : Label τ ρ}
    (hin : l.inLedger = true) (hs : step .i128 H w l = some w') :
    WithinLedger H s (⟨w, l, w'⟩ :: tr) w' := by
  rcases step_cases hs with ⟨env, c, rfl, e, hf⟩ | ⟨hst, hf⟩
  · obtain ⟨-, hc⟩ := e.indexes
    split_ifs at hc with ha
    · cases h with
      | before h₁ h₂ h₃ hp => exact .first hb h32 hl h₁ h₂ h₃ hp ha hf hc
      | after h₁ h₂ h₃ hbor hsup hled => exact .later hl h₁ h₂ h₃ hbor hsup hled ha hf hc
    · obtain ⟨now, hp⟩ := hc
      refine h.idle ?_ ?_ ?_ hp
      · rw [hf, accrualOf, if_neg ha]
      · rw [hf, interestOf, if_neg ha]
      · rw [hf, reserveOf, if_neg ha]
  · exact h.idle (hf _) (hf _) (hf _) (getProtocol_congr hst (step_ledger_eq hin hs))

theorem withinLedger_of_run (hb : Bounded s) (h32 : s.ledger.sequence ≤ U32_MAX)
    (h : Runs.Run ((system .i128 H).after s) tr w) (hin : ∀ t ∈ tr, t.label.inLedger = true) :
    w.ledger = s.ledger ∧ WithinLedger H s tr w := by
  induction h with
  | init h0 =>
    cases h0
    exact ⟨rfl, .before rfl rfl rfl rfl⟩
  | step _ hs ih =>
    obtain ⟨hl, h⟩ := ih fun t ht => hin t (List.mem_cons_of_mem _ ht)
    have hlabel := hin _ List.mem_cons_self
    exact ⟨(step_ledger_eq hlabel hs).trans hl, h.step hb h32 hl hlabel hs⟩

end

/-- Without loans an accrual moves no index. -/
theorem project_of_no_loans {p : ProtocolState} (h : p.totalBorrowed = 0) (current : Nat) :
    (project .i128 p current).borrowIndex = p.borrowIndex ∧
      (project .i128 p current).supplyIndex = p.supplyIndex ∧ interestAt .i128 p current = 0 := by
  have hrate : borrowRateBp .i128 p.totalBorrowed (totalSupplyAssets .i128 p p.supplyIndex) = 0 :=
    if_pos (.inr h)
  refine ⟨?_, ?_, if_neg fun hg => absurd h hg.1.ne'⟩
  · unfold project
    dsimp only
    rw [hrate]
    split_ifs <;> first | exact if_pos (.inr le_rfl) | rfl
  · unfold project
    dsimp only
    split_ifs with he hg <;> first | exact absurd h hg.1.ne' | rfl

/-- What an accrual in a later ledger computes does not depend on the ledger having advanced. -/
theorem project_of_advance {s s₀ : World τ ρ} {l : Ledger} (hs : step .i128 H s (.advance l) = some s₀) :
    s₀.ledger = l ∧
      (projected .i128 s₀).borrowIndex = (project .i128 (getProtocol s) l.sequence).borrowIndex ∧
      (projected .i128 s₀).supplyIndex = (project .i128 (getProtocol s) l.sequence).supplyIndex ∧
      interestAt .i128 (getProtocol s₀) l.sequence = interestAt .i128 (getProtocol s) l.sequence := by
  simp only [step] at hs
  split_ifs at hs
  cases hs
  refine ⟨rfl, ?_⟩
  cases hp : s.protocol with
  | some p =>
    have he : getProtocol { s with ledger := l } = getProtocol s := by
      simp only [getProtocol, hp, Option.getD_some]
    rw [projected, he]
    exact ⟨rfl, rfl, rfl⟩
  | none =>
    have h₀ := getProtocol_eq (w := { s with ledger := l }) hp
    have h₁ := getProtocol_eq hp
    obtain ⟨hb₀, hs₀, hi₀⟩ := project_of_no_loans (p := getProtocol { s with ledger := l })
      (by rw [h₀]) l.sequence
    obtain ⟨hb₁, hs₁, hi₁⟩ := project_of_no_loans (p := getProtocol s) (by rw [h₁]) l.sequence
    refine ⟨?_, ?_, hi₀.trans hi₁.symm⟩
    · rw [hb₁, h₁]
      exact hb₀.trans (by rw [h₀])
    · rw [hs₁, h₁]
      exact hs₀.trans (by rw [h₀])

/-- The supply index takes the interest but for the fee. -/
theorem project_supplyIndex {p : ProtocolState} (h : p.Indices .i128) (current : Nat) :
    (project .i128 p current).supplyIndex = grownSupplyIndex .i128 p (interestAt .i128 p current) := by
  change (accrueGlobal .i128 current p).supplyIndex = _
  by_cases hg : 0 < p.totalBorrowed ∧ p.borrowIndex < (project .i128 p current).borrowIndex
  · rw [accrueGlobal_eq_grown hg]
  · have hzero : interestAt .i128 p current = 0 := if_neg hg
    rw [accrueGlobal_eq_idle hg, hzero, grownSupplyIndex, accruedFee_zero]
    simp [Arith.mul, Arith.add, Arith.i128.clamp_zero, h.supply_fits]

/-- What the calls of one ledger, after `s`, have done to the indexes and the interest. -/
structure PricedFrom (H : Host τ ρ) (s : World τ ρ) (ledger : Nat)
    (tr : List (Runs.Transition (World τ ρ) (Label τ ρ))) (w : World τ ρ) : Prop where
  borrowIndex : (getProtocol w).borrowIndex = (project .i128 (getProtocol s) ledger).borrowIndex
  supplyIndex : (getProtocol w).supplyIndex = (project .i128 (getProtocol s) ledger).supplyIndex
  interest : total (onSuccess .i128 H (interestOf .i128)) tr
    = interestAt .i128 (getProtocol s) ledger
  toReserve : total (onSuccess .i128 H (reserveOf .i128)) tr
    = interestAt .i128 (getProtocol s) ledger * 1500 / 10000
  toLenders : (getProtocol w).supplyIndex
    = grownSupplyIndex .i128 (getProtocol s) (interestAt .i128 (getProtocol s) ledger)

theorem pricedFrom_of_run {s s₀ : World τ ρ} {l : Ledger}
    {tr : List (Runs.Transition (World τ ρ) (Label τ ρ))} (hr : Runs.Reachable (system .i128 H) s)
    (hs : step .i128 H s (.advance l) = some s₀) (h32 : l.sequence ≤ U32_MAX)
    (h : Runs.Run ((system .i128 H).after s₀) tr w) (hin : ∀ t ∈ tr, t.label.inLedger = true)
    (haccruals : 1 ≤ total (onSuccess .i128 H accrualOf) tr) : PricedFrom H s l.sequence tr w := by
  have hindices := (bounded_of_reachable hr).indices
  obtain ⟨hl, hborrow, hsupply, hinterest⟩ := project_of_advance hs
  obtain ⟨-, hwithin⟩ := withinLedger_of_run (bounded_of_reachable (hr.step (a := .advance l) trivial hs))
    (by rw [hl]; exact h32) h hin
  cases hwithin with
  | before hzero => omega
  | after _ h₂ h₃ hb hsup =>
    rw [hl, hinterest] at h₂ h₃
    rw [accruedFee_eq (interestAt_nonneg_of_indices hindices _) (interestAt_le hindices _)] at h₃
    exact ⟨hb.trans hborrow, hsup.trans hsupply, h₂, h₃,
      (hsup.trans hsupply).trans (project_supplyIndex hindices _)⟩

/-- No repricing: whichever calls run in a ledger, the first accrual leaves the indexes and charges
the interest that the state before the ledger determines; and no index ever falls. -/
theorem no_repricing_in_ledger (H : Host τ ρ) :
    (∀ s s₀ l, Runs.Reachable (system .i128 H) s → step .i128 H s (.advance l) = some s₀ →
      l.sequence ≤ U32_MAX → (getProtocol s).indexLedger < l.sequence →
        ∀ tr₁ w₁ tr₂ w₂, Runs.Run ((system .i128 H).after s₀) tr₁ w₁ →
          Runs.Run ((system .i128 H).after s₀) tr₂ w₂ →
          (∀ t ∈ tr₁, t.label.inLedger = true) → (∀ t ∈ tr₂, t.label.inLedger = true) →
          1 ≤ total (onSuccess .i128 H accrualOf) tr₁ →
          1 ≤ total (onSuccess .i128 H accrualOf) tr₂ →
            ((getProtocol w₁).borrowIndex = (getProtocol w₂).borrowIndex ∧
              (getProtocol w₁).supplyIndex = (getProtocol w₂).supplyIndex) ∧
            PricedFrom H s l.sequence tr₁ w₁ ∧ PricedFrom H s l.sequence tr₂ w₂) ∧
      ∀ s w, Runs.Reachable (system .i128 H) s → Runs.Reachable ((system .i128 H).after s) w →
        (1000000000000000000 ≤ (getProtocol s).borrowIndex ∧
          (getProtocol s).borrowIndex ≤ (getProtocol w).borrowIndex) ∧
        1000000000000000000 ≤ (getProtocol s).supplyIndex ∧
          (getProtocol s).supplyIndex ≤ (getProtocol w).supplyIndex := by
  constructor
  · intro s s₀ l hr hs h32 _ tr₁ w₁ tr₂ w₂ h₁ h₂ hin₁ hin₂ ha₁ ha₂
    have hp₁ := pricedFrom_of_run hr hs h32 h₁ hin₁ ha₁
    have hp₂ := pricedFrom_of_run hr hs h32 h₂ hin₂ ha₂
    exact ⟨⟨hp₁.borrowIndex.trans hp₂.borrowIndex.symm,
      hp₁.supplyIndex.trans hp₂.supplyIndex.symm⟩, hp₁, hp₂⟩
  · intro s w hr hw
    have hi := indices_of_reachable (A := .i128) (by decide) hr
    obtain ⟨hb, hsup, -⟩ := indexes_le_of_after hi hw
    exact ⟨⟨hi.borrow_one_le, hb⟩, hi.supply_one_le, hsup⟩

end

namespace Demo

/-- Alice borrows the whole pool. -/
def lentSteps : List Step :=
  [.invoke (env START) (depositCall aliceDeposit),
   .invoke (env START) (.supplyUsdc lender 1000),
   .invoke (env START) (.borrow alice (txidOf aliceDeposit) 1000)]

/-- Two ways to go on in a later ledger: a supply; or most of the debt repaid before it. -/
def suppliedSteps : List Step := [.invoke (env START) (.supplyUsdc bob 500)]

def repaidSteps : List Step :=
  [.invoke (env START) (.repay alice (txidOf aliceDeposit) 900),
   .invoke (env START) (.supplyUsdc bob 500)]

end Demo

/-- Interest is charged, and it does not matter that most of the debt is repaid first. -/
theorem no_repricing_in_ledger_repaid :
    ∃ s w₁ w₂ : Demo.State,
      (getProtocol s).borrowIndex < (project .i128 (getProtocol s) 183000).borrowIndex ∧
      (getProtocol w₁).totalBorrowed ≠ (getProtocol w₂).totalBorrowed ∧
      (getProtocol w₁).borrowIndex = (getProtocol w₂).borrowIndex ∧
      (getProtocol w₁).borrowIndex = (project .i128 (getProtocol s) 183000).borrowIndex ∧
      (getProtocol s).borrowIndex ≤ (getProtocol w₁).borrowIndex := by
  have hrun : ((system .i128 (Demo.host [Demo.aliceDeposit] 900000)).replay Demo.world
      Demo.lentSteps).any (fun s =>
        (step .i128 (Demo.host [Demo.aliceDeposit] 900000) s (.advance (Demo.ledger 182000))).any
          fun s₀ => (((system .i128 (Demo.host [Demo.aliceDeposit] 900000)).after s₀).record s₀
            Demo.suppliedSteps).any fun r₁ =>
            (((system .i128 (Demo.host [Demo.aliceDeposit] 900000)).after s₀).record s₀
              Demo.repaidSteps).any fun r₂ => decide
                ((getProtocol s).borrowIndex < (project .i128 (getProtocol s) 183000).borrowIndex
                  ∧ (getProtocol r₁.2).totalBorrowed ≠ (getProtocol r₂.2).totalBorrowed
                  ∧ (getProtocol s).indexLedger < (Demo.ledger 182000).sequence
                  ∧ (∀ t ∈ r₁.1, t.label.inLedger = true) ∧ (∀ t ∈ r₂.1, t.label.inLedger = true)
                  ∧ 1 ≤ total (onSuccess .i128 (Demo.host [Demo.aliceDeposit] 900000) accrualOf) r₁.1
                  ∧ 1 ≤ total (onSuccess .i128 (Demo.host [Demo.aliceDeposit] 900000) accrualOf)
                    r₂.1)) = true := by
    decide +kernel
  obtain ⟨s, hs, hrun⟩ := (Option.any_eq_true _ _).mp hrun
  obtain ⟨s₀, hs₀, hrun⟩ := (Option.any_eq_true _ _).mp hrun
  obtain ⟨⟨tr₁, w₁⟩, hr₁, hrun⟩ := (Option.any_eq_true _ _).mp hrun
  obtain ⟨⟨tr₂, w₂⟩, hr₂, hrun⟩ := (Option.any_eq_true _ _).mp hrun
  obtain ⟨hgrow, hdiff, hL, hin₁, hin₂, ha₁, ha₂⟩ := of_decide_eq_true hrun
  have hreach : Runs.Reachable (system .i128 (Demo.host [Demo.aliceDeposit] 900000)) s :=
    Runs.Via.replay (.init Demo.world_deployed) hs
  have h₁ : Runs.Run ((system .i128 (Demo.host [Demo.aliceDeposit] 900000)).after s₀) tr₁ w₁ :=
    Runs.Run.record (r := ([], s₀)) (.init rfl) hr₁
  have h₂ : Runs.Run ((system .i128 (Demo.host [Demo.aliceDeposit] 900000)).after s₀) tr₂ w₂ :=
    Runs.Run.record (r := ([], s₀)) (.init rfl) hr₂
  obtain ⟨hprice, hrise⟩ := no_repricing_in_ledger (Demo.host [Demo.aliceDeposit] 900000)
  obtain ⟨⟨hb, -⟩, hp₁, -⟩ := hprice s s₀ (Demo.ledger 182000) hreach hs₀ (by decide) hL tr₁ w₁ tr₂ w₂
    h₁ h₂ hin₁ hin₂ ha₁ ha₂
  have hafter : Runs.Reachable ((system .i128 (Demo.host [Demo.aliceDeposit] 900000)).after s) w₁ :=
    ((Runs.Via.init rfl).step (a := .advance (Demo.ledger 182000)) trivial hs₀).append h₁.reachable
  exact ⟨s, w₁, w₂, hgrow, hdiff, hb, hp₁.borrowIndex, (hrise s w₁ hreach hafter).1.2⟩

end Writz.Lend

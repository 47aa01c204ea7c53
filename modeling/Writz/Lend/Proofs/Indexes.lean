import Writz.Lend.Proofs.Books

/-!
# Proofs: the borrow index in exact arithmetic

The borrow index never falls, and no position's debt index is ahead of it. A debt brought up to date
is then at least the debt as stored.
-/

namespace Writz.Lend

variable {τ ρ : Type}

theorem growIndex_le {index rate elapsed : Int} (h : 0 ≤ index) :
    index ≤ growIndex .exact index rate elapsed := by
  unfold growIndex
  split_ifs with hg
  · exact le_rfl
  · have hinterest : 0 ≤ (Arith.exact.mul (Arith.exact.mul index rate) elapsed).tdiv
        (Arith.exact.mul LEDGERS_PER_YEAR BP_SCALE) :=
      Int.tdiv_nonneg (Int.mul_nonneg (Int.mul_nonneg h (by omega)) (by omega)) (by decide)
    unfold accrueInterest
    split_ifs
    · exact le_rfl
    · exact Int.le_add_of_nonneg_right hinterest

theorem accrueGlobal_borrowIndex_le {p : ProtocolState} (h : 0 ≤ p.borrowIndex) (current : Nat) :
    p.borrowIndex ≤ (accrueGlobal .exact current p).borrowIndex := by
  unfold accrueGlobal project
  dsimp only
  split_ifs <;> first | exact growIndex_le h | exact le_rfl

/-- A positive debt brought up to date to an index at least its own is no smaller. -/
theorem le_accruedDebt {pos : Position} {index : Int} (hd : 0 ≤ pos.usdcDebt)
    (hi : pos.debtIndex ≤ index) : pos.usdcDebt ≤ accruedDebt .exact pos index := by
  unfold accruedDebt
  split_ifs with hc
  · calc pos.usdcDebt = (pos.usdcDebt * pos.debtIndex).tdiv pos.debtIndex :=
          (Int.mul_tdiv_cancel _ (by omega)).symm
      _ ≤ (pos.usdcDebt * index).tdiv pos.debtIndex :=
          Int.tdiv_le_tdiv hc.2 (Int.mul_le_mul_of_nonneg_left hi hd)
  · exact le_rfl

/-- The invariant of the indexes. -/
structure Indexed (w : World τ ρ) : Prop where
  one_le : INDEX_ONE ≤ (getProtocol w).borrowIndex
  debtIndex_mem : ∀ txid pos, w.positions.lookup txid = some pos →
    0 < pos.debtIndex ∧ pos.debtIndex ≤ (getProtocol w).borrowIndex

section

variable {H : Host τ ρ} {w w' : World τ ρ}

theorem Indexed.borrowIndex_pos (h : Indexed w) : 0 < (getProtocol w).borrowIndex :=
  INDEX_ONE_pos.trans_le h.one_le

theorem Indexed.le_projected (h : Indexed w) :
    (getProtocol w).borrowIndex ≤ (projected .exact w).borrowIndex :=
  accrueGlobal_borrowIndex_le h.borrowIndex_pos.le _

theorem Indexed.projected_pos (h : Indexed w) : 0 < (projected .exact w).borrowIndex :=
  h.borrowIndex_pos.trans_le h.le_projected

/-- The stored positions stay within a borrow index that has moved on. -/
theorem Indexed.debtIndex_mem_projected (h : Indexed w) :
    ∀ txid pos, w.positions.lookup txid = some pos →
      0 < pos.debtIndex ∧ pos.debtIndex ≤ (projected .exact w).borrowIndex :=
  fun txid pos hp =>
    ⟨(h.debtIndex_mem txid pos hp).1, (h.debtIndex_mem txid pos hp).2.trans h.le_projected⟩

theorem Effect.indexed {c : Call} (e : Effect .exact H w c w') (h : Indexed w) : Indexed w' := by
  have hone : INDEX_ONE ≤ (projected .exact w).borrowIndex := h.one_le.trans h.le_projected
  have hself : 0 < (projected .exact w).borrowIndex ∧
      (projected .exact w).borrowIndex ≤ (projected .exact w).borrowIndex :=
    ⟨h.projected_pos, le_rfl⟩
  cases e with
  | deposit hc hnew hcons hdebt hindex =>
    exact ⟨h.one_le, forall_insert h.debtIndex_mem
      ⟨hindex.symm ▸ INDEX_ONE_pos, hindex.symm ▸ h.one_le⟩⟩
  | supply | withdraw => exact ⟨hone, h.debtIndex_mem_projected⟩
  | borrow | repay | liquidate => exact ⟨hone, forall_insert h.debtIndex_mem_projected hself⟩
  | heartbeat | configure | psbt => exact ⟨h.one_le, h.debtIndex_mem⟩

theorem Deployed.indexed (h : Deployed w) : Indexed w := by
  obtain ⟨hp, hpos, -⟩ := h.eq
  refine ⟨?_, ?_⟩
  · rw [getProtocol_eq hp]
  · simp [hpos]

theorem Indexed.step (h : Indexed w) {l : Label τ ρ} (hs : step .exact H w l = some w') :
    Indexed w' := by
  have houtside : ∀ hl : ∀ env c, l ≠ .invoke env c, Indexed w' := by
    intro hl
    have hst := step_outside hs hl
    obtain ⟨now, ledger, he⟩ := getProtocol_of_storage hst
    refine ⟨?_, ?_⟩
    · rw [he]
      exact h.one_le
    · rw [he, hst]
      exact h.debtIndex_mem
  cases l with
  | invoke env c =>
    cases hs
    rcases invoke_cases .exact H env w c with he | he
    · rwa [he]
    · exact he.indexed h
  | advance l => exact houtside (by simp)
  | outside t r => exact houtside (by simp)

theorem indexed_of_reachable (h : Runs.Reachable (system .exact H) w) : Indexed w :=
  h.invariant (I := Indexed) (fun _ h0 => Deployed.indexed h0) fun _ _ _ hi _ hs => hi.step hs

end

end Writz.Lend

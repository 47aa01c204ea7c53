import Writz.Lend.Contract

/-!
# Proofs: accrual

What one accrual can do to the protocol state. Either nothing is owed or the borrow index does not
grow, and then at most the index moves; or the index grows and the interest is split between the
reserve and the supply index.
-/

namespace Writz.Lend

variable {A : Arith}

/-- The supply index after an accrual of `delta`. -/
def grownSupplyIndex (A : Arith) (p : ProtocolState) (delta : Int) : Int :=
  if p.totalScaledSupply > 0 then
    A.add p.supplyIndex
      ((A.mul (delta - accruedFee A delta) INDEX_ONE).tdiv p.totalScaledSupply)
  else
    p.supplyIndex

/-- What an accrual does to a protocol state. -/
inductive Accrual (A : Arith) (p : ProtocolState) : ProtocolState → Prop where
  /-- No interest is charged. -/
  | idle {index : Int} {current : Nat} (hidle : p.totalBorrowed ≤ 0 ∨ index ≤ p.borrowIndex)
      (hpos : 0 < p.borrowIndex → 0 < index) :
      Accrual A p { p with borrowIndex := index, indexLedger := current }
  /-- The borrow index grows, and interest is charged on what is borrowed. -/
  | grow {index : Int} {current : Nat} (hborrowed : 0 < p.totalBorrowed)
      (hindex : p.borrowIndex < index) :
      Accrual A p
        { p with
          borrowIndex := index
          supplyIndex := grownSupplyIndex A p (accruedDelta A p index)
          totalBorrowed := A.add p.totalBorrowed (accruedDelta A p index)
          reserveUsdc := A.add p.reserveUsdc (accruedFee A (accruedDelta A p index))
          indexLedger := current }

/-! ## Signs -/

/-- A product with a factor in range, scaled back down, is at most the exact quotient. -/
theorem mul_tdiv_le {x k d b : Int} (hx : 0 ≤ x) (hk : 0 ≤ k) (hd : 0 < d) (h : x * k ≤ b * d) :
    0 ≤ (A.mul x k).tdiv d ∧ (A.mul x k).tdiv d ≤ b := by
  refine ⟨Int.tdiv_nonneg (A.mul_nonneg hx hk) hd.le, ?_⟩
  calc (A.mul x k).tdiv d ≤ (b * d).tdiv d :=
        Int.tdiv_le_tdiv hd ((A.mul_le hx hk).trans h)
    _ = b := Int.mul_tdiv_cancel _ (by omega)

theorem accruedDelta_nonneg {p : ProtocolState} {index : Int} (hb : 0 ≤ p.totalBorrowed)
    (hp : 0 < p.borrowIndex) (hi : p.borrowIndex ≤ index) : 0 ≤ accruedDelta A p index :=
  Int.tdiv_nonneg (A.mul_nonneg hb (by omega)) hp.le

/-- The protocol's share of some interest is part of it. -/
theorem accruedFee_mem {delta : Int} (h : 0 ≤ delta) :
    0 ≤ accruedFee A delta ∧ accruedFee A delta ≤ delta :=
  mul_tdiv_le h (by decide) (by decide) (by simp only [PROTOCOL_FEE_BP, BP_SCALE]; omega)

theorem growIndex_pos {index rate elapsed : Int} (h : 0 < index) :
    0 < growIndex A index rate elapsed := by
  unfold growIndex
  split_ifs with hg
  · exact h
  · have hinterest : 0 ≤ (A.mul (A.mul index rate) elapsed).tdiv (A.mul LEDGERS_PER_YEAR BP_SCALE) :=
      Int.tdiv_nonneg (A.mul_nonneg (A.mul_nonneg h.le (by omega)) (by omega))
        (A.mul_nonneg (by decide) (by decide))
    unfold accrueInterest
    split_ifs
    · exact h
    · exact A.add_pos h hinterest

/-- `accrueGlobal` is an accrual. -/
theorem accrueGlobal_accrual (A : Arith) (current : Nat) (p : ProtocolState) :
    Accrual A p (accrueGlobal A current p) := by
  unfold accrueGlobal project
  dsimp only
  split_ifs with he hg hs
  · have h := @Accrual.grow A p _ current hg.1 hg.2
    simpa only [grownSupplyIndex, if_pos hs] using h
  · have h := @Accrual.grow A p _ current hg.1 hg.2
    simpa only [grownSupplyIndex, if_neg hs] using h
  · exact .idle (by dsimp only; omega) growIndex_pos
  · exact .idle (.inr le_rfl) id

@[simp] theorem accrueGlobal_totalScaledSupply (current : Nat) (p : ProtocolState) :
    (accrueGlobal A current p).totalScaledSupply = p.totalScaledSupply := rfl

@[simp] theorem accrueGlobal_indexLedger (current : Nat) (p : ProtocolState) :
    (accrueGlobal A current p).indexLedger = current := rfl

/-- What holds of the indexes and the balances of a protocol state whatever is owed. -/
structure ProtocolState.Sound (p : ProtocolState) : Prop where
  supplyIndex_pos : 0 < p.supplyIndex
  borrowIndex_pos : 0 < p.borrowIndex
  scaled_nonneg : 0 ≤ p.totalScaledSupply
  reserve_nonneg : 0 ≤ p.reserveUsdc

theorem ProtocolState.Sound.assets_nonneg {p : ProtocolState} (h : p.Sound) :
    0 ≤ totalSupplyAssets A p p.supplyIndex :=
  Int.tdiv_nonneg (A.mul_nonneg h.scaled_nonneg h.supplyIndex_pos.le) (by decide)

/-- An accrual keeps a protocol state sound. -/
theorem Accrual.sound {p q : ProtocolState} (ha : Accrual A p q) (h : p.Sound) : q.Sound := by
  cases ha with
  | idle _ hpos =>
    exact ⟨h.supplyIndex_pos, hpos h.borrowIndex_pos, h.scaled_nonneg, h.reserve_nonneg⟩
  | @grow index _ hb hi =>
    have hδ := accruedDelta_nonneg (A := A) hb.le h.borrowIndex_pos hi.le
    obtain ⟨hf0, hf1⟩ := accruedFee_mem (A := A) hδ
    have hs : 0 < grownSupplyIndex A p (accruedDelta A p index) := by
      unfold grownSupplyIndex
      split_ifs with hs
      · exact A.add_pos h.supplyIndex_pos
          (Int.tdiv_nonneg (A.mul_nonneg (by omega) (by decide)) hs.le)
      · exact h.supplyIndex_pos
    exact ⟨hs, h.borrowIndex_pos.trans hi, h.scaled_nonneg, A.add_nonneg h.reserve_nonneg hf0⟩

/-- An accrual does not make what is borrowed negative. -/
theorem Accrual.totalBorrowed_nonneg {p q : ProtocolState} (ha : Accrual A p q)
    (h : 0 < p.borrowIndex) (hb : 0 ≤ p.totalBorrowed) : 0 ≤ q.totalBorrowed := by
  cases ha with
  | idle => exact hb
  | grow hb hi => exact A.add_nonneg hb.le (accruedDelta_nonneg hb.le h hi.le)

/-! ## The rates -/

theorem utilizationBp_mem {borrowed assets : Int} (hb : 0 ≤ borrowed) (ha : 0 ≤ assets) :
    0 ≤ utilizationBp A borrowed assets ∧ utilizationBp A borrowed assets ≤ 10000 := by
  have hu : 0 ≤ (A.mul borrowed BP_SCALE).tdiv assets :=
    Int.tdiv_nonneg (A.mul_nonneg hb (by decide)) ha
  simp only [utilizationBp, BP_SCALE] at *
  omega

/-- The borrow rate is between 0 and 208% a year. -/
theorem borrowRateBp_mem {borrowed assets : Int} (hb : 0 ≤ borrowed) (ha : 0 ≤ assets) :
    0 ≤ borrowRateBp A borrowed assets ∧ borrowRateBp A borrowed assets ≤ 20800 := by
  obtain ⟨hu0, hu1⟩ := utilizationBp_mem (A := A) hb ha
  unfold borrowRateBp
  dsimp only
  split_ifs with h0 hle
  · omega
  · simp only [U_OPTIMAL_BP, SLOPE1_BP] at hle ⊢
    have := mul_tdiv_le (A := A) (b := 800) hu0 (by decide : (0 : Int) ≤ 800)
      (by decide : (0 : Int) < 7500) (by omega)
    omega
  · simp only [U_OPTIMAL_BP, SLOPE1_BP, SLOPE2_BP, BP_SCALE] at hle ⊢
    obtain ⟨h₀, h₁⟩ := mul_tdiv_le (A := A) (b := 20000)
      (by omega : 0 ≤ utilizationBp A borrowed assets - 7500)
      (by decide : (0 : Int) ≤ 20000) (by decide : (0 : Int) < 10000 - 7500) (by omega)
    exact ⟨A.add_nonneg (by decide) h₀, (A.clamp_le _ (by omega)).trans (by omega)⟩

/-- So is the supply rate. -/
theorem supplyRateBp_mem {rate borrowed assets : Int} (hr : 0 ≤ rate ∧ rate ≤ 20800)
    (hb : 0 ≤ borrowed) (ha : 0 ≤ assets) :
    0 ≤ supplyRateBp A rate borrowed assets ∧ supplyRateBp A rate borrowed assets ≤ 20800 := by
  obtain ⟨hu0, hu1⟩ := utilizationBp_mem (A := A) hb ha
  unfold supplyRateBp
  split_ifs with h0
  · omega
  have hmul : rate * utilizationBp A borrowed assets ≤ 20800 * 10000 :=
    Int.mul_le_mul hr.2 hu1 hu0 (by decide)
  obtain ⟨hg0, hg1⟩ := mul_tdiv_le (A := A) (b := 20800) hr.1 hu0 (by decide : (0 : Int) < 10000)
    hmul
  exact mul_tdiv_le hg0 (by decide) (by decide)
    (by simp only [BP_SCALE, PROTOCOL_FEE_BP, utilizationBp] at *; omega)

end Writz.Lend

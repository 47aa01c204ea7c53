import Writz.Frontend.Loan
import Writz.Lend.Proofs.Health

/-!
# Proofs: the risk of a loan

The app divides the value of the collateral once, with its fraction of a stroop; the contract drops the
fraction first. Their numbers agree exactly where no fraction decides.
-/

namespace Writz.Frontend

open Lend

/-! ## The contract's health, in whole numbers -/

section

variable {sats : Nat} {price value debt : Int}

theorem collateralValueStroops_eq (hp : 0 ≤ price) (h : collateralValueStroops sats price = some value) :
    value = (sats * price) / 100000000 := by
  rw [(collateralValueStroops_mem hp h).1,
    Int.tdiv_eq_ediv_of_nonneg (mul_nonneg (Int.natCast_nonneg _) hp)]

theorem le_i128_of_value (h : collateralValueStroops sats price = some value) :
    sats * price ≤ I128_MAX := by
  unfold collateralValueStroops checkedI128 at h
  simp only [Option.bind_eq_bind, Option.bind_eq_some_iff, Option.ite_none_right_eq_some,
    Option.some.injEq] at h
  obtain ⟨v, ⟨⟨-, hmax⟩, rfl⟩, -⟩ := h
  exact hmax

theorem collateralValueStroops_of_le (hp : 0 ≤ price) (hmax : sats * price ≤ I128_MAX) :
    collateralValueStroops sats price = some ((sats * price) / 100000000) := by
  have hnn : 0 ≤ sats * price := mul_nonneg (Int.natCast_nonneg _) hp
  rw [collateralValueStroops, checkedI128, if_pos ⟨by unfold I128_MIN; omega, hmax⟩,
    Option.bind_eq_bind, Option.bind_some, Int.tdiv_eq_ediv_of_nonneg hnn, checkedI128, if_pos]
  unfold I128_MIN
  omega

theorem healthRatioBp_eq (hp : 0 ≤ price) (h : collateralValueStroops sats price = some value)
    (hd : 0 < debt) : healthRatioBp .i128 value debt = value * 10000 / debt := by
  obtain ⟨-, hnn, hmax⟩ := collateralValueStroops_mem hp h
  have hmul : 0 ≤ value * 10000 := mul_nonneg hnn (by decide)
  rw [healthRatioBp, if_neg hd.ne', Arith.mul, clamp_i128_eq hmul hmax, Int.tdiv_eq_ediv_of_nonneg hmul]

/-- A health is a bound on the debt. -/
theorem le_healthRatioBp_iff (hp : 0 ≤ price) (h : collateralValueStroops sats price = some value)
    (hd : 0 < debt) {bp : Int} :
    bp ≤ healthRatioBp .i128 value debt ↔ bp * debt ≤ sats * price / 100000000 * 10000 := by
  rw [healthRatioBp_eq hp h hd, Int.le_ediv_iff_mul_le hd, collateralValueStroops_eq hp h]

end

/-! ## The ratio -/

theorem tdiv_tdiv_eq {a b : Int} (ha : 0 ≤ a) (hb : 0 ≤ b) (c : Int) : (a.tdiv b).tdiv c = a / b / c := by
  rw [Int.tdiv_eq_ediv_of_nonneg ha, Int.tdiv_eq_ediv_of_nonneg (Int.ediv_nonneg ha hb)]

/-- Adding a part does not change the quotient if the remainder has room for it. -/
theorem add_ediv_eq_iff {a f d : Int} (hd : 0 < d) (hf : 0 ≤ f) : (a + f) / d = a / d ↔ a % d + f < d := by
  have hsplit : a + f = a % d + f + d * (a / d) := by
    have := Int.emod_add_mul_ediv a d
    omega
  have hnn : 0 ≤ a % d + f := add_nonneg (Int.emod_nonneg a hd.ne') hf
  rw [hsplit, Int.add_mul_ediv_left _ _ hd.ne']
  constructor
  · intro h
    have hzero : (a % d + f) / d = 0 := by omega
    exact (Int.ediv_lt_iff_lt_mul hd).mp (by omega) |>.trans_eq (one_mul d)
  · intro h
    rw [Int.ediv_eq_zero_of_lt hnn h, zero_add]

theorem collateralRatioBp_eq {sats : Nat} {debt price : Int} (hd : 0 < debt) (hp : 0 < price) :
    collateralRatioBp sats debt price = some ((sats * price / 100000000 * 10000
      + sats * price % 100000000 / 10000) / debt) := by
  have hnn : 0 ≤ sats * price := mul_nonneg (Int.natCast_nonneg _) hp.le
  have hvalue : sats * price * 10000 / 100000000
      = sats * price / 100000000 * 10000 + sats * price % 100000000 / 10000 := by omega
  rw [collateralRatioBp, if_neg (by omega), SAT, tdiv_tdiv_eq (by omega) (by decide), hvalue]

/-! ## The headroom -/

theorem ratioLimitStroops_eq {sats : Nat} {price : Int} (hp : 0 < price) :
    ratioLimitStroops sats price = sats * price / 150000000 := by
  have hnn : 0 ≤ sats * price := mul_nonneg (Int.natCast_nonneg _) hp.le
  rw [ratioLimitStroops, SAT, BORROW_LIMIT_BP, tdiv_tdiv_eq (by omega) (by decide)]
  omega

theorem availableToBorrow_none {sats : Nat} {debt price : Int} :
    (availableToBorrow sats debt price none).stroops
      = if ratioLimitStroops sats price > debt then ratioLimitStroops sats price - debt else 0 := rfl

/-! ## The liquidation price -/

theorem liquidationPriceFor_eq {sats : Nat} {debt : Int} (hd : 0 < debt) :
    liquidationPriceFor sats debt = if (sats : Int) = 0 then none else some (120000000 * debt / sats) := by
  have hnum : debt * 12000 * 100000000 / 10000 = 120000000 * debt := by omega
  unfold liquidationPriceFor LIQUIDATION_BP SAT
  rw [tdiv_tdiv_eq (by omega) (by decide), hnum]
  exact if_congr (by omega) rfl rfl

theorem line_eq {sats : Nat} {debt line : Int} (hd : 0 < debt)
    (h : liquidationPriceFor sats debt = some line) :
    0 < (sats : Int) ∧ line = 120000000 * debt / sats := by
  rw [liquidationPriceFor_eq hd] at h
  split_ifs at h with hzero
  exact ⟨by omega, (Option.some.inj h).symm⟩

/-- The value, in parts of a stroop, at the first price above the line. -/
theorem mul_line_succ {sats debt : Int} :
    sats * (120000000 * debt / sats + 1) = 120000000 * debt + (sats - 120000000 * debt % sats) := by
  have := Int.emod_add_mul_ediv (120000000 * debt) sats
  rw [mul_add, mul_one]
  omega

/-! ## Agreement -/

/-- What the app tells about a loan is what the contract checks. -/
structure RiskNumbersAgree (sats : Nat) (debt price : Int) : Prop where
  ratio : ∀ value, collateralValueStroops sats price = some value →
    collateralRatioBp sats debt price = some (healthRatioBp .i128 value debt)
  borrow : ∀ value, collateralValueStroops sats price = some value →
    0 < (availableToBorrow sats debt price none).stroops →
    15000 ≤ healthRatioBp .i128 value (debt + (availableToBorrow sats debt price none).stroops)
  above : ∀ line, liquidationPriceFor sats debt = some line → ∀ p value, line < p →
    collateralValueStroops sats p = some value → 12000 ≤ healthRatioBp .i128 value debt
  below : ∀ line, liquidationPriceFor sats debt = some line → ∀ p value, 0 < p → p < line →
    collateralValueStroops sats p = some value → healthRatioBp .i128 value debt < 12000

/-- The fraction of a stroop that the contract drops decides nothing. -/
structure FractionsIdle (sats : Nat) (debt price : Int) : Prop where
  /-- It does not carry into the ratio. -/
  ratio : sats * price / 100000000 * 10000 % debt + sats * price % 100000000 / 10000 < debt
  /-- It does not give the limit a stroop, unless the debt has reached the limit. -/
  borrow : sats * price / 100000000 % 3 ≠ 1 ∨ sats * price % 100000000 < 50000000 ∨
    sats * price < 150000000 * (debt + 1)
  /-- The first price above the line is worth the next whole stroop, or is too large for the contract. -/
  above : (sats : Int) = 0 ∨
    20000000 * ((5 - debt % 5) % 5) ≤ sats - 120000000 * debt % sats ∨
    I128_MAX < 120000000 * debt + (sats - 120000000 * debt % sats)

section

variable {sats : Nat} {debt price value : Int}

theorem ratio_agrees_iff (hd : 0 < debt) (hp : 0 < price)
    (hvalue : collateralValueStroops sats price = some value) :
    collateralRatioBp sats debt price = some (healthRatioBp .i128 value debt) ↔
      sats * price / 100000000 * 10000 % debt + sats * price % 100000000 / 10000 < debt := by
  have hnn : 0 ≤ sats * price % 100000000 / 10000 := by omega
  rw [collateralRatioBp_eq hd hp, healthRatioBp_eq hp.le hvalue hd, collateralValueStroops_eq hp.le hvalue,
    Option.some.injEq, add_ediv_eq_iff hd hnn]

theorem borrow_agrees_iff (hd : 0 < debt) (hp : 0 < price)
    (hvalue : collateralValueStroops sats price = some value) :
    (0 < (availableToBorrow sats debt price none).stroops →
      15000 ≤ healthRatioBp .i128 value (debt + (availableToBorrow sats debt price none).stroops)) ↔
      sats * price / 100000000 % 3 ≠ 1 ∨ sats * price % 100000000 < 50000000 ∨
        sats * price < 150000000 * (debt + 1) := by
  rw [availableToBorrow_none, ratioLimitStroops_eq hp]
  split_ifs with hroom
  · have hsum : debt + (sats * price / 150000000 - debt) = sats * price / 150000000 := by omega
    rw [hsum, le_healthRatioBp_iff hp.le hvalue (by omega)]
    omega
  · omega

theorem above_agrees_iff (hd : 0 < debt) :
    (∀ line, liquidationPriceFor sats debt = some line → ∀ p value, line < p →
      collateralValueStroops sats p = some value → 12000 ≤ healthRatioBp .i128 value debt) ↔
      (sats : Int) = 0 ∨ 20000000 * ((5 - debt % 5) % 5) ≤ sats - 120000000 * debt % sats ∨
        I128_MAX < 120000000 * debt + (sats - 120000000 * debt % sats) := by
  constructor
  · intro h
    by_contra hnot
    simp only [not_or, not_le, not_lt] at hnot
    obtain ⟨hsats, hfraction, hmax⟩ := hnot
    -- the first price above the line
    have hline : liquidationPriceFor sats debt = some (120000000 * debt / sats) := by
      rw [liquidationPriceFor_eq hd, if_neg hsats]
    have hnn : 0 ≤ 120000000 * debt / (sats : Int) := Int.ediv_nonneg (by omega) (by omega)
    rw [← mul_line_succ] at hmax
    have hvalue := collateralValueStroops_of_le (by omega) hmax
    have hhealth := h _ hline _ _ (lt_add_one _) hvalue
    rw [le_healthRatioBp_iff (by omega) hvalue hd, mul_line_succ] at hhealth
    omega
  · intro hcond line hline p value hp hvalue
    obtain ⟨hsats, rfl⟩ := line_eq hd hline
    have hnn : 0 ≤ 120000000 * debt / (sats : Int) := Int.ediv_nonneg (by omega) hsats.le
    have hmul : sats * (120000000 * debt / sats + 1) ≤ sats * p :=
      mul_le_mul_of_nonneg_left (Int.add_one_le_of_lt hp) hsats.le
    rw [mul_line_succ] at hmul
    have hmax := le_i128_of_value hvalue
    rw [le_healthRatioBp_iff (by omega) hvalue hd]
    omega

theorem below_agrees (hd : 0 < debt) {line p : Int} (hline : liquidationPriceFor sats debt = some line)
    (hpos : 0 < p) (hp : p < line) (hvalue : collateralValueStroops sats p = some value) :
    healthRatioBp .i128 value debt < 12000 := by
  obtain ⟨hsats, rfl⟩ := line_eq hd hline
  have hmul : sats * p < sats * (120000000 * debt / sats) := mul_lt_mul_of_pos_left hp hsats
  have hle : sats * (120000000 * debt / sats) ≤ 120000000 * debt := Int.mul_ediv_self_le hsats.ne'
  by_contra hnot
  rw [not_lt, le_healthRatioBp_iff hpos.le hvalue hd] at hnot
  omega

/-- The app's numbers agree with the contract's checks exactly if no fraction of a stroop decides. -/
theorem risk_numbers_agree_iff (hd : 0 < debt) (hp : 0 < price)
    (hvalue : collateralValueStroops sats price = some value) :
    RiskNumbersAgree sats debt price ↔ FractionsIdle sats debt price := by
  constructor
  · intro h
    exact ⟨(ratio_agrees_iff hd hp hvalue).mp (h.ratio value hvalue),
      (borrow_agrees_iff hd hp hvalue).mp (h.borrow value hvalue), (above_agrees_iff hd).mp h.above⟩
  · intro h
    refine ⟨fun v hv => (ratio_agrees_iff hd hp hv).mpr h.ratio,
      fun v hv => (borrow_agrees_iff hd hp hv).mpr h.borrow, (above_agrees_iff hd).mpr h.above,
      fun line hline p v hpos hlt hv => below_agrees hd hline hpos hlt hv⟩

end

/-- Two bitcoins at 50,000 USDC, with a debt of 40,000 USDC. -/
theorem risk_numbers_agree_round : RiskNumbersAgree 200000000 400000000000 500000000000 :=
  (@risk_numbers_agree_iff 200000000 400000000000 500000000000 1000000000000 (by decide) (by decide)
    (by decide)).mpr ⟨by decide, by decide, by decide⟩

/-- The app offers 1294.9229033 USDC on 0.05000001 BTC, and the contract refuses them. The ratio and the
liquidation price are one step off too. -/
theorem risk_numbers_differ :
    collateralRatioBp 5000001 7122004748 602136893004 = some 42273 ∧
    collateralValueStroops 5000001 602136893004 = some 30106850671 ∧
    healthRatioBp .i128 30106850671 7122004748 = 42272 ∧
    (availableToBorrow 5000001 7122004748 602136893004 none).stroops = 12949229033 ∧
    healthRatioBp .i128 30106850671 (7122004748 + 12949229033) = 14999 ∧
    liquidationPriceFor 5000001 7122004748 = some 170928079766 ∧
    collateralValueStroops 5000001 170928079767 = some 8546405697 ∧
    healthRatioBp .i128 8546405697 7122004748 = 11999 := by
  decide

end Writz.Frontend

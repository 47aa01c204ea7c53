import Writz.Frontend.Oracle
import Writz.Frontend.WritzLend
import Writz.Lend.Contract
import Writz.Lend.Deployment

/-!
# Proofs: the app computes what the contract computes

The app's `bigint`s are exact. So both agree where no operation of the contract saturates, and where
their different guards come to the same on amounts that are not negative.
-/

namespace Writz.Frontend

open Lend (ProtocolState Position)
open Node

/-! ## What does not saturate -/

/-- A value that `i128` has. -/
def FitsI128 (x : Int) : Prop := I128_MIN ≤ x ∧ x ≤ I128_MAX

/-- The amounts and indexes of a protocol state are not negative. -/
structure NonNegative (p : ProtocolState) : Prop where
  totalScaledSupply : 0 ≤ p.totalScaledSupply
  supplyIndex : 0 ≤ p.supplyIndex
  totalBorrowed : 0 ≤ p.totalBorrowed
  reserveUsdc : 0 ≤ p.reserveUsdc
  borrowIndex : 0 ≤ p.borrowIndex

/-- No operation of `borrow_rate_bp` saturates: the later ones are on at most 100%. -/
def BorrowRateFits (totalBorrowed supplyAssets : Int) : Prop :=
  supplyAssets ≠ 0 → totalBorrowed ≠ 0 → FitsI128 (totalBorrowed * Lend.BP_SCALE)

/-- No operation of `grow_index` saturates. -/
def GrowthFits (index rate elapsed : Int) : Prop :=
  0 < elapsed → 0 < rate → index ≠ 0 →
    FitsI128 (index * rate) ∧ FitsI128 (index * rate * elapsed) ∧
      FitsI128 (Lend.growIndex .exact index rate elapsed)

/-- No operation of the interest's split saturates. -/
structure SplitFits (p : ProtocolState) (index : Int) : Prop where
  delta : FitsI128 (p.totalBorrowed * (index - p.borrowIndex))
  fee : FitsI128 (Lend.accruedDelta .exact p index * Lend.PROTOCOL_FEE_BP)
  totalBorrowed : FitsI128 (p.totalBorrowed + Lend.accruedDelta .exact p index)
  reserveUsdc : FitsI128 (p.reserveUsdc + Lend.accruedFee .exact (Lend.accruedDelta .exact p index))
  lenders : 0 < p.totalScaledSupply →
    let lenders := Lend.accruedDelta .exact p index
      - Lend.accruedFee .exact (Lend.accruedDelta .exact p index)
    FitsI128 (lenders * Lend.INDEX_ONE) ∧
      FitsI128 (p.supplyIndex + (lenders * Lend.INDEX_ONE).tdiv p.totalScaledSupply)

/-- No operation of `project` saturates. -/
structure ProjectFits (p : ProtocolState) (ledger : Nat) : Prop where
  assets : p.indexLedger < ledger → FitsI128 (p.totalScaledSupply * p.supplyIndex)
  rate : p.indexLedger < ledger →
    BorrowRateFits p.totalBorrowed (Lend.totalSupplyAssets .exact p p.supplyIndex)
  growth : GrowthFits p.borrowIndex
    (Lend.borrowRateBp .exact p.totalBorrowed (Lend.totalSupplyAssets .exact p p.supplyIndex))
    ((ledger - p.indexLedger : Nat) : Int)
  split : 0 < p.totalBorrowed → p.borrowIndex < (Lend.project .exact p ledger).borrowIndex →
    SplitFits p (Lend.project .exact p ledger).borrowIndex

theorem clamp_of_fits {x : Int} (h : FitsI128 x) : Arith.i128.clamp x = x := by
  obtain ⟨hmin, hmax⟩ := h
  change max I128_MIN (min x I128_MAX) = x
  omega

theorem fits_of_small {x : Int} (h0 : 0 ≤ x) (h : x ≤ 1000000000) : FitsI128 x := by
  unfold FitsI128 I128_MIN I128_MAX
  omega

theorem utilizationBp_mem {b a : Int} (hb : 0 ≤ b) (ha : 0 ≤ a) :
    0 ≤ Lend.utilizationBp .exact b a ∧ Lend.utilizationBp .exact b a ≤ Lend.BP_SCALE := by
  unfold Lend.utilizationBp
  have hnonneg : 0 ≤ (Arith.exact.mul b Lend.BP_SCALE).tdiv a :=
    Int.tdiv_nonneg (Arith.exact.mul_nonneg hb (by decide)) ha
  have hscale : (0 : Int) ≤ Lend.BP_SCALE := by decide
  exact ⟨le_min hnonneg hscale, min_le_right _ _⟩

theorem borrowRateBp_of_fits {b a : Int} (hb : 0 ≤ b) (ha : 0 ≤ a) (h : BorrowRateFits b a) :
    Lend.borrowRateBp .i128 b a = Lend.borrowRateBp .exact b a := by
  unfold Lend.borrowRateBp
  by_cases hzero : a = 0 ∨ b = 0
  · rw [if_pos hzero, if_pos hzero]
  · rw [if_neg hzero, if_neg hzero]
    have hfits := h (fun ha => hzero (.inl ha)) fun hb => hzero (.inr hb)
    have hutil : Lend.utilizationBp .i128 b a = Lend.utilizationBp .exact b a := by
      unfold Lend.utilizationBp Arith.mul
      rw [clamp_of_fits hfits]
      rfl
    obtain ⟨hlow, hhigh⟩ := utilizationBp_mem hb ha
    simp only [hutil]
    generalize Lend.utilizationBp .exact b a = u at hlow hhigh
    unfold Arith.mul Arith.add
    by_cases hkink : u ≤ Lend.U_OPTIMAL_BP
    · have hfits : FitsI128 (u * Lend.SLOPE1_BP) := by
        unfold Lend.SLOPE1_BP
        unfold Lend.BP_SCALE at hhigh
        exact fits_of_small (by omega) (by omega)
      rw [if_pos hkink, if_pos hkink, clamp_of_fits hfits]
      rfl
    · rw [if_neg hkink, if_neg hkink]
      unfold Lend.U_OPTIMAL_BP at hkink
      unfold Lend.BP_SCALE at hhigh
      have hexcess : 0 ≤ (u - Lend.U_OPTIMAL_BP) * Lend.SLOPE2_BP ∧
          (u - Lend.U_OPTIMAL_BP) * Lend.SLOPE2_BP ≤ 50000000 := by
        unfold Lend.U_OPTIMAL_BP Lend.SLOPE2_BP
        omega
      have hrate : FitsI128 (Lend.SLOPE1_BP + ((u - Lend.U_OPTIMAL_BP) * Lend.SLOPE2_BP).tdiv
          (Lend.BP_SCALE - Lend.U_OPTIMAL_BP)) := by
        rw [Int.tdiv_eq_ediv_of_nonneg hexcess.1]
        unfold Lend.SLOPE1_BP Lend.BP_SCALE
        generalize (u - Lend.U_OPTIMAL_BP) * Lend.SLOPE2_BP = x at hexcess
        unfold Lend.U_OPTIMAL_BP
        exact fits_of_small (by omega) (by omega)
      rw [clamp_of_fits (fits_of_small hexcess.1 (by omega)), clamp_of_fits hrate]
      rfl

theorem growIndex_of_fits {index rate elapsed : Int} (h : GrowthFits index rate elapsed) :
    Lend.growIndex .i128 index rate elapsed = Lend.growIndex .exact index rate elapsed := by
  unfold GrowthFits at h
  unfold Lend.growIndex at *
  by_cases hidle : elapsed ≤ 0 ∨ rate ≤ 0
  · rw [if_pos hidle, if_pos hidle]
  · rw [if_neg hidle, if_neg hidle] at *
    unfold Lend.accrueInterest at *
    by_cases hzero : elapsed = 0 ∨ index = 0 ∨ rate = 0
    · rw [if_pos hzero, if_pos hzero]
    · rw [if_neg hzero, if_neg hzero] at *
      obtain ⟨hrate, helapsed, hsum⟩ := h (by omega) (by omega) (by omega)
      have hyear : Arith.i128.mul Lend.LEDGERS_PER_YEAR Lend.BP_SCALE
          = Lend.LEDGERS_PER_YEAR * Lend.BP_SCALE := by decide
      simp only [Arith.exact_mul, Arith.exact_add] at hsum ⊢
      rw [hyear]
      unfold Arith.mul Arith.add
      rw [clamp_of_fits hrate, clamp_of_fits helapsed, clamp_of_fits hsum]

/-- The interest and its split, where nothing saturates. -/
theorem accrual_of_fits {p : ProtocolState} {index : Int} (h : SplitFits p index) :
    Lend.accruedDelta .i128 p index = Lend.accruedDelta .exact p index ∧
      Lend.accruedFee .i128 (Lend.accruedDelta .exact p index)
        = Lend.accruedFee .exact (Lend.accruedDelta .exact p index) := by
  constructor
  · unfold Lend.accruedDelta Arith.mul
    rw [clamp_of_fits h.delta]
    rfl
  · unfold Lend.accruedFee Arith.mul
    rw [clamp_of_fits h.fee]
    rfl

/-- Without saturation the contract's projection is the exact one. -/
theorem project_of_fits {p : ProtocolState} {ledger : Nat} (hp : NonNegative p)
    (h : ProjectFits p ledger) : Lend.project .i128 p ledger = Lend.project .exact p ledger := by
  obtain ⟨hassets, hrate, hgrowth, hsplit⟩ := h
  unfold Lend.project at *
  by_cases helapsed : ((ledger - p.indexLedger : Nat) : Int) > 0
  · have hlt : p.indexLedger < ledger := by omega
    have hassets : Lend.totalSupplyAssets .i128 p p.supplyIndex
        = Lend.totalSupplyAssets .exact p p.supplyIndex := by
      unfold Lend.totalSupplyAssets Arith.mul
      rw [clamp_of_fits (hassets hlt)]
      rfl
    have hnonneg : 0 ≤ Lend.totalSupplyAssets .exact p p.supplyIndex :=
      Int.tdiv_nonneg (Int.mul_nonneg hp.totalScaledSupply hp.supplyIndex) (by decide)
    simp only [if_pos helapsed] at hsplit ⊢
    rw [hassets, borrowRateBp_of_fits hp.totalBorrowed hnonneg (hrate hlt), growIndex_of_fits hgrowth]
    generalize Lend.growIndex .exact p.borrowIndex
      (Lend.borrowRateBp .exact p.totalBorrowed (Lend.totalSupplyAssets .exact p p.supplyIndex))
      ((ledger - p.indexLedger : Nat) : Int) = index at *
    by_cases hcharged : p.totalBorrowed > 0 ∧ index > p.borrowIndex
    · simp only [if_pos hcharged] at hsplit ⊢
      have hfits := hsplit hcharged.1 hcharged.2
      obtain ⟨hdelta, hfee⟩ := accrual_of_fits hfits
      rw [hdelta, hfee]
      unfold Arith.add
      rw [clamp_of_fits hfits.totalBorrowed, clamp_of_fits hfits.reserveUsdc]
      by_cases hsupply : p.totalScaledSupply > 0
      · obtain ⟨hlenders, hindex⟩ := hfits.lenders hsupply
        simp only [if_pos hsupply]
        unfold Arith.mul
        rw [clamp_of_fits hlenders, clamp_of_fits hindex]
        rfl
      · simp only [if_neg hsupply]
        rfl
    · simp only [if_neg hcharged]
  · simp only [if_neg helapsed]

/-! ## The mirror -/

theorem totalSupplyAssets_eq (p : ProtocolState) (supplyIndex : Int) :
    totalSupplyAssets p supplyIndex = Lend.totalSupplyAssets .exact p supplyIndex := rfl

theorem borrowRateBp_eq (totalBorrowed supplyAssets : Int) :
    borrowRateBp totalBorrowed supplyAssets = Lend.borrowRateBp .exact totalBorrowed supplyAssets := by
  have hcap : ∀ u : Int, (if u > BP_SCALE then BP_SCALE else u) = min u BP_SCALE := by
    intro u
    split_ifs <;> omega
  unfold borrowRateBp Lend.borrowRateBp
  simp only [hcap]
  rfl

/-- The guards of both come to the same: an index of zero does not grow. -/
theorem growIndex_eq {index rate elapsed : Int} (h : 0 < elapsed) :
    (if rate > 0 then index + (index * rate * elapsed).tdiv (LEDGERS_PER_YEAR * BP_SCALE) else index)
      = Lend.growIndex .exact index rate elapsed := by
  unfold Lend.growIndex Lend.accrueInterest
  by_cases hrate : rate > 0
  · rw [if_pos hrate, if_neg (by omega)]
    by_cases hindex : index = 0
    · rw [if_pos (.inr (.inl hindex)), hindex, Int.zero_mul, Int.zero_mul, Int.zero_tdiv, Int.add_zero]
    · rw [if_neg (by omega)]
      rfl
  · rw [if_neg hrate, if_pos (by omega)]

theorem projectRates_eq (p : ProtocolState) (ledger : Nat) :
    projectRates p ledger =
      { borrowIndex := (Lend.project .exact p ledger).borrowIndex
        supplyIndex := (Lend.project .exact p ledger).supplyIndex
        totalBorrowed := (Lend.project .exact p ledger).totalBorrowed } := by
  have helapsed : max 0 ((ledger : Int) - p.indexLedger) = ((ledger - p.indexLedger : Nat) : Int) := by
    omega
  unfold projectRates Lend.project
  rw [helapsed]
  have hnonneg : 0 ≤ ((ledger - p.indexLedger : Nat) : Int) := Int.natCast_nonneg _
  generalize ((ledger - p.indexLedger : Nat) : Int) = elapsed at hnonneg
  by_cases hzero : elapsed = 0
  · simp only [if_pos hzero, if_neg (show ¬ elapsed > 0 by omega)]
  · have hpos : elapsed > 0 := by omega
    simp only [if_neg hzero, if_pos hpos, growIndex_eq hpos, totalSupplyAssets_eq, borrowRateBp_eq]
    split_ifs <;> rfl

/-- The debt of a position on which the contract does not saturate. -/
theorem debtAt_eq {pos : Position} {borrowIndex : Int} (hdebt : 0 ≤ pos.usdcDebt)
    (hfits : 0 < pos.usdcDebt → 0 < pos.debtIndex → FitsI128 (pos.usdcDebt * borrowIndex)) :
    debtAt pos borrowIndex = Lend.accruedDebt .i128 pos borrowIndex := by
  unfold debtAt Lend.accruedDebt
  by_cases howed : pos.usdcDebt > 0 ∧ pos.debtIndex > 0
  · rw [if_pos howed, if_neg (by omega)]
    unfold Arith.mul
    rw [clamp_of_fits (hfits howed.1 howed.2)]
  · rw [if_neg howed, if_pos (by omega)]

/-! ## The price -/

/-- The latest time of a `Date`, in seconds. -/
def MAX_DATE_SECS : Nat := 8640000000000

/-- Numbers tell how old a price is, whatever its timestamp. -/
theorem isStale_iff {timestamp nowSecs : Nat} (hnow : nowSecs ≤ MAX_DATE_SECS) :
    isStale timestamp nowSecs = true ↔ nowSecs - timestamp > Lend.MAX_PRICE_STALENESS_SECS := by
  unfold MAX_DATE_SECS at hnow
  unfold isStale Lend.MAX_PRICE_STALENESS_SECS
  rcases Nat.lt_or_ge timestamp (2 ^ 53) with hexact | hlarge
  · rw [Number.ofRat_natCast hexact]
    rcases Nat.le_total timestamp nowSecs with hle | hle
    · have hage : (nowSecs : Rat) - timestamp = ((nowSecs - timestamp : Nat) : Rat) := (Nat.cast_sub hle).symm
      rw [Number.sub, hage, Number.ofRat_natCast (by omega)]
      change decide (((3600 : Nat) : Rat) < ((nowSecs - timestamp : Nat) : Rat)) = true ↔ _
      rw [decide_eq_true_iff, Nat.cast_lt]
    · have hage : (nowSecs : Rat) - timestamp ≤ 0 := sub_nonpos.mpr (by exact_mod_cast hle)
      rw [Number.sub, Option.any_some, Number.exceeds_of_nonpos hage (Nat.cast_nonneg _)]
      constructor
      · intro h
        cases h
      · intro h
        omega
  · -- the rounded timestamp is still after every date
    have hfresh : ¬ nowSecs - timestamp > 3600 := by omega
    refine iff_of_false ?_ hfresh
    rcases Number.ofRat_large hlarge with hinfinite | ⟨q, hq, hle⟩
    · rw [hinfinite]
      exact Bool.false_ne_true
    · have hnow' : (nowSecs : Rat) ≤ 2 ^ 53 := by
        have : nowSecs ≤ 2 ^ 53 := by omega
        exact_mod_cast this
      have hage : (nowSecs : Rat) - q ≤ 0 := by linarith
      rw [hq, Number.sub, Option.any_some, Number.exceeds_of_nonpos hage (Nat.cast_nonneg _)]
      exact Bool.false_ne_true

/-- What the oracle answers, as the app reads it. -/
def rawPrice (data : Lend.PriceData) : RawPrice := { price := data.price, timestamp := data.timestamp }

/-- A price that the contract converts. -/
theorem priceInStroops_eq_some {price v : Int} {decimals : Nat}
    (h : Lend.priceInStroops price decimals = some v) :
    v = if decimals ≥ USDC_DECIMALS then price.tdiv (10 ^ (decimals - USDC_DECIMALS))
      else price * 10 ^ (USDC_DECIMALS - decimals) := by
  have hchecked : ∀ {x y : Int}, checkedI128 x = some y → y = x := by
    intro x y hxy
    unfold checkedI128 at hxy
    split_ifs at hxy
    exact (Option.some.inj hxy).symm
  unfold Lend.priceInStroops at h
  change (if decimals ≥ USDC_DECIMALS then _ else _) = _ at h
  split_ifs at h ⊢
  · obtain ⟨divisor, hdivisor, hv⟩ := Option.bind_eq_some_iff.mp h
    rw [hchecked hv, hchecked hdivisor]
    rfl
  · obtain ⟨multiplier, hmultiplier, hv⟩ := Option.bind_eq_some_iff.mp h
    rw [hchecked hv, hchecked hmultiplier]
    rfl

section Price

variable {env : Lend.Env} {oracle : Address} {last : Option Lend.PriceData} {decimals now : Nat}

/-- The contract's price, of what the oracle answers. -/
def contractPrice (last : Option Lend.PriceData) (decimals now : Nat) : Lend.Result Int :=
  match last with
  | none => .error (.err .OraclePriceUnavailable)
  | some data =>
    if now - data.timestamp > Lend.MAX_PRICE_STALENESS_SECS then .error (.err .OraclePriceStale)
    else match Lend.priceInStroops data.price decimals with
      | none => .error (.err .Overflow)
      | some v => if v ≤ 0 then .error (.err .OraclePriceUnavailable) else .ok v

theorem contractPrice_eq (hlast : env.lastprice oracle = some last)
    (hdecimals : env.decimals oracle = some decimals) :
    Lend.getBtcPriceStroops env now oracle = contractPrice last decimals now := by
  unfold Lend.getBtcPriceStroops
  rw [hlast, hdecimals]
  unfold contractPrice
  cases last with
  | none => rfl
  | some data =>
    simp only [okOr, failIf, bind, Except.bind]
    by_cases hstale : now - data.timestamp > Lend.MAX_PRICE_STALENESS_SECS
    · simp only [if_pos hstale]
    · simp only [if_neg hstale]
      cases Lend.priceInStroops data.price decimals with
      | none => rfl
      | some v =>
        by_cases hv : v ≤ 0
        · simp only [if_pos hv]
        · simp only [if_neg hv]

/-- The app's price, of a raw one. -/
theorem appPrice_eq {data : Lend.PriceData} (hnow : now ≤ MAX_DATE_SECS) :
    priceToStroops (rawPrice data) decimals now =
      if now - data.timestamp > Lend.MAX_PRICE_STALENESS_SECS then .error "OraclePriceStale".toList
      else
        let stroops := if decimals ≥ USDC_DECIMALS then data.price.tdiv (10 ^ (decimals - USDC_DECIMALS))
          else data.price * 10 ^ (USDC_DECIMALS - decimals)
        if stroops ≤ 0 then .error "OraclePriceUnavailable".toList else .ok stroops := by
  unfold priceToStroops rawPrice
  by_cases hstale : now - data.timestamp > Lend.MAX_PRICE_STALENESS_SECS
  · rw [failIf, if_pos ((isStale_iff hnow).mpr hstale), if_pos hstale]
    rfl
  · rw [failIf, if_neg (mt (isStale_iff hnow).mp hstale), if_neg hstale]
    dsimp only
    generalize (if decimals ≥ USDC_DECIMALS then data.price.tdiv (10 ^ (decimals - USDC_DECIMALS))
      else data.price * 10 ^ (USDC_DECIMALS - decimals)) = stroops
    by_cases hv : stroops ≤ 0
    · rw [failIf, if_pos hv, if_pos hv]
      rfl
    · rw [failIf, if_neg hv, if_neg hv]
      rfl

theorem price_ok (hlast : env.lastprice oracle = some last)
    (hdecimals : env.decimals oracle = some decimals) (hnow : now ≤ MAX_DATE_SECS) {v : Int}
    (h : Lend.getBtcPriceStroops env now oracle = .ok v) :
    getBtcPriceStroops (last.map rawPrice) decimals now = .ok v := by
  rw [contractPrice_eq hlast hdecimals] at h
  unfold contractPrice at h
  cases last with
  | none => cases h
  | some data =>
    dsimp only at h
    change priceToStroops (rawPrice data) decimals now = .ok v
    rw [appPrice_eq hnow]
    by_cases hstale : now - data.timestamp > Lend.MAX_PRICE_STALENESS_SECS
    · rw [if_pos hstale] at h
      cases h
    · rw [if_neg hstale] at h ⊢
      cases hprice : Lend.priceInStroops data.price decimals with
      | none =>
        rw [hprice] at h
        cases h
      | some price =>
        rw [hprice] at h
        dsimp only at h ⊢
        rw [← priceInStroops_eq_some hprice]
        by_cases hv : price ≤ 0
        · rw [if_pos hv] at h
          cases h
        · rw [if_neg hv] at h ⊢
          cases h
          rfl

theorem price_throws (hlast : env.lastprice oracle = some last)
    (hdecimals : env.decimals oracle = some decimals) (hnow : now ≤ MAX_DATE_SECS)
    (h : Lend.getBtcPriceStroops env now oracle = .error (.err .OraclePriceStale) ∨
      Lend.getBtcPriceStroops env now oracle = .error (.err .OraclePriceUnavailable)) :
    ∃ message, getBtcPriceStroops (last.map rawPrice) decimals now = .error message := by
  rw [contractPrice_eq hlast hdecimals] at h
  unfold contractPrice at h
  cases last with
  | none => exact ⟨_, rfl⟩
  | some data =>
    dsimp only at h
    change ∃ message, priceToStroops (rawPrice data) decimals now = .error message
    rw [appPrice_eq hnow]
    by_cases hstale : now - data.timestamp > Lend.MAX_PRICE_STALENESS_SECS
    · rw [if_pos hstale]
      exact ⟨_, rfl⟩
    · rw [if_neg hstale] at h ⊢
      cases hprice : Lend.priceInStroops data.price decimals with
      | none =>
        rw [hprice] at h
        rcases h with h | h <;> cases h
      | some price =>
        rw [hprice] at h
        dsimp only at h ⊢
        rw [← priceInStroops_eq_some hprice]
        by_cases hv : price ≤ 0
        · rw [if_pos hv]
          exact ⟨_, rfl⟩
        · rw [if_neg hv] at h
          rcases h with h | h <;> cases h

end Price

/-- Where the contract does not saturate the app projects what it projects, and computes the debt that it
accrues; the app's price is the contract's, and it throws where that reports a stale price or none. -/
theorem mirror_equals_contract (p : ProtocolState) (ledger : Nat) (pos : Position) (env : Lend.Env)
    (oracle : Address) (last : Option Lend.PriceData) (decimals now : Nat) (hp : NonNegative p)
    (hdebt : 0 ≤ pos.usdcDebt) (hfits : ProjectFits p ledger)
    (hdebtFits : 0 < pos.usdcDebt → 0 < pos.debtIndex →
      FitsI128 (pos.usdcDebt * (Lend.project .i128 p ledger).borrowIndex))
    (hlast : env.lastprice oracle = some last) (hdecimals : env.decimals oracle = some decimals)
    (hnow : now ≤ MAX_DATE_SECS) :
    projectRates p ledger =
        { borrowIndex := (Lend.project .i128 p ledger).borrowIndex
          supplyIndex := (Lend.project .i128 p ledger).supplyIndex
          totalBorrowed := (Lend.project .i128 p ledger).totalBorrowed } ∧
      debtAt pos (projectRates p ledger).borrowIndex =
        (Lend.accruePositionInterest .i128 ledger pos (Lend.accrueGlobal .i128 ledger p)).usdcDebt ∧
      (∀ supplyIndex, FitsI128 (p.totalScaledSupply * supplyIndex) →
        totalSupplyAssets p supplyIndex = Lend.totalSupplyAssets .i128 p supplyIndex) ∧
      (∀ totalBorrowed supplyAssets, 0 ≤ totalBorrowed → 0 ≤ supplyAssets →
        BorrowRateFits totalBorrowed supplyAssets →
          borrowRateBp totalBorrowed supplyAssets = Lend.borrowRateBp .i128 totalBorrowed supplyAssets) ∧
      (∀ v, Lend.getBtcPriceStroops env now oracle = .ok v →
        getBtcPriceStroops (last.map rawPrice) decimals now = .ok v) ∧
      (Lend.getBtcPriceStroops env now oracle = .error (.err .OraclePriceStale) ∨
          Lend.getBtcPriceStroops env now oracle = .error (.err .OraclePriceUnavailable) →
        ∃ message, getBtcPriceStroops (last.map rawPrice) decimals now = .error message) := by
  have hproject := project_of_fits hp hfits
  refine ⟨?_, ?_, fun supplyIndex hassets => ?_, fun b a hb ha hrate => ?_,
    fun v => price_ok hlast hdecimals hnow, price_throws hlast hdecimals hnow⟩
  · rw [projectRates_eq, hproject]
  · rw [projectRates_eq, ← hproject]
    exact debtAt_eq hdebt hdebtFits
  · unfold totalSupplyAssets Lend.totalSupplyAssets Arith.mul
    rw [clamp_of_fits hassets]
    rfl
  · rw [borrowRateBp_eq, borrowRateBp_of_fits hb ha hrate]

namespace Mirror.Vector

/-- Three quarters of ten thousand USDC, borrowed for a year. -/
def proto : ProtocolState where
  totalScaledSupply := 100000000000
  supplyIndex := 1000000000000000000
  totalBorrowed := 75000000000
  lastKeeperHeartbeat := 0
  reserveUsdc := 0
  borrowIndex := 1000000000000000000
  indexLedger := 1000

def position : Position where
  btcTxid := zeros 32
  btcSatoshis := 5000000
  usdcDebt := 75000000000
  p2wshScriptPubkey := []
  timelockHeight := 300000
  lastUpdateLedger := 1000
  debtIndex := 1000000000000000000
  depositor := ⟨[]⟩
  status := .Active
  userPubkey := zeros 33

theorem proto_nonNegative : NonNegative proto :=
  ⟨by decide, by decide, by decide, by decide, by decide⟩

instance (x : Int) : Decidable (FitsI128 x) := inferInstanceAs (Decidable (_ ∧ _))

instance (b a : Int) : Decidable (BorrowRateFits b a) := inferInstanceAs (Decidable (_ → _ → _))

instance (index rate elapsed : Int) : Decidable (GrowthFits index rate elapsed) :=
  inferInstanceAs (Decidable (_ → _ → _ → _))

theorem proto_fits : ProjectFits proto 6312520 where
  assets := by decide
  rate := by decide
  growth := by decide
  split := fun _ _ => ⟨by decide, by decide, by decide, by decide, by decide⟩

end Mirror.Vector

/-- A year later the debt is 8% higher, in the app as in the contract. -/
theorem mirror_equals_contract_vector :
    debtAt Mirror.Vector.position (projectRates Mirror.Vector.proto 6312520).borrowIndex = 81000000000 ∧
      getBtcPriceStroops (some (rawPrice { price := 10000000000000000000, timestamp := 1750000000 })) 14
        1750000100 = .ok 1000000000000 := by
  obtain ⟨-, hdebt, -, -, hprice, -⟩ := mirror_equals_contract Mirror.Vector.proto 6312520
    Mirror.Vector.position
    { auth := fun _ => true
      lastprice := fun _ => some (some { price := 10000000000000000000, timestamp := 1750000000 })
      decimals := fun _ => some 14 }
    ⟨[]⟩ (some { price := 10000000000000000000, timestamp := 1750000000 }) 14 1750000100
    Mirror.Vector.proto_nonNegative (by decide) Mirror.Vector.proto_fits (by decide) rfl rfl (by decide)
  exact ⟨hdebt.trans (by decide), hprice 1000000000000 (by decide)⟩

end Writz.Frontend

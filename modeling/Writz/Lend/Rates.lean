import Writz.Lend.Types

/-!
# The interest rate model

Rates, index growth and accrual, over an arithmetic `A` for the saturating operations. Division
truncates towards zero, as it does on `i128`.
-/

namespace Writz.Lend

/-- 100% expressed in basis points. -/
def BP_SCALE : Int := 10000
/-- Optimal utilization: 75%. -/
def U_OPTIMAL_BP : Int := 7500
/-- Slope below optimal: 8% annual. -/
def SLOPE1_BP : Int := 800
/-- Slope above optimal: 200% annual. -/
def SLOPE2_BP : Int := 20000
/-- Protocol fee on interest income: 15%. -/
def PROTOCOL_FEE_BP : Int := 1500
/-- Approximate Stellar ledgers per year. -/
def LEDGERS_PER_YEAR : Int := 6311520
/-- Fixed-point one for the indexes (18 decimals). -/
def INDEX_ONE : Int := 1000000000000000000

variable (A : Arith)

/-- `debt` with simple interest over `ledgersElapsed` at the annual rate `rateBp`. -/
def accrueInterest (debt rateBp ledgersElapsed : Int) : Int :=
  if ledgersElapsed = 0 ∨ debt = 0 ∨ rateBp = 0 then
    debt
  else
    let interest := (A.mul (A.mul debt rateBp) ledgersElapsed).tdiv (A.mul LEDGERS_PER_YEAR BP_SCALE)
    A.add debt interest

/-- Grows `index` by `rateBp` (annual) over `ledgersElapsed`. -/
def growIndex (index rateBp ledgersElapsed : Int) : Int :=
  if ledgersElapsed ≤ 0 ∨ rateBp ≤ 0 then index else accrueInterest A index rateBp ledgersElapsed

/-- USDC the lenders hold claim to. -/
def totalSupplyAssets (proto : ProtocolState) (supplyIndex : Int) : Int :=
  (A.mul proto.totalScaledSupply supplyIndex).tdiv INDEX_ONE

/-- Utilization in basis points, capped at 100%. -/
def utilizationBp (totalBorrowed totalSupplyAssets : Int) : Int :=
  min ((A.mul totalBorrowed BP_SCALE).tdiv totalSupplyAssets) BP_SCALE

/-- The annual borrow rate in basis points. -/
def borrowRateBp (totalBorrowed totalSupplyAssets : Int) : Int :=
  if totalSupplyAssets = 0 ∨ totalBorrowed = 0 then
    0
  else
    let uBp := utilizationBp A totalBorrowed totalSupplyAssets
    if uBp ≤ U_OPTIMAL_BP then
      (A.mul uBp SLOPE1_BP).tdiv U_OPTIMAL_BP
    else
      let excess := uBp - U_OPTIMAL_BP
      let excessRate := (A.mul excess SLOPE2_BP).tdiv (BP_SCALE - U_OPTIMAL_BP)
      A.add SLOPE1_BP excessRate

/-- The annual supply rate in basis points. -/
def supplyRateBp (borrowRate totalBorrowed totalSupplyAssets : Int) : Int :=
  if totalSupplyAssets = 0 ∨ totalBorrowed = 0 then
    0
  else
    let uBp := utilizationBp A totalBorrowed totalSupplyAssets
    let gross := (A.mul borrowRate uBp).tdiv BP_SCALE
    (A.mul gross (BP_SCALE - PROTOCOL_FEE_BP)).tdiv BP_SCALE

/-- The interest an accrual adds to `total_borrowed` when the borrow index grows to `newIndex`. -/
def accruedDelta (proto : ProtocolState) (newIndex : Int) : Int :=
  (A.mul proto.totalBorrowed (newIndex - proto.borrowIndex)).tdiv proto.borrowIndex

/-- The protocol's share of the interest `delta`. -/
def accruedFee (delta : Int) : Int := (A.mul delta PROTOCOL_FEE_BP).tdiv BP_SCALE

/-- What `project` returns. -/
structure Projection where
  borrowIndex : Int
  supplyIndex : Int
  totalBorrowed : Int
  reserveUsdc : Int
  deriving DecidableEq

/-- Interest accrual from `proto.indexLedger` to `currentLedger`, without writing anything. -/
def project (proto : ProtocolState) (currentLedger : Nat) : Projection :=
  let elapsed : Int := ((currentLedger - proto.indexLedger : Nat) : Int)
  if elapsed > 0 then
    let assets := totalSupplyAssets A proto proto.supplyIndex
    let rate := borrowRateBp A proto.totalBorrowed assets
    let newIndex := growIndex A proto.borrowIndex rate elapsed
    if proto.totalBorrowed > 0 ∧ newIndex > proto.borrowIndex then
      let delta := accruedDelta A proto newIndex
      let fee := accruedFee A delta
      let lenderShare := delta - fee
      { borrowIndex := newIndex
        supplyIndex :=
          if proto.totalScaledSupply > 0 then
            A.add proto.supplyIndex ((A.mul lenderShare INDEX_ONE).tdiv proto.totalScaledSupply)
          else
            proto.supplyIndex
        totalBorrowed := A.add proto.totalBorrowed delta
        reserveUsdc := A.add proto.reserveUsdc fee }
    else
      { borrowIndex := newIndex
        supplyIndex := proto.supplyIndex
        totalBorrowed := proto.totalBorrowed
        reserveUsdc := proto.reserveUsdc }
  else
    { borrowIndex := proto.borrowIndex
      supplyIndex := proto.supplyIndex
      totalBorrowed := proto.totalBorrowed
      reserveUsdc := proto.reserveUsdc }

end Writz.Lend

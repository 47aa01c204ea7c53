import Mathlib.Algebra.Order.Ring.Int

/-!
# The risk of a loan, in the app

`lib/loan/model.ts` and `lib/status/derive.ts`: the ratio, the headroom and the liquidation price that the
app shows. All numbers are bigints.
-/

namespace Writz.Frontend

def SAT : Int := 100000000

/-! Contract parameters. -/

def BORROW_LIMIT_BP : Int := 15000
def LIQUIDATION_BP : Int := 12000

/-- Collateral value over debt in basis points, or `none` when there is no debt. -/
def collateralRatioBp (collateralSats debtStroops priceStroopsPerBtc : Int) : Option Int :=
  if debtStroops ≤ 0 then none
  else some (((collateralSats * priceStroopsPerBtc * 10000).tdiv SAT).tdiv debtStroops)

/-- Most USDC debt this collateral supports at the 150% borrow limit. -/
def ratioLimitStroops (collateralSats priceStroops : Int) : Int :=
  ((collateralSats * priceStroops * 10000).tdiv SAT).tdiv BORROW_LIMIT_BP

structure Available where
  stroops : Int
  /-- Pool liquidity, not the ratio, is what caps it. -/
  limitedByPool : Bool

/-- USDC that can still be borrowed: the smaller of the ratio headroom and the pool's liquidity. -/
def availableToBorrow (collateralSats debtStroops priceStroops : Int) (poolStroops : Option Int) :
    Available :=
  let limit := ratioLimitStroops collateralSats priceStroops
  let headroom := if limit > debtStroops then limit - debtStroops else 0
  match poolStroops with
  | none => { stroops := headroom, limitedByPool := false }
  | some pool =>
    if pool ≥ headroom then { stroops := headroom, limitedByPool := false }
    else { stroops := if pool > 0 then pool else 0, limitedByPool := true }

/-- BTC price, in stroops per BTC, at which this debt reaches the 120% liquidation line. -/
def liquidationPriceFor (collateralSats debtStroops : Int) : Option Int :=
  if debtStroops ≤ 0 ∨ collateralSats ≤ 0 then none
  else some (((debtStroops * LIQUIDATION_BP * SAT).tdiv 10000).tdiv collateralSats)

end Writz.Frontend

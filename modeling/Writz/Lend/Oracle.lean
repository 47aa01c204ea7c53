import Writz.Lend.Types

/-!
# Oracle pricing

The price conversion and the collateral arithmetic of the lending contract.
-/

namespace Writz.Lend

/-- A price older than this is rejected. -/
def MAX_PRICE_STALENESS_SECS : Nat := 3600

def USDC_DECIMALS : Nat := 7

/-- A price with `decimals` decimals in stroops, `none` where the conversion overflows. -/
def priceInStroops (price : Int) (decimals : Nat) : Option Int :=
  if decimals ≥ USDC_DECIMALS then do
    let divisor ← checkedI128 (10 ^ (decimals - USDC_DECIMALS))
    checkedI128 (price.tdiv divisor)
  else do
    let multiplier ← checkedI128 (10 ^ (USDC_DECIMALS - decimals))
    checkedI128 (price * multiplier)

/-- The BTC/USD price as USDC stroops per BTC. -/
def getBtcPriceStroops (env : Env) (timestamp : Nat) (oracle : Address) : Result Int := do
  let priceData ← okOr (← okOr (env.lastprice oracle) .trap) (.err .OraclePriceUnavailable)
  let ageSecs := timestamp - priceData.timestamp
  failIf (ageSecs > MAX_PRICE_STALENESS_SECS) (.err .OraclePriceStale)
  let decimals ← okOr (env.decimals oracle) .trap
  let priceStroops ← okOr (priceInStroops priceData.price decimals) (.err .Overflow)
  failIf (priceStroops ≤ 0) (.err .OraclePriceUnavailable)
  .ok priceStroops

/-- The USDC stroop value of `btcSatoshis` at the given price. -/
def collateralValueStroops (btcSatoshis : Nat) (priceStroopsPerBtc : Int) : Option Int := do
  let v ← checkedI128 (btcSatoshis * priceStroopsPerBtc)
  checkedI128 (v.tdiv 100000000)

/-- Health ratio in basis points; `i128::MAX` when there is no debt. -/
def healthRatioBp (A : Arith) (collateralStroops debtStroops : Int) : Int :=
  if debtStroops = 0 then I128_MAX else (A.mul collateralStroops 10000).tdiv debtStroops

end Writz.Lend

import Writz.Node.Buffer
import Writz.Node.Number

/-!
# The BTC price, in the app

`oracle.ts`: the oracle's answer, converted as the contract converts it. The times are numbers.
-/

namespace Writz.Frontend

open Node

/-- Older prices fail every price-dependent call. -/
def MAX_PRICE_AGE_SECS : Nat := 3600

def USDC_DECIMALS : Nat := 7

structure RawPrice where
  price : Int
  timestamp : Nat

/-- `nowSecs - Number(raw.timestamp) > MAX_PRICE_AGE_SECS`. -/
def isStale (timestamp nowSecs : Nat) : Bool :=
  (Number.sub (.finite nowSecs) (.ofRat timestamp)).any fun age => age.exceeds MAX_PRICE_AGE_SECS

/-- A raw price as USDC stroops per BTC. -/
def priceToStroops (raw : RawPrice) (decimals nowSecs : Nat) : Node.Result Int := do
  failIf (isStale raw.timestamp nowSecs = true) "OraclePriceStale".toList
  let stroops :=
    if decimals ≥ USDC_DECIMALS then
      raw.price.tdiv (10 ^ (decimals - USDC_DECIMALS))
    else
      raw.price * 10 ^ (USDC_DECIMALS - decimals)
  failIf (stroops ≤ 0) "OraclePriceUnavailable".toList
  .ok stroops

/-- The oracle's BTC price, of what it answers at `nowSecs`. -/
def getBtcPriceStroops (last : Option RawPrice) (decimals nowSecs : Nat) : Node.Result Int :=
  match last with
  | none => .error "OraclePriceUnavailable".toList
  | some raw => priceToStroops raw decimals nowSecs

end Writz.Frontend

import Writz.Lend.Types

/-!
# Interest, in the app

`writzLend.ts`: what the app computes from the stored state, in `bigint`s.
-/

namespace Writz.Frontend

open Lend (ProtocolState Position)

def INDEX_ONE : Int := 10 ^ 18
def BP_SCALE : Int := 10000
def U_OPTIMAL_BP : Int := 7500
def SLOPE1_BP : Int := 800
def SLOPE2_BP : Int := 20000
def LEDGERS_PER_YEAR : Int := 6311520

def totalSupplyAssets (p : ProtocolState) (supplyIndex : Int) : Int :=
  (p.totalScaledSupply * supplyIndex).tdiv INDEX_ONE

/-- Annual borrow rate in basis points for a utilization. -/
def borrowRateBp (totalBorrowed supplyAssets : Int) : Int :=
  if supplyAssets = 0 ∨ totalBorrowed = 0 then
    0
  else
    let u := (totalBorrowed * BP_SCALE).tdiv supplyAssets
    let u := if u > BP_SCALE then BP_SCALE else u
    if u ≤ U_OPTIMAL_BP then
      (u * SLOPE1_BP).tdiv U_OPTIMAL_BP
    else
      SLOPE1_BP + ((u - U_OPTIMAL_BP) * SLOPE2_BP).tdiv (BP_SCALE - U_OPTIMAL_BP)

/-- What `projectRates` returns. -/
structure ProjectedRates where
  borrowIndex : Int
  supplyIndex : Int
  totalBorrowed : Int
  deriving DecidableEq

/-- The borrow index, supply index and total borrowed as the contract would accrue them at `ledger`. -/
def projectRates (p : ProtocolState) (ledger : Nat) : ProjectedRates :=
  let elapsed : Int := max 0 ((ledger : Int) - p.indexLedger)
  if elapsed = 0 then
    { borrowIndex := p.borrowIndex, supplyIndex := p.supplyIndex, totalBorrowed := p.totalBorrowed }
  else
    let rate := borrowRateBp p.totalBorrowed (totalSupplyAssets p p.supplyIndex)
    let borrowIndex :=
      if rate > 0 then
        p.borrowIndex + (p.borrowIndex * rate * elapsed).tdiv (LEDGERS_PER_YEAR * BP_SCALE)
      else
        p.borrowIndex
    if p.totalBorrowed > 0 ∧ borrowIndex > p.borrowIndex then
      let delta := (p.totalBorrowed * (borrowIndex - p.borrowIndex)).tdiv p.borrowIndex
      let lenders := delta - (delta * 1500).tdiv BP_SCALE
      { borrowIndex
        supplyIndex :=
          if p.totalScaledSupply > 0 then
            p.supplyIndex + (lenders * INDEX_ONE).tdiv p.totalScaledSupply
          else
            p.supplyIndex
        totalBorrowed := p.totalBorrowed + delta }
    else
      { borrowIndex, supplyIndex := p.supplyIndex, totalBorrowed := p.totalBorrowed }

/-- A position's debt at `borrowIndex`. -/
def debtAt (p : Position) (borrowIndex : Int) : Int :=
  if p.usdcDebt = 0 ∨ p.debtIndex ≤ 0 then p.usdcDebt else (p.usdcDebt * borrowIndex).tdiv p.debtIndex

end Writz.Frontend

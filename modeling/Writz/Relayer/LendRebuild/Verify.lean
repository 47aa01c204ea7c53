import Writz.Relayer.Process
import Writz.Relayer.LendRebuild.Replay

/-!
# Checking a replay

`lend-rebuild/verify.ts`: a replay against the contract, which is the only authority.
-/

namespace Writz.Relayer

open Node
open Lend (PositionStatus)

structure VerifyResult where
  /-- The first difference from the chain, or null when everything agrees. -/
  mismatch : Option Text
  /-- Positions repaid in full with no release on chain yet. -/
  missingReleases : List Text

def statusText : PositionStatus → Text
  | .Active => "Active".toList
  | .Closed => "Closed".toList
  | .Liquidated => "Liquidated".toList

def positionMismatch (txid : Text) (expected : PositionStatus) (status : Option PositionStatus) : Text :=
  "position ".toList ++ txid ++ ": replay says ".toList ++ statusText expected
    ++ ", chain says ".toList ++ (status.map statusText).getD "no position".toList

def supplierMismatch (supplier : Text) (expected scaled : Int) : Text :=
  "supplier ".toList ++ supplier ++ ": replay says ".toList ++ bigIntText expected
    ++ " scaled, chain says ".toList ++ bigIntText scaled

def totalMismatch (expected total : Int) : Text :=
  "total scaled supply: replay says ".toList ++ bigIntText expected ++ ", chain says ".toList
    ++ bigIntText total

variable (O : Environment)

/-- The position's status, or null if the contract has no such position. -/
def positionStatus (txid : Text) : Async (Option PositionStatus) := do
  let position ← getPosition O (fromHex txid)
  pure (position.map Lend.Position.status)

def hasRelease (txid : Text) : Async Bool := do
  let psbt ← getReleasePsbt O (fromHex txid)
  pure psbt.isSome

/-- The first position whose status is not the expected one. -/
def verifyPositions : JsMap Text PositionStatus → Async (Option Text)
  | [] => pure none
  | (txid, expected) :: positions => do
    let status ← positionStatus O txid
    if status ≠ some expected then
      pure (some (positionMismatch txid expected status))
    else
      verifyPositions positions

/-- The first supplier whose scaled supply is not the expected one. -/
def verifySuppliers : JsMap Text Int → Async (Option Text)
  | [] => pure none
  | (supplier, expected) :: suppliers => do
    let scaled ← getScaledSupply O supplier
    if scaled ≠ expected then
      pure (some (supplierMismatch supplier expected scaled))
    else
      verifySuppliers suppliers

/-- The txids with no release on chain. -/
def withoutRelease : List Text → Async (List Text)
  | [] => pure []
  | txid :: txids => do
    let released ← hasRelease O txid
    let missing ← withoutRelease txids
    pure (if released then missing else txid :: missing)

def verifyAgainstChain (state : ReplayedState) : Async VerifyResult := do
  let position ← verifyPositions O state.positions
  if position.isSome then
    pure { mismatch := position, missingReleases := [] }
  else do
    let supplier ← verifySuppliers O state.scaledBySupplier
    if supplier.isSome then
      pure { mismatch := supplier, missingReleases := [] }
    else do
      let total ← getTotalScaledSupply O
      if total ≠ state.totalScaled then
        pure { mismatch := some (totalMismatch state.totalScaled total), missingReleases := [] }
      else do
        let missingReleases ← withoutRelease O state.repaidInFull
        pure { mismatch := none, missingReleases }

end Writz.Relayer

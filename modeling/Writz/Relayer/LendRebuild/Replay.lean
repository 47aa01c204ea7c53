import Writz.Node.Map
import Writz.Relayer.LendEvents.Store
import Writz.Lend.Types

/-!
# What the archived events say

`lend-rebuild/replay.ts`: what the contract's state must be, from its events.
-/

namespace Writz.Relayer

open Node
open Lend (PositionStatus)

structure ReplayedState where
  /-- By position txid (internal byte order, hex). -/
  positions : JsMap Text PositionStatus
  /-- Scaled supply by supplier address. -/
  scaledBySupplier : JsMap Text Int
  totalScaled : Int
  /-- Positions repaid in full, which are owed a release. -/
  repaidInFull : List Text

def ReplayedState.empty : ReplayedState where
  positions := []
  scaledBySupplier := []
  totalScaled := 0
  repaidInFull := []

def noScaledAmount (row : LendEventRow) : Text :=
  row.name ++ " event ".toList ++ row.id ++ " has no scaled_amount".toList

def scaledAmount (row : LendEventRow) : Node.Result Int :=
  match Json.parse row.data with
  | none | some .null => .error "Unexpected JSON".toList
  | some (.object members) =>
    match Json.get members "scaled_amount".toList with
    | none => .error (noScaledAmount row)
    | some v => okOr (bigIntOf v) "Cannot convert scaled_amount to a BigInt".toList
  | some _ => .error (noScaledAmount row)

/-- Adds to a supplier's scaled supply. -/
def ReplayedState.addScaled (state : ReplayedState) (supplier : Text) (scaled : Int) : ReplayedState :=
  { state with
    scaledBySupplier := state.scaledBySupplier.set supplier
      ((state.scaledBySupplier.get supplier).getD 0 + scaled) }

/-- The state after a position's event. -/
def ReplayedState.setStatus (state : ReplayedState) (txid : Text) (status : PositionStatus) :
    ReplayedState :=
  { state with positions := state.positions.set txid status }

def replayRow (state : ReplayedState) (row : LendEventRow) : Node.Result ReplayedState :=
  if row.name = "deposit".toList then
    .ok (state.setStatus row.subject .Active)
  else if row.name = "repay_full".toList then
    .ok { state.setStatus row.subject .Closed with
      repaidInFull := state.repaidInFull ++ [row.subject] }
  else if row.name = "liquidate".toList then
    .ok (state.setStatus row.subject .Liquidated)
  else if row.name = "supply".toList then do
    let scaled ← scaledAmount row
    .ok (state.addScaled row.subject scaled)
  else if row.name = "withdraw".toList then do
    let scaled ← scaledAmount row
    .ok (state.addScaled row.subject (-scaled))
  else
    .ok state

def replay (rows : List LendEventRow) : Node.Result ReplayedState := do
  let state ← rows.foldlM replayRow .empty
  .ok { state with totalScaled := (state.scaledBySupplier.map Prod.snd).sum }

end Writz.Relayer

import Writz.Frontend.Address

/-!
# The timelock of a deposit

`lib/bitcoin/timelock.ts`: the timelock for a new deposit, and the search for the one of a transaction.
-/

namespace Writz.Frontend

open Node

def TIMELOCK_TARGET_MARGIN : Nat := 52560
def TIMELOCK_STEP : Nat := 1000
/-- The contract's upper bound. -/
def MAX_TIMELOCK_MARGIN : Nat := 105000

/-- The timelock to lock a new deposit under, given the current tip height. -/
def chooseDepositTimelock (tipHeight : Nat) : Nat :=
  (tipHeight + TIMELOCK_TARGET_MARGIN + (TIMELOCK_STEP - 1)) / TIMELOCK_STEP * TIMELOCK_STEP

/-- What the code reads of an output of `bitcoin.Transaction.fromHex`. -/
structure TransactionOutput where
  script : Bytes
  value : Nat

structure DepositOutput where
  timelockHeight : Nat
  vout : Nat
  valueSats : Nat
  deriving DecidableEq

/-- `for (let h = newest; h >= oldest; h -= TIMELOCK_STEP)`. -/
def stepsDown (newest oldest : Nat) : List Nat :=
  if newest < oldest then []
  else (List.range ((newest - oldest) / TIMELOCK_STEP + 1)).map fun i => newest - TIMELOCK_STEP * i

/-- The heights to try: the hint, then every step that a deposit up to `MAX_TIMELOCK_MARGIN` blocks ago
could have used. -/
def depositCandidates (tipHeight : Nat) (hintTimelock : Option Nat) : List Nat :=
  let newest := chooseDepositTimelock tipHeight
  let oldest := chooseDepositTimelock (tipHeight - MAX_TIMELOCK_MARGIN)
  (hintTimelock.filter fun h => decide (h ≠ 0)).toList ++
    (stepsDown newest oldest).filter fun h => decide (some h ≠ hintTimelock)

/-- The first of the heights that an output pays. -/
def findAmong (B : BitcoinJs) (network : Network) (protocolPubkeyHex userPubkeyHex : Text)
    (outs : List TransactionOutput) : List Nat → Node.Result (Option DepositOutput)
  | [] => .ok none
  | timelockHeight :: candidates => do
    let p2wsh ← deriveP2WSH B network protocolPubkeyHex userPubkeyHex timelockHeight
    match outs.findIdx? fun o => o.script = p2wsh.scriptPubKey with
    | some vout =>
      .ok (some { timelockHeight, vout, valueSats := (outs[vout]?.map TransactionOutput.value).getD 0 })
    | none => findAmong B network protocolPubkeyHex userPubkeyHex outs candidates

/-- Finds the output of `rawTxHex` that pays the user's P2WSH, and its timelock. `transactionFromHex` is
the outputs of `bitcoin.Transaction.fromHex`. -/
def findDepositOutput (B : BitcoinJs) (transactionFromHex : Text → Node.Result (List TransactionOutput))
    (network : Network) (rawTxHex protocolPubkeyHex userPubkeyHex : Text) (tipHeight : Nat)
    (hintTimelock : Option Nat) : Node.Result (Option DepositOutput) := do
  let outs ← transactionFromHex rawTxHex
  findAmong B network protocolPubkeyHex userPubkeyHex outs (depositCandidates tipHeight hintTimelock)

end Writz.Frontend

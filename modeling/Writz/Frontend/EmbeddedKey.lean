import Mathlib.Data.List.Sort
import Writz.Node.Buffer
import Writz.Util.CoinSelection

/-!
# Payments of the Signet test key

`lib/bitcoin/embedded/key.ts`: a payment from the key's own coins, largest first. Building and signing the
transaction is left to `bitcoinjs-lib`; amounts and fees are exact.
-/

namespace Writz.Frontend.EmbeddedKey

open Node
open CoinSelection (feeAt)

structure Utxo where
  txid : Text
  vout : Nat
  value : Nat
  deriving DecidableEq

/-- Below this a P2WPKH change output is dust; it goes to the fee instead. -/
def DUST_SATS : Nat := 294

/-- `OUTPUT_VBYTES`, by the length of the script. -/
def outputVbytes (script : Bytes) : Nat :=
  if script.length = 22 then 31 else if script.length = 34 then 43 else 34

/-- Virtual size of a P2WPKH spend: 10.5 vB overhead and about 68 vB per input. -/
def paymentVsize (inputs : Nat) (outputScripts : List Bytes) : Nat :=
  (21 / 2 + 68 * inputs + (outputScripts.map outputVbytes).sum : Rat).ceil.toNat

inductive PaymentError where
  | notEnoughBitcoin (availableSats : Nat) (neededSats : Int)
  | error (message : Text)
  deriving DecidableEq

/-- What a payment needs of the key and of `bitcoinjs-lib`. -/
structure Wallet where
  /-- `bitcoin.address.toOutputScript`; `none` where it throws. -/
  outputScript : Text → Option Bytes
  /-- The key's own P2WPKH script. -/
  own : Bytes
  /-- The hex and the id of the signed transaction, of its inputs, recipient, amount and change; `none`
  where building it throws. -/
  sign : List Utxo → Text → Nat → Int → Option (Text × Text)

structure Payment where
  txHex : Text
  txid : Text
  feeSats : Int
  changeSats : Int
  deriving DecidableEq

/-- The coins, largest first. -/
def largestFirst (utxos : List Utxo) : List Utxo := utxos.insertionSort fun a b => b.value ≤ a.value

section Choose

variable (toScript own : Bytes) (amountSats : Nat) (feeRate : Rat)

/-- Takes coins until they cover the amount and the fee with change; with what they bring. -/
def choose (chosen : List Utxo) (total : Nat) : List Utxo → List Utxo × Nat
  | [] => (chosen, total)
  | u :: sorted =>
    let chosen := chosen ++ [u]
    let total := total + u.value
    let withChange := feeAt feeRate (paymentVsize chosen.length [toScript, own])
    if (total : Int) ≥ amountSats + withChange then (chosen, total) else choose chosen total sorted

end Choose

/-- Builds and signs a payment of `amountSats` to `recipient`, with change back to the key's address. -/
def buildPayment (W : Wallet) (utxos : List Utxo) (recipient : Text) (amountSats : Nat) (feeRate : Rat) :
    Except PaymentError Payment := do
  failIf (amountSats ≤ DUST_SATS ∨ 2 ^ 53 ≤ amountSats) (.error "The amount is too small to send.".toList)
  let feeRate := max 1 feeRate
  let toScript ← okOr (W.outputScript recipient) (.error "has no matching Script".toList)
  let (chosen, total) := choose toScript W.own amountSats feeRate [] 0 (largestFirst utxos)
  let feeWithChange := feeAt feeRate (paymentVsize chosen.length [toScript, W.own])
  let feeNoChange := feeAt feeRate (paymentVsize chosen.length [toScript])
  failIf ((total : Int) < amountSats + feeNoChange) (.notEnoughBitcoin total (amountSats + feeNoChange))
  let change := (total : Int) - amountSats - feeWithChange
  let changeSats := if change < DUST_SATS then 0 else change
  let feeSats := (total : Int) - amountSats - changeSats
  let (txHex, txid) ← okOr (W.sign chosen recipient amountSats changeSats) (.error "cannot sign".toList)
  .ok { txHex, txid, feeSats, changeSats }

end Writz.Frontend.EmbeddedKey

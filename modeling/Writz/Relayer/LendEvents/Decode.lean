import Writz.Relayer.LendEvents.Store
import Writz.Lend.Types

/-!
# Events as the relayer reads them

`lend-events/decode.ts`, on the events that `writz-lend` publishes: the name and the subject are their
topics, the data their fields in the order of their names.
-/

namespace Writz.Relayer

open Node

/-- An event as RPC serves it. -/
structure ChainEvent where
  id : Text
  ledger : Nat
  txHash : Text
  event : Lend.Event
  deriving DecidableEq

def addressText (a : Address) : Text := a.strkey.map fun b => Char.ofNat b.toNat

def bigIntText (x : Int) : Text :=
  if x < 0 then '-' :: decimal x.natAbs else decimal x.natAbs

/-- A field of an event: its JSON text. -/
def field (name : String) (value : Text) : Text := Json.quote name.toList ++ ':' :: value

def bigIntField (name : String) (x : Int) : Text := field name (Json.quote (bigIntText x))
def addressField (name : String) (a : Address) : Text := field name (Json.quote (addressText a))

def fields (fs : List Text) : Text := '\x7b' :: [','].intercalate fs ++ ['\x7d']

/-- The first topic. -/
def eventName : Lend.Event → Text
  | .deposit .. => "deposit".toList
  | .borrow .. => "borrow".toList
  | .repayFull .. => "repay_full".toList
  | .repay .. => "repay".toList
  | .liquidate .. => "liquidate".toList
  | .supply .. => "supply".toList
  | .withdraw .. => "withdraw".toList
  | .pausedSet .. => "paused_set".toList
  | .oracleSet .. => "oracle_set".toList
  | .entryTtlSet .. => "entry_ttl_set".toList

/-- The name, the subject and the data of an archived event; none of an administrative one. -/
def eventColumns : Lend.Event → Option (Text × Text)
  | .deposit txid btcSatoshis timelockHeight => some (Hex.encode txid.1, fields
      [bigIntField "btc_satoshis" btcSatoshis, field "timelock_height" (decimal timelockHeight)])
  | .borrow txid borrower usdcAmount => some (Hex.encode txid.1, fields
      [addressField "borrower" borrower, bigIntField "usdc_amount" usdcAmount])
  | .repayFull txid repayer p2wshScriptPubkey => some (Hex.encode txid.1, fields
      [field "p2wsh_script_pubkey" (Json.quote (Hex.encode p2wshScriptPubkey)),
       addressField "repayer" repayer])
  | .repay txid usdcAmount => some (Hex.encode txid.1, fields [bigIntField "usdc_amount" usdcAmount])
  | .liquidate txid keeper bonusPaid => some (Hex.encode txid.1, fields
      [bigIntField "bonus_paid" bonusPaid, addressField "keeper" keeper])
  | .supply supplier usdcAmount scaledAmount supplyIndex totalSupplyAssets
  | .withdraw supplier usdcAmount scaledAmount supplyIndex totalSupplyAssets =>
    some (addressText supplier, fields
      [bigIntField "scaled_amount" scaledAmount, bigIntField "supply_index" supplyIndex,
       bigIntField "total_supply_assets" totalSupplyAssets, bigIntField "usdc_amount" usdcAmount])
  | .pausedSet .. | .oracleSet .. | .entryTtlSet .. => none

/-- The archive row of an event. `encodeRawXdr` gives the event as the chain returned it. -/
def decodeLendEvent (encodeRawXdr : Lend.Event → Text) (event : ChainEvent) (contractId : Text) :
    Option LendEventRow :=
  (eventColumns event.event).map fun (subject, data) =>
    { id := event.id
      contractId
      ledger := event.ledger
      txHash := event.txHash
      name := eventName event.event
      subject
      data
      rawXdr := encodeRawXdr event.event }

end Writz.Relayer

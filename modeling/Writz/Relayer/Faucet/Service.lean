import Writz.BitcoinScript.Payment
import Writz.Node.Map
import Writz.Relayer.Bitcoin.Esplora
import Writz.Relayer.Faucet.Store

/-!
# The Signet faucet

`faucet/service.ts`, from where a claim's request, nonce, key and signature have been checked: the
limits, the coins, and what a send leaves behind. Code between two `await`s runs at one moment.
-/

namespace Writz.Relayer

open Node
open BitcoinScript (P2wpkhUtxo P2wpkhPayment Payer buildP2wpkhPayment)

/-- How long a spent outpoint stays out of selection. -/
def RESERVATION_TTL_MS : Int := 30 * 60000
/-- How long a status answer's balance is reused. -/
def BALANCE_CACHE_MS : Int := 15000

structure FaucetSettings where
  amountSat : Nat
  dailyCap : Nat
  /-- Claims allowed per client IP within any `ipWindowMs`. -/
  ipClaimsPerWindow : Nat
  ipWindowMs : Int
  /-- Fee floor and ceiling in sat/vbyte. -/
  minFeeRate : Rat
  maxFeeRate : Rat

structure FaucetDeps where
  /-- The faucet's own address. -/
  address : Text
  payer : Payer
  esplora : EsploraClientOptions
  settings : FaucetSettings

inductive FaucetErrorCode where
  | account_already_claimed | stellar_address_already_claimed | signet_address_already_claimed
  | ip_cooldown | daily_cap_reached
  deriving DecidableEq

structure FaucetError where
  code : FaucetErrorCode
  message : Text
  retryAfterSeconds : Option Int
  deriving DecidableEq

/-- The key of an outpoint. -/
def outpoint (u : P2wpkhUtxo) : Text := u.txid ++ ':' :: Nat.toDigits 10 u.vout

def AddressUtxo.utxo (u : AddressUtxo) : P2wpkhUtxo := { txid := u.txid, vout := u.vout, value := u.value }

def startOfUtcDay (t : Int) : Int := t - t % 86400000

/-- Who a claim pays: the Signet address, the Stellar address, and the hashed Pollar account once
verified. -/
structure Claimant where
  address : Text
  stellarAddress : Text
  userKey : Option Text
  deriving DecidableEq

/-- Refuses an account, a Stellar address or a Signet address that already claimed, then the IP and daily
limits. -/
def checkLimits (settings : FaucetSettings) (store : ClaimStore) (t : Int) (claimant : Claimant)
    (ipHash : Text) : Except FaucetError Unit := do
  failIf (claimant.userKey.any store.hasClaimForUser = true)
    { code := .account_already_claimed
      message := "this account has already received its Signet coins".toList
      retryAfterSeconds := none }
  failIf (store.hasClaimForStellarAddress claimant.stellarAddress = true)
    { code := .stellar_address_already_claimed
      message := "this Stellar address has already received Signet coins".toList
      retryAfterSeconds := none }
  failIf (store.hasClaimForAddress claimant.address = true)
    { code := .signet_address_already_claimed
      message := "this Signet address has already received coins from the faucet".toList
      retryAfterSeconds := none }
  let ipClaims := store.ipClaimsSince ipHash (t - settings.ipWindowMs + 1)
  let freesAt := ipClaims.getD (ipClaims.length - settings.ipClaimsPerWindow) 0 + settings.ipWindowMs
  failIf (settings.ipClaimsPerWindow ≤ ipClaims.length)
    { code := .ip_cooldown
      message := "this network has used its ".toList ++ Nat.toDigits 10 settings.ipClaimsPerWindow
        ++ " faucet claims for now; try again later".toList
      retryAfterSeconds := some (max 1 (-((t - freesAt) / 1000))) }
  let dayStart := startOfUtcDay t
  failIf (settings.dailyCap ≤ store.countSince dayStart)
    { code := .daily_cap_reached
      message := "the faucet has paid its daily maximum; it resets at 00:00 UTC".toList
      retryAfterSeconds := some (-((t - (dayStart + 86400000)) / 1000)) }

/-! ## Coins -/

/-- A change output of an own broadcast, usable before Esplora lists it. -/
structure PendingChange extends P2wpkhUtxo where
  expiresAt : Int
  deriving DecidableEq

/-- What the faucet knows of its coins. -/
structure Coins where
  /-- Outpoints spent by own broadcasts, with their expiry. -/
  reserved : JsMap Text Int
  pendingChange : List PendingChange
  deriving DecidableEq

namespace Coins

def isReserved (coins : Coins) (u : P2wpkhUtxo) : Bool := (coins.reserved.get (outpoint u)).isSome

/-- `spendable`, before it asks for the listing: what has expired is dropped. -/
def prune (coins : Coins) (t : Int) : Coins where
  reserved := coins.reserved.filter fun e => t < e.2
  pendingChange := coins.pendingChange.filter fun c => t < c.expiresAt

/-- The order of the listing in a selection: confirmed first, then by value. -/
def sortsBefore (a b : AddressUtxo) : Bool :=
  if a.confirmed = b.confirmed then decide (b.value ≤ a.value) else a.confirmed

/-- `spendable`, once it has the listing: listed change is no longer pending. -/
def listed (coins : Coins) (listing : List AddressUtxo) : Coins :=
  { coins with
    pendingChange := coins.pendingChange.filter fun c =>
      !(listing.map fun u => outpoint u.utxo).contains (outpoint c.toP2wpkhUtxo) }

/-- Esplora's view, minus what was spent, plus the unlisted change. -/
def spendable (coins : Coins) (listing : List AddressUtxo) : List P2wpkhUtxo :=
  let usable := ((listing.filter fun u => !coins.isReserved u.utxo).insertionSort
    fun a b => sortsBefore a b).map AddressUtxo.utxo
  let pending := ((coins.listed listing).pendingChange.filter
    fun c => !coins.isReserved c.toP2wpkhUtxo).map PendingChange.toP2wpkhUtxo
  usable ++ pending

def reserve (coins : Coins) (inputs : List P2wpkhUtxo) (t : Int) : Coins where
  reserved := inputs.foldl (fun reserved u => reserved.set (outpoint u) (t + RESERVATION_TTL_MS))
    coins.reserved
  pendingChange := coins.pendingChange.filter fun c =>
    !(inputs.map outpoint).contains (outpoint c.toP2wpkhUtxo)

/-- The change of a payment that was broadcast. -/
def addChange (coins : Coins) (payment : P2wpkhPayment) (t : Int) : Coins :=
  if payment.changeSat > 0 then
    { coins with
      pendingChange := coins.pendingChange ++
        [{ txid := payment.txid, vout := 1, value := payment.changeSat.toNat
           expiresAt := t + RESERVATION_TTL_MS }] }
  else
    coins

end Coins

/-- The fee rate, of the estimate if there is a finite one. -/
def feeRate (settings : FaucetSettings) (estimate : Option Rat) : Rat :=
  min settings.maxFeeRate (max settings.minFeeRate (estimate.getD settings.minFeeRate))

/-- An answer to a broadcast that says the node rejected the transaction. -/
def isRejection : EsploraFailure → Bool
  | .status n _ => decide (400 ≤ n) && decide (n < 500) && !decide (n = 429)
  | _ => false

end Writz.Relayer

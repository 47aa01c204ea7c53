import Mathlib.Data.List.Sort
import Writz.Node.Buffer
import Writz.Node.Map
import Writz.Node.Number

/-!
# Relay records

`cctp/store.ts`: one record for each Stellar burn, with where its transfer is, and what the API answers
for it. Times are Unix milliseconds.
-/

namespace Writz.Relayer.Cctp

open Node

inductive RelayState where
  /-- Iris has not answered with the message yet. -/
  | sent
  /-- Iris knows the burn and is waiting for Stellar finality. -/
  | confirming
  /-- Circle signed the message; the relay is about to mint. -/
  | confirmed
  /-- The mint transaction is broadcast and not yet mined. -/
  | submitted
  | arrived
  | failed
  deriving DecidableEq

inductive FailureCode where
  | confirmTimeout | rpc | outOfGas | dailyCap | sendFailed | notMined | reverted | unexpected
  | refused | mintRefused | unseen | gaveUp
  deriving DecidableEq

/-- Who sent a mint. -/
inductive Minter where
  | relay | other
  deriving DecidableEq

structure RelayRecord where
  /-- Stellar transaction hash of the burn, 64 lowercase hex characters. -/
  burnHash : Text
  state : RelayState
  nonce : Option Text
  recipient : Option Text
  amount : Option Text
  feeExecuted : Option Text
  message : Option Text
  attestation : Option Text
  /-- The Base Sepolia transaction that minted the USDC. -/
  mintHash : Option Text
  mintedBy : Option Minter
  failure : Option Text
  failureCode : Option FailureCode
  retryable : Bool
  /-- When the relay next acts on this record by itself. -/
  retryAt : Option Nat
  /-- Automatic attempts so far in the current streak. -/
  attempts : Option Nat
  /-- First transient failure of the current streak. -/
  retryingSince : Option Nat
  createdAt : Nat
  updatedAt : Nat
  /-- When the relay broadcast its mint, for the daily cap. -/
  submittedAt : Option Nat
  deriving DecidableEq

/-- The record of a burn that is asked for the first time. -/
def RelayRecord.new (burnHash : Text) (t : Nat) : RelayRecord where
  burnHash := burnHash
  state := .sent
  nonce := none
  recipient := none
  amount := none
  feeExecuted := none
  message := none
  attestation := none
  mintHash := none
  mintedBy := none
  failure := none
  failureCode := none
  retryable := false
  retryAt := none
  attempts := none
  retryingSince := none
  createdAt := t
  updatedAt := t
  submittedAt := none

def isSettled (r : RelayRecord) : Bool := r.state = .arrived || r.state = .failed

/-- A failure the relay will retry by itself. -/
def isRetrying (r : RelayRecord) : Bool := r.state = .failed && r.retryAt.isSome

abbrev RelayStore := JsMap Text RelayRecord

namespace RelayStore

/-- Mints the relay broadcast at or after `since`. -/
def countSubmittedSince (store : RelayStore) (since : Nat) : Nat :=
  store.values.countP fun r => r.submittedAt.any (since ≤ ·)

/-- Records still in flight, oldest first. -/
def listOpen (store : RelayStore) : List RelayRecord :=
  (store.values.filter fun r => !isSettled r).insertionSort fun a b => a.createdAt ≤ b.createdAt

/-- Records with a `retryAt` at or before `now`, earliest first. -/
def listDue (store : RelayStore) (now : Nat) : List RelayRecord :=
  (store.values.filter fun r => r.retryAt.any (· ≤ now)).insertionSort fun a b =>
    a.retryAt.getD 0 ≤ b.retryAt.getD 0

end RelayStore

def BASE_SEPOLIA_EXPLORER : Text := "https://sepolia.basescan.org".toList

inductive RelayKind where
  | sent | confirming | confirmed | arrived | failed
  deriving DecidableEq

/-- What the API answers for a transfer. -/
structure CctpRelayView where
  burnHash : Text
  kind : RelayKind
  /-- With `arrived`: the mint, or `null`. -/
  mintHash : Option (Option Text)
  explorerUrl : Option Text
  /-- Why it failed, or what the relay is waiting out. -/
  reason : Option Text
  /-- With `failed`: whether a new request for the burn starts it over. -/
  retryable : Option Bool
  /-- A transient failure is being retried. -/
  retrying : Bool
  /-- With `retrying`: when the next attempt is due. -/
  nextRetryAt : Option Nat
  recipient : Option Text
  amount : Option Text
  feeExecuted : Option Text
  mintedBy : Option Minter
  createdAt : Nat
  updatedAt : Nat
  deriving DecidableEq

/-- The kind of a record that is not being retried. -/
def RelayState.kind : RelayState → RelayKind
  | .sent => .sent
  | .confirming => .confirming
  | .confirmed | .submitted => .confirmed
  | .arrived => .arrived
  | .failed => .failed

def toRelayView (r : RelayRecord) : CctpRelayView :=
  let retrying := isRetrying r
  let kind :=
    if retrying then (if r.attestation.isSome then .confirmed else .confirming) else r.state.kind
  { burnHash := r.burnHash
    kind
    mintHash := if kind = .arrived then some r.mintHash else none
    explorerUrl := if kind = .arrived then r.mintHash.map (BASE_SEPOLIA_EXPLORER ++ "/tx/".toList ++ ·)
      else none
    reason :=
      if kind = .failed then some (r.failure.getD "the relay stopped".toList)
      else if retrying then some (r.failure.getD "the relay is retrying".toList)
      else none
    retryable := if kind = .failed then some r.retryable else none
    retrying
    nextRetryAt := if retrying then r.retryAt else none
    recipient := r.recipient
    amount := r.amount
    feeExecuted := r.feeExecuted
    mintedBy := r.mintedBy
    createdAt := r.createdAt
    updatedAt := r.updatedAt }

/-- A burn hash as the relay keys it; none if `raw` is not one. -/
def normalizeBurnHash (raw : Text) : Option Text :=
  let hash := toLowerCase (trim raw)
  if hash.length = 64 ∧ hash.all fun c => (Hex.value c).isSome then some hash else none

/-- Read-only lookup of a relay by its Stellar burn hash. -/
def lookupCctpRelay (store : RelayStore) (burnHash : Text) : Option CctpRelayView :=
  (normalizeBurnHash burnHash).bind fun hash => (store.get hash).map toRelayView

end Writz.Relayer.Cctp

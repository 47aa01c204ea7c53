import Mathlib.Data.List.Sort
import Writz.Node.Buffer

/-!
# Claim records of the faucet

`faucet/store.ts`: what the one-claim rules, the per-IP allowance and the daily cap are computed from.
Times are Unix milliseconds.
-/

namespace Writz.Relayer

open Node

structure ClaimRecord where
  /-- Recipient Signet address, lowercase. -/
  address : Text
  ipHash : Text
  userKey : Text
  /-- The Stellar address of the Pollar wallet that claimed. -/
  stellarAddress : Text
  txid : Text
  amountSat : Nat
  createdAt : Int
  deriving DecidableEq

abbrev ClaimStore := List ClaimRecord

namespace ClaimStore

def hasClaimForAddress (store : ClaimStore) (address : Text) : Bool :=
  store.any fun c => c.address = address

def hasClaimForUser (store : ClaimStore) (userKey : Text) : Bool :=
  store.any fun c => c.userKey = userKey

def hasClaimForStellarAddress (store : ClaimStore) (stellarAddress : Text) : Bool :=
  store.any fun c => c.stellarAddress = stellarAddress

/-- Times of the claims from `ipHash` at or after `since`, oldest first. -/
def ipClaimsSince (store : ClaimStore) (ipHash : Text) (since : Int) : List Int :=
  ((store.filter fun c => decide (c.ipHash = ipHash) && decide (since ≤ c.createdAt)).map
    ClaimRecord.createdAt).insertionSort fun a b => a ≤ b

def countSince (store : ClaimStore) (since : Int) : Nat :=
  (store.filter fun c => since ≤ c.createdAt).length

/-- Throws if the account, the Stellar address or the Signet address already claimed. -/
def record (store : ClaimStore) (claim : ClaimRecord) : Node.Result ClaimStore :=
  if store.hasClaimForUser claim.userKey || store.hasClaimForStellarAddress claim.stellarAddress
      || store.hasClaimForAddress claim.address then
    .error "UNIQUE constraint failed: faucet_claims".toList
  else
    .ok (store ++ [claim])

end ClaimStore

end Writz.Relayer

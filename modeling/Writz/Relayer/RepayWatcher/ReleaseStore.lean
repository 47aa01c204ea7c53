import Mathlib.Data.List.Sort
import Writz.Relayer.RpcCursor

/-!
# The repay watcher's durable state

`repay-watcher/release-store.ts`: its RPC events cursor, and the releases still owed to borrowers who
repaid in full.
-/

namespace Writz.Relayer

open Node

/-- First retry delay. It doubles on each attempt, up to `MAX_RETRY_DELAY_MS`. -/
def BASE_RETRY_DELAY_MS : Nat := 30000
def MAX_RETRY_DELAY_MS : Nat := 60 * 60000
/-- Past this a row stops retrying and shows as stuck. -/
def MAX_RELEASE_ATTEMPTS : Nat := 24

def releaseRetryDelayMs (attempts : Nat) : Nat :=
  min (BASE_RETRY_DELAY_MS * 2 ^ min (attempts - 1) 20) MAX_RETRY_DELAY_MS

/-- A row of `pending_releases`. -/
structure PendingRelease where
  contractId : Text
  /-- Position txid in internal byte order, hex. -/
  txid : Text
  firstSeenAt : Nat
  attempts : Nat
  nextAttempt : Nat
  lastError : Option Text
  deriving DecidableEq

/-- The database: its cursor and its rows, which have different contracts or txids. -/
structure ReleaseStore where
  cursor : Option Text
  pending : List PendingRelease
  deriving DecidableEq

/-- Whether a row is the one of a contract's position. -/
def PendingRelease.isFor (row : PendingRelease) (contractId txid : Text) : Bool :=
  decide (row.contractId = contractId) && decide (row.txid = txid)

/-- The order of `due`: by `first_seen_at`, then by txid. -/
def PendingRelease.before (a b : PendingRelease) : Bool :=
  decide (a.firstSeenAt < b.firstSeenAt)
    || (decide (a.firstSeenAt = b.firstSeenAt) && !textLt b.txid a.txid)

/-- The row after one more failed attempt. -/
def PendingRelease.failed (row : PendingRelease) (error : Text) (nextAttempt : Nat) : PendingRelease :=
  { row with attempts := row.attempts + 1, lastError := some error, nextAttempt }

namespace ReleaseStore

def empty : ReleaseStore := { cursor := none, pending := [] }

/-- `INSERT OR IGNORE` of a release that is not recorded yet. -/
def insert (contractId : Text) (now : Nat) (pending : List PendingRelease) (txid : Text) :
    List PendingRelease :=
  if pending.any fun row => row.isFor contractId txid then
    pending
  else
    pending ++ [{ contractId, txid, firstSeenAt := now, attempts := 0, nextAttempt := now
                  lastError := none }]

/-- Records `txids` and advances the cursor, atomically. -/
def recordBatch (store : ReleaseStore) (contractId : Text) (txids : List Text) (cursor : Text)
    (now : Nat) : Node.Result ReleaseStore := do
  assertValidCursor cursor
  .ok { cursor := some cursor, pending := txids.foldl (insert contractId now) store.pending }

/-- Rows ready to retry, oldest first. -/
def due (store : ReleaseStore) (contractId : Text) (now limit : Nat) :
    List PendingRelease :=
  let rows := store.pending.filter fun row => decide (row.contractId = contractId)
    && decide (row.nextAttempt ≤ now) && decide (row.attempts < MAX_RELEASE_ATTEMPTS)
  (rows.insertionSort fun a b => a.before b).take limit

def markFailed (store : ReleaseStore) (contractId txid error : Text) (now : Nat) : ReleaseStore :=
  let row := store.pending.find? fun row => row.isFor contractId txid
  let attempts := (row.map PendingRelease.attempts).getD 0 + 1
  { store with
    pending := store.pending.map fun row =>
      if row.isFor contractId txid then
        row.failed error (now + releaseRetryDelayMs attempts)
      else
        row }

def remove (store : ReleaseStore) (contractId txid : Text) : ReleaseStore :=
  { store with pending := store.pending.filter fun row => !row.isFor contractId txid }

end ReleaseStore

end Writz.Relayer

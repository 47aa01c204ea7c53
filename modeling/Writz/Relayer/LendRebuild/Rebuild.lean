import Writz.Relayer.LendEvents.Poller
import Writz.Relayer.LendRebuild.Verify

/-!
# Rebuilding the relayer's state

`lend-rebuild/rebuild.ts`: replays every event into a temporary database, checks the result against
the contract, and only then swaps it in.
-/

namespace Writz.Relayer

open Node

/-- Attempts to find a quiet window before giving up on a busy contract. -/
def MAX_VERIFY_ROUNDS : Nat := 5
def MAX_CYCLES : Nat := 1000

/-- Events read from an archive file, replayed before RPC. -/
structure ArchiveSource where
  rows : List LendEventRow
  cursor : Text

structure RebuildDeps where
  deployLedger : Nat
  /-- Start from these events instead of `deployLedger`. -/
  archive : Option ArchiveSource
  dryRun : Bool

structure RebuildReport where
  events : Nat
  positions : Nat
  suppliers : Nat
  totalScaled : Int
  repaidInFull : Nat
  missingReleases : List Text
  swapped : Bool
  deriving DecidableEq

def archiveStops (resume oldest : Nat) : Text :=
  "the archive stops at ledger ".toList ++ decimal resume
    ++ ", before RPC retention (oldest ledger ".toList ++ decimal oldest
    ++ "), so the events in between are in neither: use a newer archive".toList

def pastTip (resume latest : Nat) : Text :=
  "the archive's cursor points at ledger ".toList ++ decimal resume ++ ", past the chain tip ".toList
    ++ decimal latest

def outsideRetention (deployLedger oldest : Nat) : Text :=
  "the deployment ledger ".toList ++ decimal deployLedger
    ++ " is outside RPC retention (oldest ledger ".toList ++ decimal oldest
    ++ "), so RPC cannot replay it".toList

def busy : Text :=
  "events kept arriving through ".toList ++ decimal MAX_VERIFY_ROUNDS
    ++ " checks, try again in a quieter moment".toList

/-- RPC must serve everything after the file, or after the deployment. -/
def checkRange (deps : RebuildDeps) (oldest latest : Nat) : Node.Result Unit :=
  match deps.archive with
  | some archive => do
    let resume := ledgerOfCursor archive.cursor
    failIf (resume < oldest) (archiveStops resume oldest)
    failIf (latest < resume) (pastTip resume latest)
  | none => failIf (deps.deployLedger < oldest) (outsideRetention deps.deployLedger oldest)

variable (O : Environment)

/-- The temporary database, with the events of the file. -/
def openTemp (archive : Option ArchiveSource) : Async LendEventStore :=
  match archive with
  | some archive => do
    disk O
    ofResult (LendEventStore.empty.commit archive.rows archive.cursor)
  | none => pure .empty

/-- Reads until the chain has nothing newer. -/
def catchUp (deployLedger : Nat) : Nat → LendEventStore → Async LendEventStore
  | 0, _ => fail "the replay did not reach the chain tip".toList
  | cycles + 1, store => do
    let (store, reached) ← runLendEventsCycle O (some deployLedger) store
    if reached then pure store else catchUp deployLedger cycles store

/-- What a check that met no new event found. -/
structure Checked where
  store : LendEventStore
  state : ReplayedState
  missingReleases : List Text

/-- Checks the replay until no event arrives meanwhile, in at most `rounds + 1` rounds. -/
def verifyRounds (deployLedger : Nat) : Nat → LendEventStore → Async Checked
  | rounds, store => do
    let before := (store.list O.contractId).length
    let state ← ofResult (replay (store.list O.contractId))
    let result ← verifyAgainstChain O state
    let store ← catchUp O deployLedger MAX_CYCLES store
    if (store.list O.contractId).length ≠ before then
      match rounds with
      | 0 => fail busy
      | rounds + 1 => verifyRounds deployLedger rounds store
    else
      match result.mismatch with
      | some mismatch => throw (.mismatch mismatch)
      | none => pure { store, state, missingReleases := result.missingReleases }

/-- Swaps the temporary database in, and queues the missing releases. -/
def swapIn (store : LendEventStore) (missingReleases : List Text) : Async Unit := do
  let cursor ← ofResult (okOr store.cursor "the replay finished with no cursor".toList)
  -- exportTo
  disk O
  -- rmSync of the log and of its index
  disk O
  Program.modify fun m => { m with archive := { m.archive with wal := none } }
  disk O
  -- renameSync
  disk O
  Program.modify fun m => { m with archive := { m.archive with file := some store } }
  -- openReleases, recordBatch
  disk O
  let t ← now O
  disk O
  let m ← Program.get
  let releases ← ofResult (m.releases.recordBatch O.contractId missingReleases cursor t)
  Program.modify fun m => { m with releases }

def rebuildInTemp (deps : RebuildDeps) : Async RebuildReport := do
  let temp ← openTemp O deps.archive
  let temp ← catchUp O deps.deployLedger MAX_CYCLES temp
  let checked ← verifyRounds O deps.deployLedger (MAX_VERIFY_ROUNDS - 1) temp
  let report : RebuildReport :=
    { events := (checked.store.list O.contractId).length
      positions := checked.state.positions.length
      suppliers := checked.state.scaledBySupplier.length
      totalScaled := checked.state.totalScaled
      repaidInFull := checked.state.repaidInFull.length
      missingReleases := checked.missingReleases
      swapped := !deps.dryRun }
  if deps.dryRun then
    pure report
  else do
    swapIn O checked.store checked.missingReleases
    pure report

def rebuildLendState (deps : RebuildDeps) : Async RebuildReport := do
  let k ← request O
  let (oldest, latest) := O.ledgerRange k
  ofResult (checkRange deps oldest latest)
  -- mkdirSync, mkdtempSync, openLendEventStore
  disk O
  disk O
  disk O
  (rebuildInTemp O deps).tryFinally do
    -- close, rmSync of the temporary directory
    disk O
    disk O

end Writz.Relayer

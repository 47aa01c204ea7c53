import Writz.Relayer.RepayWatcher.Handler

/-!
# The repay watcher

`repay-watcher/poller.ts`: one step records the full repayments as pending releases, the other
publishes what is pending.
-/

namespace Writz.Relayer

open Node

/-- Retries of a failed publish before the row waits for the next sweep. -/
def PUBLISH_RETRIES : Nat := 2

/-- The rows a sweep takes. -/
def DUE_LIMIT : Nat := 10

variable (O : Environment)

/-- The txid of a `repay_full` event, in hex. -/
def repaidTxid : Lend.Event → Option Text
  | .repayFull txid _ _ => some (Hex.encode txid.1)
  | _ => none

/-- Reads the events after the cursor, and records every `repay_full` with the new cursor. -/
def runPollCycle (deployLedger : Option Nat) : Async Unit := do
  let m ← Program.get
  let ask ← ofResult
    (match m.releases.cursor, deployLedger with
      | some cursor, _ => .ok (.after cursor)
      | none, some ledger => .ok (.startLedger ledger)
      | none, none =>
        .error "no cursor and WRITZ_LEND_DEPLOY_LEDGER is not set, so the watcher cannot start".toList)
  let k ← request O
  let response := O.page k ask
  let repaid := response.events.filterMap fun event => repaidTxid event.event
  let t ← now O
  disk O
  let m ← Program.get
  let releases ← ofResult (m.releases.recordBatch O.contractId repaid response.cursor t)
  Program.modify fun m => { m with releases }

/-- Tries again at once, `retries` times at most. -/
def withPromptRetry (handle : Async Unit) : Nat → Async Unit
  | 0 => handle
  | retries + 1 => tryCatch handle fun _ => withPromptRetry handle retries

/-- The first line of a message. -/
def firstLine (message : Text) : Text := message.takeWhile (· ≠ '\n')

/-- Publishes one release and removes its row. -/
def publishRow (deps : HandlerDeps) (row : PendingRelease) : Async Unit := do
  let txid := fromHex row.txid
  withPromptRetry (handleRepayFull O deps txid) PUBLISH_RETRIES
  let published ← isReleasePublished O txid
  Program.throwIf (published = false)
    (.error "published, but the release is not visible on chain yet".toList)
  disk O
  Program.modify fun m => { m with releases := m.releases.remove O.contractId row.txid }

/-- Records a failure on its row. -/
def markFailed (row : PendingRelease) (e : Failure) : Async Unit := do
  let t ← now O
  disk O
  Program.modify fun m =>
    { m with releases := m.releases.markFailed O.contractId row.txid (firstLine e.message) t }

/-- Publishes the releases that are due. A failure is recorded on its own row. -/
def runReleaseSweep (deps : HandlerDeps) : Async Unit := do
  let t ← now O
  disk O
  let m ← Program.get
  Program.forEach (fun row => tryCatch (publishRow O deps row) (markFailed O row))
    (m.releases.due O.contractId t DUE_LIMIT)

end Writz.Relayer

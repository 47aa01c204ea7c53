import Writz.Util.Runs
import Writz.Relayer.LendEvents.ArchiveFile
import Writz.Relayer.LendRebuild.Rebuild
import Writz.Relayer.RepayWatcher.Poller

/-!
# Runs of the relayer

The watcher's poll and its release sweep, and rebuilds in between, from a file or from RPC: a rebuild
refuses to run while a relayer uses the same data. An operation that throws leaves what it has done by
then.
-/

namespace Writz.Relayer

open Node

/-- What the relayer's operations are started with. -/
structure RelayerDeps where
  handler : HandlerDeps
  /-- `decodeRawXdr`. -/
  decode : DecodeRaw
  networkPassphrase : Text

inductive Operation where
  | poll (deployLedger : Option Nat)
  | sweep
  /-- `rebuild-lend-state --source archive`, with the text of the file. -/
  | rebuildFromFile (text : Text) (dryRun : Bool)
  /-- `rebuild-lend-state`. -/
  | rebuildFromRpc (deployLedger : Nat) (dryRun : Bool)

variable (O : Environment)

/-- What a file must be for. -/
def RelayerDeps.target (deps : RelayerDeps) : ArchiveTarget where
  contractId := O.contractId
  networkPassphrase := deps.networkPassphrase

/-- What the rebuild starts from, of an accepted file. -/
def ParsedArchive.source (file : ParsedArchive) : ArchiveSource where
  rows := file.rows
  cursor := file.header.cursor

/-- `main` of `lend-rebuild/cli.ts`, with a file; nothing happens where the file is rejected. -/
def rebuildFromFile (deps : RelayerDeps) (text : Text) (dryRun : Bool) : Async (Option RebuildReport) :=
  match parseArchive deps.decode text (deps.target O) with
  | .error _ => pure none
  | .ok file => do
    let report ← rebuildLendState O { deployLedger := 0, archive := some file.source, dryRun }
    pure (some report)

def runOperation (deps : RelayerDeps) : Operation → Async Unit
  | .poll deployLedger => runPollCycle O deployLedger
  | .sweep => runReleaseSweep O deps.handler
  | .rebuildFromFile text dryRun => do
    let _ ← rebuildFromFile O deps text dryRun
    pure ()
  | .rebuildFromRpc deployLedger dryRun => do
    let _ ← rebuildLendState O { deployLedger, archive := none, dryRun }
    pure ()

variable {τ ρ : Type} {H : Lend.Host τ ρ} (O : Outside H)

/-- Every position in the queue is closed. -/
def Machine.QueueClosed (m : Machine) : Prop :=
  ∀ row ∈ m.releases.pending, row.contractId = O.contractId →
    O.statusAt m.requests row.txid = some .Closed

/-- The runs of a relayer that starts with closed positions in its queue, if any. -/
def system (deps : RelayerDeps) : Runs.System Machine Operation where
  init m := m.cosigned = [] ∧ m.QueueClosed O
  step m op := some (runOperation O deps op m).2

end Writz.Relayer

import Writz.Util.Runs
import Writz.Relayer.RepayWatcher.Poller

/-!
# Runs of the repay watcher

Its two steps, in any order, over one database. A process may crash between any two of its
transactions, and start again later.
-/

namespace Writz.Relayer

variable {τ ρ : Type} {H : Lend.Host τ ρ} (O : Outside H)

/-- What a process meets that crashes before its file operation number `n`: nothing it does to a file
from there on takes place. -/
def Outside.crashing (n : Nat) : Outside H :=
  { O with diskFails := fun k => if n ≤ k then some "crashed".toList else O.diskFails k }

inductive WatcherStep where
  | poll
  | sweep

def runWatcherStep (deps : HandlerDeps) (deployLedger : Nat) : WatcherStep → Async Unit
  | .poll => runPollCycle O (some deployLedger)
  | .sweep => runReleaseSweep O deps

inductive WatcherLabel where
  /-- A step, to its end or to where it throws. -/
  | run (step : WatcherStep)
  /-- A step whose process crashes after some file operations of it. -/
  | crash (step : WatcherStep) (operations : Nat)

/-- The runs of the watcher of one contract, from an empty database. -/
def watcher (deps : HandlerDeps) (deployLedger : Nat) : Runs.System Machine WatcherLabel where
  init m := m.releases = .empty
  step m
    | .run step => some (runWatcherStep O deps deployLedger step m).2
    | .crash step operations =>
      some (runWatcherStep (O.crashing (m.operations + operations)) deps deployLedger step m).2

end Writz.Relayer

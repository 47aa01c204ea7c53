import Writz.Relayer.Process

/-!
# Reading the events of the contract

`lend-events/poller.ts`: pages of events, each committed on its own.
-/

namespace Writz.Relayer

open Node

/-- Pages read per poll. -/
def MAX_PAGES_PER_POLL : Nat := 20

variable (O : Environment)

/-- What the next page is asked for: what is after the cursor, or the events from the deployment on. -/
def nextRequest (cursor : Option Text) (deployLedger : Option Nat) : Node.Result EventsRequest :=
  match cursor, deployLedger with
  | some cursor, _ => .ok (.after cursor)
  | none, some ledger => .ok (.startLedger ledger)
  | none, none => .error "empty archive and WRITZ_LEND_DEPLOY_LEDGER is not set".toList

/-- The rows of the archived ones among some events. -/
def eventRows (events : List ChainEvent) : List LendEventRow :=
  events.filterMap fun event => decodeLendEvent O.encodeRawXdr event O.contractId

/-- Reads and commits one page; whether it had events. -/
def readPage (deployLedger : Option Nat) (store : LendEventStore) : Async (LendEventStore × Bool) := do
  let ask ← ofResult (nextRequest store.cursor deployLedger)
  let k ← request O
  let response := O.page k ask
  disk O
  let store ← ofResult (store.commit (eventRows O response.events) response.cursor)
  pure (store, !response.events.isEmpty)

/-- Reads at most `pages` pages; whether it reached the tip. -/
def readPages (deployLedger : Option Nat) : Nat → LendEventStore → Async (LendEventStore × Bool)
  | 0, store => pure (store, false)
  | pages + 1, store => do
    let (store, more) ← readPage O deployLedger store
    if more then readPages deployLedger pages store else pure (store, true)

def runLendEventsCycle (deployLedger : Option Nat) (store : LendEventStore) :
    Async (LendEventStore × Bool) :=
  readPages O deployLedger MAX_PAGES_PER_POLL store

/-- The rows of the contract's events after a cursor, as they are at a request. -/
def served {τ ρ : Type} {H : Lend.Host τ ρ} (O : Outside H) (cursor : Text) (k : Nat) : List LendEventRow :=
  eventRows O ((O.chain k).log.filter fun event => textLt cursor event.id)

end Writz.Relayer

import Writz.Relayer.RpcCursor
import Writz.Relayer.VaultWatcher.Store
import Writz.Util.Program

/-!
# The vault watcher

`vault-watcher/poller.ts`: reads the events after the stored cursor, stores the deposits and withdrawals
among them, and then the new cursor.
-/

namespace Writz.Relayer.Vault

open Node

def CONTRACT_TAG : Text := "DeFindexVault".toList
def DEPOSIT_TOPIC : Text := "deposit".toList
def WITHDRAW_TOPIC : Text := "withdraw".toList

/-- What the code reads of an event's value. -/
structure VaultEventValue where
  depositor : Option Text
  withdrawer : Option Text
  amounts : Option (List Int)
  amountsWithdrawn : Option (List Int)
  deriving DecidableEq

/-- An event of the vault, as RPC serves it, its topics and value decoded to native values. -/
structure RpcEvent where
  /-- A TOID and event index, ordered like the chain. -/
  id : Text
  /-- `none` for a topic that is no text. -/
  topic : List (Option Text)
  value : VaultEventValue
  ledger : Nat
  /-- In milliseconds. -/
  ledgerClosedAt : Nat
  txHash : Text
  deriving DecidableEq

structure DecodedVaultEvent where
  kind : Option VaultEventKind
  depositor : Option Text
  amountStroops : Option Text

/-- Decodes an event into its kind, depositor and amount; all missing for other events. -/
def decodeVaultEvent (event : RpcEvent) : DecodedVaultEvent :=
  let contractTag := (event.topic[0]?).join
  let eventTag := (event.topic[1]?).join
  if contractTag ≠ some CONTRACT_TAG then { kind := none, depositor := none, amountStroops := none }
  else
    let kind := if eventTag = some DEPOSIT_TOPIC then some VaultEventKind.deposit
      else if eventTag = some WITHDRAW_TOPIC then some .withdraw else none
    match kind with
    | none => { kind := none, depositor := none, amountStroops := none }
    | some kind =>
      let depositor := if kind = .deposit then event.value.depositor else event.value.withdrawer
      let amounts :=
        (if kind = .deposit then event.value.amounts else event.value.amountsWithdrawn).getD []
      let total := amounts.foldl (fun sum a => sum + a) 0
      { kind := some kind
        depositor
        -- an empty text counts as missing
        amountStroops := if depositor.any (· ≠ []) then some (textOfBigInt total) else none }

inductive EventsRequest where
  | after (cursor : Text)
  | startLedger (ledger : Nat)

structure EventsPage where
  events : List RpcEvent
  cursor : Text

/-- What a poll cycle meets. -/
structure PollCycleDeps where
  getEvents : EventsRequest → Node.Result EventsPage
  /-- `getLatestLedger().sequence`. -/
  getLatestLedger : Node.Result Nat
  decodeEvent : RpcEvent → DecodedVaultEvent
  /-- Why an operation on a database fails, if it does. -/
  diskFails : Nat → Option Text

/-- The two databases, and the operations made on them in this cycle. -/
structure Databases where
  rows : List VaultEvent
  cursor : Option Text
  operations : Nat

abbrev Cycle (α : Type) := Program Databases Text α

variable (deps : PollCycleDeps)

/-- One operation on a database. -/
def disk : Cycle Unit := fun d =>
  let k := d.operations
  let d := { d with operations := k + 1 }
  match deps.diskFails k with
  | some message => (.error message, d)
  | none => (.ok (), d)

def persist (event : VaultEvent) : Cycle Unit := do
  disk deps
  Program.modify fun d => { d with rows := insertVaultEvent event d.rows }

/-- The row of an event, if it is a deposit or a withdrawal. -/
def rowOf (cursor : Text) (event : RpcEvent) : Option VaultEvent :=
  match deps.decodeEvent event with
  | { kind := some kind, depositor := some depositor, amountStroops := some amountStroops } =>
    if depositor = [] then none
    else some
      { cursor
        kind
        depositor
        amountStroops
        ledger := event.ledger
        txHash := event.txHash
        ledgerCloseTime := event.ledgerClosedAt / 1000 }
  | _ => none

/-- Whether storing a row failed. -/
def tryPersist (row : VaultEvent) : Cycle Bool :=
  tryCatch (do persist deps row; pure false) fun _ => pure true

/-- Stores what it can of a page; whether something failed. -/
def persistAll (cursor : Text) : List RpcEvent → Cycle Bool
  | [] => pure false
  | event :: events => do
    let failed ← (rowOf deps cursor event).elim (pure false) (tryPersist deps)
    let later ← persistAll cursor events
    pure (failed || later)

def readCursor : Cycle (Option Text) := do
  disk deps
  let d ← Program.get
  pure d.cursor

def writeCursor (cursor : Text) : Cycle Unit := do
  Program.ofExcept (assertValidCursor cursor)
  disk deps
  Program.modify fun d => { d with cursor := some cursor }

/-- The events after the cursor, or in a first run those from the current tip on. -/
def readEvents : Option Text → Cycle EventsPage
  | some cursor => Program.ofExcept (deps.getEvents (.after cursor))
  | none => do
    let sequence ← Program.ofExcept deps.getLatestLedger
    Program.ofExcept (deps.getEvents (.startLedger sequence))

/-- Runs a single poll cycle. -/
def runVaultPollCycle : Cycle Unit := do
  let persistedCursor ← readCursor deps
  let response ← readEvents deps persistedCursor
  let sawFailure ← persistAll deps response.cursor response.events
  if sawFailure then pure () else writeCursor deps response.cursor

end Writz.Relayer.Vault

import Writz.Relayer.VaultWatcher.Poller
import Writz.Util.EventLog
import Writz.Util.Runs

/-!
# Runs of the vault watcher

Poll cycles over one pair of databases, while the chain goes on. RPC serves the vault's events in their
order, up to the cursor it answers with. A process that crashes makes no more operations on a database.
-/

namespace Writz.Relayer.Vault

open Node

structure Watch where
  /-- The vault's events so far. -/
  log : List RpcEvent
  /-- The latest ledger. -/
  latest : Nat
  rows : List VaultEvent
  cursor : Option Text

/-- Whether RPC has an event to serve. -/
def EventsRequest.covers : EventsRequest → RpcEvent → Bool
  | .after cursor, e => textLt cursor e.id
  | .startLedger ledger, e => decide (ledger ≤ e.ledger)

/-- The answers of RPC, where they go up to a cursor; `none` where requests fail. -/
def Watch.getEvents (s : Watch) (answer : Option Text) (request : EventsRequest) : Node.Result EventsPage :=
  match answer with
  | none => .error "request failed".toList
  | some cursor =>
    .ok { events := s.log.filter fun e => request.covers e && !textLt cursor e.id, cursor }

def Watch.deps (s : Watch) (answer : Option Text) (diskFails : Nat → Option Text) : PollCycleDeps where
  getEvents := s.getEvents answer
  getLatestLedger := if answer.isSome then .ok s.latest else .error "request failed".toList
  decodeEvent := decodeVaultEvent
  diskFails

inductive Label where
  /-- Ledgers close, up to a new latest one. -/
  | close (events : List RpcEvent) (latest : Nat)
  /-- A poll cycle, the answer RPC gives it, and the operations on a database that fail. -/
  | poll (answer : Option Text) (diskFails : Nat → Option Text)

/-- Events that may come next. -/
def Watch.Next (s : Watch) (events : List RpcEvent) (latest : Nat) : Prop :=
  EventLog.Sorted textLt RpcEvent.id events ∧ s.latest ≤ latest ∧
    ∀ e ∈ events, isValidCursor e.id = true ∧ e.ledger = ledgerOfCursor e.id ∧ s.latest < e.ledger ∧
      e.ledger ≤ latest

/-- A cursor RPC may answer with: it points into the chain, and not before the cursor it was asked for. -/
def Watch.Answers (s : Watch) (answer : Text) : Prop :=
  isValidCursor answer = true ∧ ledgerOfCursor answer ≤ s.latest ∧
    ∀ cursor ∈ s.cursor, textLt answer cursor = false

instance (s : Watch) (events : List RpcEvent) (latest : Nat) : Decidable (s.Next events latest) :=
  inferInstanceAs (Decidable (List.Pairwise _ _ ∧ _ ∧ _))

instance (s : Watch) (answer : Text) : Decidable (s.Answers answer) :=
  inferInstanceAs (Decidable (_ ∧ _ ∧ _))

def Watch.poll (s : Watch) (answer : Option Text) (diskFails : Nat → Option Text) : Watch :=
  let d := (runVaultPollCycle (s.deps answer diskFails) { rows := s.rows, cursor := s.cursor, operations := 0 }).2
  { s with rows := d.rows, cursor := d.cursor }

/-- The runs that start from a cursor, with nothing stored. -/
def watcher (start : Text) : Runs.System Watch Label where
  init s := s.rows = [] ∧ s.cursor = some start ∧ EventLog.Sorted textLt RpcEvent.id s.log ∧
    ∀ e ∈ s.log, isValidCursor e.id = true ∧ e.ledger = ledgerOfCursor e.id ∧ e.ledger ≤ s.latest
  step s
    | .close events latest =>
      if s.Next events latest then some { s with log := s.log ++ events, latest } else none
    | .poll answer diskFails =>
      if ∀ cursor ∈ answer, s.Answers cursor then some (s.poll answer diskFails) else none

/-! ## What is to be stored -/

/-- What counts of an event. -/
structure VaultFact where
  kind : VaultEventKind
  depositor : Text
  amountStroops : Text
  ledger : Nat
  txHash : Text
  deriving DecidableEq

def VaultEvent.fact (row : VaultEvent) : VaultFact where
  kind := row.kind
  depositor := row.depositor
  amountStroops := row.amountStroops
  ledger := row.ledger
  txHash := row.txHash

/-- The fact of an event that is a deposit or a withdrawal with a depositor. -/
def RpcEvent.fact (e : RpcEvent) : Option VaultFact :=
  match decodeVaultEvent e with
  | { kind := some kind, depositor := some depositor, amountStroops := some amountStroops } =>
    if depositor = [] then none
    else some { kind, depositor, amountStroops, ledger := e.ledger, txHash := e.txHash }
  | _ => none

/-- The stored rows are the deposits and withdrawals from the start up to the cursor, and some after it,
each once. -/
def Watch.Exact (start : Text) (s : Watch) : Prop :=
  ∃ cursor, s.cursor = some cursor ∧ ∃ extra : List RpcEvent,
    extra.Sublist (s.log.filter fun e => textLt cursor e.id) ∧
    ((readAllVaultEvents s.rows).map VaultEvent.fact).Perm
      ((EventLog.span textLt RpcEvent.id start cursor s.log).filterMap RpcEvent.fact
        ++ extra.filterMap RpcEvent.fact)

/-- No two deposits or withdrawals of one transaction are alike, among some events. -/
def Distinct (events : List RpcEvent) : Prop :=
  ∀ e ∈ events, ∀ e' ∈ events, ∀ f ∈ e.fact, ∀ f' ∈ e'.fact, f.txHash = f'.txHash →
    f.depositor = f'.depositor → f.kind = f'.kind → f.amountStroops = f'.amountStroops → e = e'

/-- A poll is answered with no two alike, of all those since the start. -/
def Told (start : Text) (s : Watch) : Label → Prop
  | .poll (some answer) _ => Distinct (EventLog.span textLt RpcEvent.id start answer s.log)
  | _ => True

end Writz.Relayer.Vault

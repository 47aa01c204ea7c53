import Writz.Relayer.DepositReads.Index
import Writz.Util.EventLog
import Writz.Util.Runs

/-!
# Runs of the index

Callers and the answers that a walk awaits, in any order, while ledgers close and RPC drops the oldest
ones. RPC serves what it retains, in the order of the chain, up to the cursor it answers with.
-/

namespace Writz.Relayer.DepositReads

open Node

structure Reader where
  /-- The contract's events so far. -/
  log : List RpcEvent
  /-- The ledgers RPC retains. -/
  oldest : Nat
  latest : Nat
  index : PositionEventIndex
  deriving DecidableEq

inductive Label where
  /-- Ledgers close, up to a new latest one. -/
  | close (events : List RpcEvent) (latest : Nat)
  /-- RPC drops ledgers. -/
  | drop (oldest : Nat)
  /-- `lookup`, `history` and `refresh`. -/
  | call (force : Bool) (now : Nat)
  /-- `getEvents` answers with a page up to a cursor. -/
  | page (cursor : Text) (now : Nat)
  /-- `getHealth` answers. -/
  | health (now : Nat)
  /-- The request fails. -/
  | failure

namespace Reader

variable (s : Reader)

/-- Events that may come next. -/
def Next (events : List RpcEvent) (latest : Nat) : Prop :=
  EventLog.Sorted textLt RpcEvent.id events ∧ s.latest ≤ latest ∧
    ∀ e ∈ events, isValidCursor e.id = true ∧ e.ledger = ledgerOfCursor e.id ∧ s.latest < e.ledger ∧
      e.ledger ≤ latest

/-- Whether an event is asked for. -/
def covers : Stage → RpcEvent → Bool
  | .events cursor, e => textLt cursor e.id
  | .oldest ledger, e => decide (ledger ≤ e.ledger)
  | _, _ => false

/-- What RPC serves of what it retains, up to a cursor. -/
def served (stage : Stage) (cursor : Text) : List RpcEvent :=
  s.log.filter fun e => covers stage e && decide (s.oldest ≤ e.ledger) && !textLt cursor e.id

/-- A page RPC may answer with: its cursor points into the chain, and not before what was asked for, and a
page that is not full ends with a ledger. -/
def Serves (stage : Stage) (cursor : Text) : Prop :=
  isValidCursor cursor = true ∧ ledgerOfCursor cursor ≤ s.latest ∧
    (match stage with
      | .events asked => textLt cursor asked = false
      | .oldest ledger => ledger ≤ ledgerOfCursor cursor
      | _ => False) ∧
    (s.served stage cursor).length ≤ PAGE_LIMIT ∧
    ((s.served stage cursor).length < PAGE_LIMIT →
      ∀ e ∈ s.log, e.ledger ≤ ledgerOfCursor cursor → textLt cursor e.id = false)

instance (events : List RpcEvent) (latest : Nat) : Decidable (s.Next events latest) :=
  inferInstanceAs (Decidable (List.Pairwise _ _ ∧ _ ∧ _))

instance (stage : Stage) (cursor : Text) : Decidable (s.Serves stage cursor) := by
  unfold Serves
  cases stage <;> exact inferInstance

def pageUpTo (stage : Stage) (cursor : Text) : EventsPage where
  events := s.served stage cursor
  cursor
  latestLedger := s.latest

end Reader

/-- The runs of an index that has nothing yet. -/
def reader (options : PositionEventIndexOptions) : Runs.System Reader Label where
  init s := s.index = .empty ∧ EventLog.Sorted textLt RpcEvent.id s.log ∧
    ∀ e ∈ s.log, isValidCursor e.id = true ∧ e.ledger = ledgerOfCursor e.id ∧ e.ledger ≤ s.latest
  step s
    | .close events latest =>
      if s.Next events latest then some { s with log := s.log ++ events, latest } else none
    | .drop oldest => if s.oldest ≤ oldest then some { s with oldest } else none
    | .call force now => some { s with index := s.index.refresh options force now }
    | .page cursor now =>
      match s.index.inflight with
      | some { page, stage } =>
        if s.Serves stage cursor then
          some { s with index := s.index.onPage options page (s.pageUpTo stage cursor) now }
        else none
      | none => none
    | .health now =>
      match s.index.inflight with
      | some { page, stage := .rejected cursor } =>
        some { s with index := s.index.onHealth { page, stage := .rejected cursor } s.oldest now }
      | some { page, stage := .health } =>
        some { s with index := s.index.onHealth { page, stage := .health } s.oldest now }
      | _ => none
    | .failure => s.index.inflight.map fun walk => { s with index := s.index.onFailure walk }

/-- The step ends a walk that has come to the tip: its last page is not full and ends with the latest
ledger. -/
def EndsAtTip (t : Runs.Transition Reader Label) : Prop :=
  match t.label, t.pre.index.inflight with
  | .page cursor _, some walk =>
    (t.pre.served walk.stage cursor).length < PAGE_LIMIT ∧ t.pre.latest ≤ ledgerOfCursor cursor
  | _, _ => False

/-- The step ends a walk that resolves: it has come to the tip, or its pages are used up. -/
def Resolves (t : Runs.Transition Reader Label) : Prop :=
  match t.label, t.pre.index.inflight with
  | .page cursor _, some walk =>
    (t.pre.served walk.stage cursor).length < PAGE_LIMIT ∧ t.pre.latest ≤ ledgerOfCursor cursor ∨
      ¬walk.page + 1 < MAX_PAGES_PER_REFRESH
  | .health _, some { page, stage := .rejected cursor } =>
    ledgerOfCursor cursor < t.pre.oldest ∧ ¬page + 1 < MAX_PAGES_PER_REFRESH
  | _, _ => False

/-- RPC retains an event. -/
def Reader.Retains (s : Reader) (e : RpcEvent) : Prop := e ∈ s.log ∧ s.oldest ≤ e.ledger

/-- The record of an event of a position. -/
def recordOf (options : PositionEventIndexOptions) (txid : Text) (e : RpcEvent) :
    Option PositionEventRecord :=
  match options.decode e with
  | none => none
  | some decoded =>
    if decoded.txid = txid then
      some { decoded with stellarTxHash := e.txHash, ledger := e.ledger, ledgerClosedAt := e.ledgerClosedAt }
    else none

/-- No transaction has two events of one kind for one position. -/
def Distinct (options : PositionEventIndexOptions) (log : List RpcEvent) : Prop :=
  ∀ e ∈ log, ∀ e' ∈ log, ∀ d ∈ options.decode e, ∀ d' ∈ options.decode e', d.txid = d'.txid →
    d.kind = d'.kind → e.txHash = e'.txHash → e = e'

/-- The history of every position is that of some of its events, each once and in the order of the chain, among
them all that RPC retained whenever a walk resolved. -/
def HistoryComplete (options : PositionEventIndexOptions) (tr : List (Runs.Transition Reader Label))
    (s : Reader) : Prop :=
  ∀ txidInternal, ∃ events : List RpcEvent, events.Sublist s.log ∧ s.log.Nodup ∧
    (∀ e ∈ events, (recordOf options (toLowerCase txidInternal) e).isSome = true) ∧
    s.index.history txidInternal = events.filterMap (recordOf options (toLowerCase txidInternal)) ∧
    ∀ e, (recordOf options (toLowerCase txidInternal) e).isSome = true →
      (∃ t ∈ tr, Resolves t ∧ t.post.Retains e) → e ∈ events

end Writz.Relayer.DepositReads

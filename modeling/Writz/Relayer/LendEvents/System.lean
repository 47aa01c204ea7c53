import Mathlib.Logic.Function.Basic
import Writz.Relayer.LendEvents.Poller
import Writz.Relayer.RepayWatcher.System

/-!
# Runs of the archive

The poller of `lend-events/poller.ts` over one database. A restart may configure another contract: the
rows are kept by contract, the cursor is one for all.
-/

namespace Writz.Relayer

open Node

variable {τ ρ : Type}

/-- The contracts of one chain, as RPC serves them: one ordered stream of events, each event of one
contract, and no cursor that goes back. -/
structure Network (H : Text → Lend.Host τ ρ) where
  /-- What the relayer meets while it follows a contract. -/
  outside : ∀ c, Outside (H c)
  contractId : ∀ c, (outside c).contractId = c
  deployLedger : Text → Nat
  deployed : ∀ c k, ∀ e ∈ ((outside c).chain k).log, deployLedger c ≤ e.ledger
  unique : ∀ c c' j k, ∀ e ∈ ((outside c).chain j).log, ∀ e' ∈ ((outside c').chain k).log,
    e.id = e'.id → c = c'
  later : ∀ c c' k request j, ∀ e ∈ ((outside c').chain j).log, e ∉ ((outside c').chain k).log →
    textLt ((outside c).page k request).cursor e.id = true
  advances : ∀ c k cursor, isValidCursor cursor = true →
    textLt ((outside c).page k (.after cursor)).cursor cursor = false

/-! ## The live archive -/

/-- What the database holds; one that is opened for the first time is empty. -/
def ArchiveFiles.contents (archive : ArchiveFiles) : LendEventStore :=
  (archive.wal <|> archive.file).getD .empty

section Cycle

variable (O : Environment)

/-- One page, into the live archive. -/
def archivePage (deployLedger : Option Nat) : Async Bool := do
  let m ← Program.get
  let (store, more) ← readPage O deployLedger m.archive.contents
  Program.modify fun m => { m with archive := { m.archive with wal := some store } }
  pure more

def archivePages (deployLedger : Option Nat) : Nat → Async Bool
  | 0 => pure false
  | pages + 1 => do
    let more ← archivePage O deployLedger
    if more then archivePages deployLedger pages else pure true

/-- `runLendEventsCycle` on the live archive, where the pages before one that throws stay. -/
def runArchiveCycle (deployLedger : Option Nat) : Async Bool :=
  archivePages O deployLedger MAX_PAGES_PER_POLL

end Cycle

/-! ## The runs -/

/-- A relayer that archives, with its configuration. -/
structure Archiver where
  machine : Machine
  /-- `WRITZ_LEND_ID`. -/
  contractId : Text
  /-- `WRITZ_LEND_DEPLOY_LEDGER`. -/
  deployLedger : Option Nat
  /-- The cursor at which the archive last left a contract, if it did. -/
  left : Text → Option Text

inductive ArchiverLabel where
  | poll
  /-- A poll whose process crashes after some file operations of it. -/
  | crash (operations : Nat)
  /-- A restart for a contract, with or without its deploy ledger. -/
  | restart (contractId : Text) (configured : Bool)

variable {H : Text → Lend.Host τ ρ} (N : Network H)

def Archiver.store (s : Archiver) : LendEventStore := s.machine.archive.contents

/-- Up to where the archive has followed a contract. -/
def Archiver.followed (s : Archiver) : Text → Option Text :=
  Function.update s.left s.contractId s.store.cursor

def Network.configuredLedger (c : Text) (configured : Bool) : Option Nat :=
  if configured then some (N.deployLedger c) else none

def Archiver.restart (s : Archiver) (contractId : Text) (configured : Bool) : Archiver :=
  { s with contractId, deployLedger := N.configuredLedger contractId configured, left := s.followed }

/-- The runs over one database, from an empty one. -/
def archiver : Runs.System Archiver ArchiverLabel where
  init s := s.store = .empty ∧ (∃ configured, s.deployLedger = N.configuredLedger s.contractId configured)
    ∧ s.left = fun _ => none
  step s
    | .poll =>
      some { s with machine := (runArchiveCycle (N.outside s.contractId) s.deployLedger s.machine).2 }
    | .crash operations =>
      let O := (N.outside s.contractId).crashing (s.machine.operations + operations)
      some { s with machine := (runArchiveCycle O s.deployLedger s.machine).2 }
    | .restart contractId configured => some (s.restart N contractId configured)

/-- The rows of a contract's archived events up to a cursor, in the order of the chain. -/
def Network.rowsUpTo (c : Text) (cursor : Option Text) (k : Nat) : List LendEventRow :=
  match cursor with
  | none => []
  | some cursor =>
    eventRows (N.outside c) (((N.outside c).chain k).log.filter fun e => !textLt cursor e.id)

/-- The list of the configured contract has each of its archived events up to the cursor, once and in
order, and nothing else: as of the last request, and from then on. -/
def Archiver.Whole (s : Archiver) : Prop :=
  ∀ k, s.machine.requests ≤ k + 1 →
    s.store.list s.contractId = N.rowsUpTo s.contractId s.store.cursor k

/-- A restart finds no archived event of its contract between the cursor at which the archive last left
that contract, if it did, and the stored one. -/
def Network.Resumes (s : Archiver) : ArchiverLabel → Prop
  | .restart c _ => ∀ cursor, s.store.cursor = some cursor →
    ∀ e ∈ ((N.outside c).chain s.machine.requests).log, (eventColumns e.event).isSome = true →
      textLt cursor e.id = false → ∃ x, s.followed c = some x ∧ textLt x e.id = false
  | _ => True

end Writz.Relayer

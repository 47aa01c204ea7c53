import Writz.Util.Program
import Writz.Lend.System
import Writz.Relayer.LendEvents.Decode
import Writz.Relayer.RepayWatcher.ReleaseStore

/-!
# The relayer process and what it meets

The relayer's code runs between its requests, and every request and every file operation may fail. An
`Environment` may answer anything. In an `Outside` RPC is honest: the chain is what it is at each
request, whatever anyone did to it since the one before, and RPC tells it as it is at that moment.
-/

namespace Writz.Relayer

open Node

/-! ## The chain -/

/-- `writz-lend` at one moment, and its events as RPC knows them. -/
structure Chain (τ ρ : Type) where
  world : Lend.World τ ρ
  log : List ChainEvent

/-- The chain at each of the relayer's requests: the states of one run of the contract, with event
ids that grow. -/
structure History {τ ρ : Type} (H : Lend.Host τ ρ) where
  chain : Nat → Chain τ ρ
  reachable : Runs.Reachable (Lend.system .i128 H) (chain 0).world
  goes_on : ∀ k, Runs.Reachable ((Lend.system .i128 H).after (chain k).world) (chain (k + 1)).world
  log_events : ∀ k, (chain k).log.map ChainEvent.event = (chain k).world.events
  log_grows : ∀ k, (chain k).log <+: (chain (k + 1)).log
  id_valid : ∀ k, ∀ e ∈ (chain k).log, isValidCursor e.id = true ∧ e.ledger = ledgerOfCursor e.id
  id_sorted : ∀ k, (chain k).log.Pairwise fun e e' => textLt e.id e'.id = true

/-- What `getEvents` is asked for. -/
inductive EventsRequest where
  | after (cursor : Text)
  | startLedger (ledger : Nat)

/-- Whether an event is asked for. -/
def EventsRequest.covers : EventsRequest → ChainEvent → Bool
  | .after cursor, e => textLt cursor e.id
  | .startLedger ledger, e => decide (ledger ≤ e.ledger)

structure EventsPage where
  events : List ChainEvent
  cursor : Text

/-- RPC answers with the events up to the cursor it gives. What is not on the chain yet comes after
that cursor. -/
structure OrderedRpc {τ ρ : Type} {H : Lend.Host τ ρ} (h : History H)
    (page : Nat → EventsRequest → EventsPage) : Prop where
  events : ∀ k request, (page k request).events
    = (h.chain k).log.filter fun e => request.covers e && !textLt (page k request).cursor e.id
  later : ∀ k request j, ∀ e ∈ (h.chain j).log, e ∉ (h.chain k).log →
    textLt (page k request).cursor e.id = true

/-- What the relayer's requests and file operations meet, whoever answers them, and its
configuration. -/
structure Environment where
  /-- `WRITZ_LEND_ID`. -/
  contractId : Text
  /-- Why a request fails, or its answer cannot be decoded, if so. -/
  fails : Nat → Option Text
  page : Nat → EventsRequest → EventsPage
  /-- The ledgers RPC can serve events for, the oldest and the latest. -/
  ledgerRange : Nat → Nat × Nat
  position : Nat → BytesN 32 → Option Lend.Position
  releasePsbt : Nat → BytesN 32 → Option Bytes
  /-- `get_supply_position(lender).scaled`. -/
  scaledSupply : Nat → Text → Int
  /-- `get_protocol_state().total_scaled_supply`. -/
  totalScaledSupply : Nat → Int
  /-- What Esplora answers for a txid. -/
  rawTx : Nat → Text → Text
  encodeRawXdr : Lend.Event → Text
  /-- Why an operation on a file or a database fails, if it does. -/
  diskFails : Nat → Option Text
  /-- `Date.now()`. -/
  now : Nat → Nat

/-- What the relayer meets where RPC is honest: the chain's events, and the contract's views. -/
structure Outside {τ ρ : Type} (H : Lend.Host τ ρ) extends History H, Environment where
  ordered : OrderedRpc toHistory page
  position_eq : ∀ k key, position k key = (chain k).world.positions.lookup key
  releasePsbt_eq : ∀ k key, releasePsbt k key = (chain k).world.releasePsbts.lookup key
  scaledSupply_eq : ∀ k lender,
    scaledSupply k lender = Lend.supplyBalanceOf (chain k).world ⟨utf8 lender⟩
  totalScaledSupply_eq : ∀ k,
    totalScaledSupply k = (Lend.getProtocol (chain k).world).totalScaledSupply

instance {τ ρ : Type} {H : Lend.Host τ ρ} : CoeOut (Outside H) Environment where
  coe O := O.toEnvironment

/-- RPC answers with no events only where there are none, no cursor goes back, and what is not on the
chain yet comes in a later ledger than the latest one. -/
structure Outside.Steady {τ ρ : Type} {H : Lend.Host τ ρ} (O : Outside H) : Prop where
  tip : ∀ k request, (O.page k request).events = [] →
    ∀ e ∈ (O.chain k).log, request.covers e = false
  advances : ∀ k cursor, isValidCursor cursor = true →
    textLt (O.page k (.after cursor)).cursor cursor = false
  latest : ∀ k j, ∀ e ∈ (O.chain j).log, e ∉ (O.chain k).log → (O.ledgerRange k).2 < e.ledger

/-! ## The process -/

/-- What is thrown. -/
inductive Failure where
  | error (message : Text)
  /-- `RebuildMismatch`. -/
  | mismatch (message : Text)
  deriving DecidableEq

def Failure.message : Failure → Text
  | .error message => message
  | .mismatch message => message

/-- The live archive: the database file, and the newer contents a write-ahead log holds. -/
structure ArchiveFiles where
  file : Option LendEventStore
  wal : Option LendEventStore

/-- What the protocol's key was used for. -/
inductive Deed where
  /-- `psbt.signInputAsync(0, signer)`. -/
  | sign
  /-- `publish_release_psbt`. -/
  | publish (psbt : Bytes)
  deriving DecidableEq

/-- A deed for a position, at a request. -/
structure CoSigning where
  request : Nat
  txid : Bytes
  deed : Deed
  deriving DecidableEq

/-- The state of the process: what it has on disk, and how far it got. -/
structure Machine where
  /-- The requests made so far. -/
  requests : Nat
  /-- The file operations made so far. -/
  operations : Nat
  archive : ArchiveFiles
  releases : ReleaseStore
  cosigned : List CoSigning

abbrev Async (α : Type) := Program Machine Failure α

variable (O : Environment)

/-- One request; the answer is the one of its moment. -/
def request : Async Nat := fun m =>
  let k := m.requests
  let m := { m with requests := k + 1 }
  match O.fails k with
  | some message => (.error (.error message), m)
  | none => (.ok k, m)

/-- One operation on a file or a database. -/
def disk : Async Unit := fun m =>
  let k := m.operations
  let m := { m with operations := k + 1 }
  match O.diskFails k with
  | some message => (.error (.error message), m)
  | none => (.ok (), m)

/-- `Date.now()`. -/
def now : Async Nat := do
  let m ← Program.get
  pure (O.now m.operations)

/-- A result of a function that may throw an `Error`. -/
def ofResult {α : Type} (r : Node.Result α) : Async α :=
  Program.ofExcept (r.mapError Failure.error)

def fail {α : Type} (message : Text) : Async α := throw (.error message)

/-! ## Views of the contract -/

/-- A position's key, of its txid; `none` where the client throws. -/
def txidKey (txid : Bytes) : Option (BytesN 32) :=
  if h : txid.length = 32 then some ⟨txid, h⟩ else none

/-- The status of the position that a txid text names, at a request. -/
def History.statusAt {τ ρ : Type} {H : Lend.Host τ ρ} (h : History H) (k : Nat) (txid : Text) : Option Lend.PositionStatus :=
  (txidKey (fromHex txid)).bind fun key =>
    ((h.chain k).world.positions.lookup key).map Lend.Position.status

/-- Whether the contract holds a release for the position that a txid text names, at a request. -/
def History.releasedAt {τ ρ : Type} {H : Lend.Host τ ρ} (h : History H) (k : Nat) (txid : Text) : Bool :=
  (txidKey (fromHex txid)).any fun key => ((h.chain k).world.releasePsbts.lookup key).isSome

/-- The `txid` argument of a call. -/
def txidArgument (txid : Bytes) : Async (BytesN 32) :=
  match txidKey txid with
  | some key => pure key
  | none => fail "txid has the wrong length".toList

def getPosition (txid : Bytes) : Async (Option Lend.Position) := do
  let key ← txidArgument txid
  let k ← request O
  pure (O.position k key)

def getReleasePsbt (txid : Bytes) : Async (Option Bytes) := do
  let key ← txidArgument txid
  let k ← request O
  pure (O.releasePsbt k key)

def getScaledSupply (lender : Text) : Async Int := do
  let k ← request O
  pure (O.scaledSupply k lender)

def getTotalScaledSupply : Async Int := do
  let k ← request O
  pure (O.totalScaledSupply k)

end Writz.Relayer

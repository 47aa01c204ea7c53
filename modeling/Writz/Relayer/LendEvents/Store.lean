import Writz.Relayer.RpcCursor

/-!
# The archive of `writz-lend` events

`lend-events/store.ts`: one table with the RPC event id as its key, and a cursor.
-/

namespace Writz.Relayer

open Node

/-- An archived event. -/
structure LendEventRow where
  /-- RPC event ID, unique and ordered across the chain. -/
  id : Text
  contractId : Text
  ledger : Nat
  txHash : Text
  name : Text
  /-- Position txid (internal byte order, hex), or the supplier's address. -/
  subject : Text
  /-- Decoded fields as JSON, with amounts as decimal strings. -/
  data : Text
  rawXdr : Text
  deriving DecidableEq

/-- The database: its rows in the order of their ids, and the cursor. -/
structure LendEventStore where
  rows : List LendEventRow
  cursor : Option Text
  deriving DecidableEq

/-- `INSERT OR IGNORE`: a row with the same id stays as it is. -/
def insertRow (row : LendEventRow) : List LendEventRow → List LendEventRow
  | [] => [row]
  | r :: rows =>
    if row.id = r.id then r :: rows
    else if textLt row.id r.id then row :: r :: rows
    else r :: insertRow row rows

namespace LendEventStore

/-- A database that was just created. -/
def empty : LendEventStore := { rows := [], cursor := none }

def insertRows (rows : List LendEventRow) (new : List LendEventRow) : List LendEventRow :=
  new.foldl (fun rows row => insertRow row rows) rows

/-- Writes `rows` and advances the cursor, atomically. -/
def commit (store : LendEventStore) (rows : List LendEventRow) (cursor : Text) :
    Node.Result LendEventStore := do
  assertValidCursor cursor
  .ok { rows := insertRows store.rows rows, cursor := some cursor }

/-- The rows of a contract, by id. -/
def list (store : LendEventStore) (contractId : Text) : List LendEventRow :=
  store.rows.filter fun row => row.contractId = contractId

end LendEventStore

end Writz.Relayer

import Writz.Node.Buffer

/-!
# The vault's events

`vault-watcher/event-store.ts`: one table, in which the columns of an event are its key.
-/

namespace Writz.Relayer.Vault

open Node

inductive VaultEventKind where
  | deposit | withdraw
  deriving DecidableEq

structure VaultEvent where
  /-- RPC events cursor this event was read at. -/
  cursor : Text
  kind : VaultEventKind
  /-- Stellar address of the depositor or withdrawer. -/
  depositor : Text
  amountStroops : Text
  ledger : Nat
  txHash : Text
  /-- Ledger close time, Unix seconds. -/
  ledgerCloseTime : Nat
  deriving DecidableEq

/-- `UNIQUE (tx_hash, depositor, kind, amount_stroops)`. -/
def VaultEvent.sameKey (event row : VaultEvent) : Bool :=
  decide (row.txHash = event.txHash) && decide (row.depositor = event.depositor)
    && decide (row.kind = event.kind) && decide (row.amountStroops = event.amountStroops)

/-- `INSERT OR IGNORE`: a row with the same key stays as it is. -/
def insertVaultEvent (event : VaultEvent) (rows : List VaultEvent) : List VaultEvent :=
  if rows.any event.sameKey then rows else rows ++ [event]

/-- Every persisted vault event, oldest first. -/
def readAllVaultEvents (rows : List VaultEvent) : List VaultEvent :=
  rows.mergeSort fun a b => decide (a.ledgerCloseTime ≤ b.ledgerCloseTime)

end Writz.Relayer.Vault

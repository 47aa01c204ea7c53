import Writz.BitcoinSpv.Contract
import Writz.Util.Runs

/-!
# Runs of the light client

A step is an invocation by anyone, with any arguments (an abort leaves the storage as it was), or a
ledger advance.
-/

namespace Writz.Spv

/-- The state-changing entry points. -/
inductive Call where
  | setCheckpoint (caller : Address) (height : Nat) (blockHash : BytesN 32)
      (bits time periodStartTime : Nat)
  | setConsumer (caller consumer : Address) (allowed : Bool)
  | consumeDeposit (consumer : Address) (txid : BytesN 32)
  | setSubmitter (caller : Address) (submitter : Option Address)
  | setTtls (caller : Address) (headerTtlLedgers consumedTtlLedgers : Nat)
  | setAdmin (caller newAdmin : Address)
  | submitHeaders (headers : List (BytesN 80))

/-- The entry point a call names. -/
def exec (C : Crypto) (auth : Auth) (ledger : Ledger) (s : Storage) : Call → Result Storage
  | .setCheckpoint caller height blockHash bits time periodStartTime =>
    setCheckpoint auth ledger s caller height blockHash bits time periodStartTime
  | .setConsumer caller consumer allowed => setConsumer auth s caller consumer allowed
  | .consumeDeposit consumer txid => consumeDeposit auth s consumer txid
  | .setSubmitter caller submitter => setSubmitter auth s caller submitter
  | .setTtls caller headerTtlLedgers consumedTtlLedgers =>
    setTtls auth s caller headerTtlLedgers consumedTtlLedgers
  | .setAdmin caller newAdmin => setAdmin auth s caller newAdmin
  | .submitHeaders headers => (submitHeaders C auth ledger s headers).map Prod.snd

/-- The storage an invocation leaves. -/
def invoke (C : Crypto) (auth : Auth) (ledger : Ledger) (s : Storage) (c : Call) : Storage :=
  match exec C auth ledger s c with
  | .ok s' => s'
  | .error _ => s

/-- The storage and the ledger. -/
structure State where
  storage : Storage
  ledger : Ledger

/-- One step of a run. -/
inductive Label where
  /-- An invocation of the contract. -/
  | invoke (auth : Auth) (c : Call)
  /-- A later ledger closes. -/
  | advance (ledger : Ledger)

/-- The state after a step. -/
def step (C : Crypto) (s : State) : Label → Option State
  | .invoke auth c => some { s with storage := invoke C auth s.ledger s.storage c }
  | .advance l =>
    if s.ledger.sequence ≤ l.sequence ∧ s.ledger.timestamp ≤ l.timestamp then
      some { s with ledger := l }
    else
      none

/-- A freshly deployed light client. -/
def Deployed (s : State) : Prop :=
  ∃ admin powLimitBits headerTtlLedgers consumedTtlLedgers,
    construct admin powLimitBits headerTtlLedgers consumedTtlLedgers = .ok s.storage

/-- The runs of one deployed light client. -/
def system (C : Crypto) : Runs.System State Label where
  init := Deployed
  step := step C

end Writz.Spv

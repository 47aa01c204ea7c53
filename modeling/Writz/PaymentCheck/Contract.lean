import Writz.BitcoinSpv.System
import Writz.SpvTypes.BtcParser

/-!
# The payment check

The example contract `spv-payment-check`: it accepts a Bitcoin payment that the light client proves,
each transaction once.
-/

namespace Writz.PaymentCheck

/-- The errors of the contract. -/
inductive Error where
  | ProofRejected | OutputNotFound | AmountTooLow | AlreadyUsed
  deriving DecidableEq

/-- Why an invocation aborts. -/
inductive Abort where
  /-- The contract returns an error. -/
  | err (e : Error)
  /-- An arithmetic operation or an `unwrap` traps. -/
  | trap
  deriving DecidableEq

/-- The result of a contract function. -/
abbrev Result (α : Type) := Except Abort α

/-- An accepted payment. -/
structure Payment where
  txid : BytesN 32
  sats : Nat
  blockHeight : Nat
  confirmations : Nat
  deriving DecidableEq

/-- The event an accepted payment publishes. -/
structure PaymentAccepted where
  txid : BytesN 32
  sats : Nat
  deriving DecidableEq

/-- The contract's storage, and the events it has published. -/
structure Storage where
  spv : Option Address
  minConfirmations : Option Nat
  used : Store (BytesN 32) Bool
  events : List PaymentAccepted
  deriving DecidableEq

/-- The `verify_transaction` of the contract at an address: `none` where the call fails or answers
something else. -/
abbrev BitcoinSpvClient := (spv : Address) → (blockHash : BytesN 32) → (merkleProof : List (BytesN 32)) →
  (txIndex : Nat) → (rawTx : Bytes) → (minConfirmations : Nat) → Option SpvVerificationResult

/-- `__constructor`. -/
def construct (spv : Address) (minConfirmations : Nat) : Storage where
  spv := some spv
  minConfirmations := some minConfirmations
  used := ∅
  events := []

/-- Whether a txid was already accepted. -/
def isUsed (s : Storage) (txid : BytesN 32) : Bool := (s.used.lookup txid).isSome

/-- The value of the output that pays the expected script. -/
def paidSats (rawTx expectedScriptPubkey : Bytes) : Result Nat :=
  match BtcParser.findP2wshOutput rawTx expectedScriptPubkey with
  | .ok sats => .ok sats
  | .error .none => .error (.err .OutputNotFound)
  | .error .trap => .error .trap

/-- Accepts a Bitcoin payment of at least `minSats` to `expectedScriptPubkey`. -/
def checkPayment (client : BitcoinSpvClient) (s : Storage) (blockHash : BytesN 32)
    (merkleProof : List (BytesN 32)) (txIndex : Nat) (rawTx expectedScriptPubkey : Bytes) (minSats : Nat) :
    Result (Payment × Storage) := do
  let spv ← okOr s.spv .trap
  let minConf ← okOr s.minConfirmations .trap
  let proof ← okOr (client spv blockHash merkleProof txIndex rawTx minConf) (.err .ProofRejected)
  failIf (isUsed s proof.txid = true) (.err .AlreadyUsed)
  let sats ← paidSats rawTx expectedScriptPubkey
  failIf (sats < minSats) (.err .AmountTooLow)
  .ok
    ({ txid := proof.txid, sats, blockHeight := proof.blockHeight, confirmations := proof.confirmations },
      { s with
        used := s.used.insert proof.txid true
        events := s.events ++ [{ txid := proof.txid, sats }] })

/-! ## Runs -/

/-- The light client and the payment check over it. -/
structure State where
  spv : Spv.State
  check : Storage

/-- What the contracts run on: the host's cryptography, the light client's address, and whatever
answers at any other address. -/
structure Host where
  crypto : Crypto
  spvAddress : Address
  elsewhere : BitcoinSpvClient

/-- The contracts at their addresses. -/
def Host.client (N : Host) (s : Spv.Storage) : BitcoinSpvClient :=
  fun spv blockHash merkleProof txIndex rawTx minConfirmations =>
    if spv = N.spvAddress then
      (Spv.verifyTransaction N.crypto s blockHash merkleProof txIndex rawTx minConfirmations).toOption
    else
      N.elsewhere spv blockHash merkleProof txIndex rawTx minConfirmations

/-- The arguments of `check_payment`. -/
structure Call where
  blockHash : BytesN 32
  merkleProof : List (BytesN 32)
  txIndex : Nat
  rawTx : Bytes
  expectedScriptPubkey : Bytes
  minSats : Nat

/-- `check_payment` over a light client. -/
def Call.check (N : Host) (spv : Spv.Storage) (s : Storage) (c : Call) : Result (Payment × Storage) :=
  checkPayment (N.client spv) s c.blockHash c.merkleProof c.txIndex c.rawTx c.expectedScriptPubkey c.minSats

/-- One step of a run. -/
inductive Label where
  /-- A step of the light client. -/
  | spv (l : Spv.Label)
  /-- A call of `check_payment` by anyone. -/
  | check (c : Call)

/-- The storage a call of `check_payment` leaves. -/
def invoke (N : Host) (s : State) (c : Call) : Storage :=
  match c.check N s.spv.storage s.check with
  | .ok (_, check) => check
  | .error _ => s.check

/-- The state after a step. -/
def step (N : Host) (s : State) : Label → Option State
  | .spv l => (Spv.step N.crypto s.spv l).map fun spv => { s with spv := spv }
  | .check c => some { s with check := invoke N s c }

/-- A freshly deployed light client and a payment check that points at it. -/
def Deployed (N : Host) (s : State) : Prop :=
  Spv.Deployed s.spv ∧ ∃ minConfirmations, s.check = construct N.spvAddress minConfirmations

/-- The runs of the two contracts. -/
def system (N : Host) : Runs.System State Label where
  init := Deployed N
  step := step N

end Writz.PaymentCheck

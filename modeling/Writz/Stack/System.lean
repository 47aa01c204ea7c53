import Writz.BitcoinSpv.System
import Writz.Lend.System

/-!
# Several pools over one light client

Any number of `writz-lend` instances and the `bitcoin-spv` contract they share. A step is a call to
one of the contracts, by anyone and with any authorizations, a deployment, a ledger advance or a
change of the USDC token. A pool's call into the light client runs inside the pool's own call: it is
committed or discarded with it.
-/

namespace Writz.Stack

/-- The contracts. -/
structure State (τ : Type) where
  spv : Spv.Storage
  /-- The deployed pools, by their addresses. -/
  lends : Store Address Lend.Storage
  token : τ
  ledger : Ledger

/-- What the contracts run on: the host's cryptography, the USDC token, the light client's address,
and whatever answers at any other address a pool may be pointed at. -/
structure Host (τ : Type) where
  crypto : Crypto
  token : Lend.Token τ
  spvAddress : Address
  elsewhere : Lend.SpvClient Spv.Storage

variable {τ : Type}

/-- The value a called contract returns to its caller. -/
def answer {α : Type} (r : Spv.Result α) : Option α := r.toOption

/-- The light client as the pool `self` calls it: the calling contract is the only one to have
authorized the call. -/
def Host.client (N : Host τ) (self : Address) : Lend.SpvClient Spv.Storage where
  verifyTransaction s a blockHash merkleProof txIndex rawTx minConfirmations :=
    if a = N.spvAddress then
      answer (Spv.verifyTransaction N.crypto s blockHash merkleProof txIndex rawTx minConfirmations)
    else
      N.elsewhere.verifyTransaction s a blockHash merkleProof txIndex rawTx minConfirmations
  consumeDeposit s a consumer txid :=
    if a = N.spvAddress then
      answer (Spv.consumeDeposit (fun x => decide (x = self)) s consumer txid)
    else
      N.elsewhere.consumeDeposit s a consumer txid
  getBestTip s a :=
    if a = N.spvAddress then some (Spv.getBestTip s) else N.elsewhere.getBestTip s a
  getHeader s a hash :=
    if a = N.spvAddress then some (Spv.getHeader s hash) else N.elsewhere.getHeader s a hash

/-- The pool at an address. -/
def Host.pool (N : Host τ) (a : Address) : Lend.Host τ Spv.Storage where
  self := a
  crypto := N.crypto
  token := N.token
  spv := N.client a

/-- A pool's storage with the state around it. -/
def worldOf (s : State τ) (storage : Lend.Storage) : Lend.World τ Spv.Storage :=
  { storage with token := s.token, spv := s.spv, ledger := s.ledger }

/-- The state after a pool's call. -/
def afterCall (s : State τ) (a : Address) (w : Lend.World τ Spv.Storage) : State τ :=
  { s with spv := w.spv, lends := s.lends.insert a w.toStorage, token := w.token }

/-- One step of a run. -/
inductive Label (τ : Type) where
  /-- A call to the light client. -/
  | spv (auth : Spv.Auth) (c : Spv.Call)
  /-- A call to the pool at an address. -/
  | lend (a : Address) (env : Lend.Env) (c : Lend.Call)
  /-- A pool is deployed. -/
  | deploy (a : Address) (admin spvContract usdcToken oracle keeper relayer : Address)
      (protocolPubkey : BytesN 33) (minConfirmations minDepositSatoshis entryTtlLedgers : Nat)
  /-- A later ledger closes. -/
  | advance (ledger : Ledger)
  /-- The token changes. -/
  | outside (token : τ)

/-- The state after a step. -/
def step (A : Arith) (N : Host τ) (s : State τ) : Label τ → Option (State τ)
  | .spv auth c => some { s with spv := Spv.invoke N.crypto auth s.ledger s.spv c }
  | .lend a env c =>
    (s.lends.lookup a).map fun storage =>
      afterCall s a (Lend.invoke A (N.pool a) env (worldOf s storage) c)
  | .deploy a admin spvContract usdcToken oracle keeper relayer protocolPubkey minConfirmations
      minDepositSatoshis entryTtlLedgers =>
    if (s.lends.lookup a).isSome then
      none
    else
      match Lend.construct admin spvContract usdcToken oracle keeper relayer protocolPubkey
        minConfirmations minDepositSatoshis entryTtlLedgers with
      | .ok storage => some { s with lends := s.lends.insert a storage }
      | .error _ => none
  | .advance l =>
    if s.ledger.sequence ≤ l.sequence ∧ s.ledger.timestamp ≤ l.timestamp then
      some { s with ledger := l }
    else
      none
  | .outside t => some { s with token := t }

/-- A freshly deployed light client and no pools. -/
def Deployed (s : State τ) : Prop :=
  Spv.Deployed { storage := s.spv, ledger := s.ledger } ∧ s.lends = ∅

/-- The runs of the contracts. -/
def system (A : Arith) (N : Host τ) : Runs.System (State τ) (Label τ) where
  init := Deployed
  step := step A N

/-- Every pool points at the light client. -/
def AllPointAt (N : Host τ) (s : State τ) : Prop :=
  ∀ a storage config, s.lends.lookup a = some storage → storage.config = some config →
    config.spvContract = N.spvAddress

end Writz.Stack

import Writz.Lend.Contract
import Writz.Util.Runs

/-!
# Runs of the lending contract

One deployed instance together with the state around it. A step is an invocation by anyone, with any
arguments and any oracle answers (an abort leaves everything as it was), a ledger advance, or
anything that happens outside the contract: the `bitcoin-spv` state may change in any way, and so may
the token state, except that nobody but the contract moves the contract's USDC out.
-/

namespace Writz.Lend

/-- The state-changing entry points. -/
inductive Call where
  | deposit (depositor : Address) (blockHash : BytesN 32) (merkleProof : List (BytesN 32))
      (txIndex : Nat) (rawTx p2wshSpk : Bytes) (timelockHeight : Nat) (userPubkey : BytesN 33)
      (keySig : BytesN 65)
  | supplyUsdc (supplier : Address) (amount : Int)
  | withdrawSupply (supplier : Address) (amount : Int)
  | borrow (borrower : Address) (txid : BytesN 32) (usdcAmount : Int)
  | repay (repayer : Address) (txid : BytesN 32) (usdcAmount : Int)
  | liquidate (keeper : Address) (txid : BytesN 32)
  | setMaxTotalBorrowed (caller : Address) (max : Int)
  | setKeeper (caller newKeeper : Address)
  | keeperHeartbeat (keeper : Address)
  | setKeeperStaleWindow (caller : Address) (secs : Nat)
  | setBorrowTimelockMargin (caller : Address) (blocks : Nat)
  | setMaxTipAge (caller : Address) (secs : Nat)
  | setRelayer (caller newRelayer : Address)
  | setOracle (caller newOracle : Address)
  | setEntryTtl (caller : Address) (entryTtlLedgers : Nat)
  | setSpvContract (caller newSpvContract : Address)
  | setPaused (caller : Address) (paused : Bool)
  | publishReleasePsbt (relayer : Address) (txid : BytesN 32) (psbt : Bytes)

variable {τ ρ : Type}

/-- The entry point a call names. -/
def exec (A : Arith) (H : Host τ ρ) (env : Env) (w : World τ ρ) : Call → Result (World τ ρ)
  | .deposit depositor blockHash merkleProof txIndex rawTx p2wshSpk timelockHeight userPubkey keySig =>
    (deposit H env w depositor blockHash merkleProof txIndex rawTx p2wshSpk timelockHeight userPubkey
      keySig).map Prod.snd
  | .supplyUsdc supplier amount => supplyUsdc A H env w supplier amount
  | .withdrawSupply supplier amount => withdrawSupply A H env w supplier amount
  | .borrow borrower txid usdcAmount => borrow A H env w borrower txid usdcAmount
  | .repay repayer txid usdcAmount => repay A H env w repayer txid usdcAmount
  | .liquidate keeper txid => liquidate A H env w keeper txid
  | .setMaxTotalBorrowed caller max => setMaxTotalBorrowed H env w caller max
  | .setKeeper caller newKeeper => setKeeper H env w caller newKeeper
  | .keeperHeartbeat keeper => keeperHeartbeat H env w keeper
  | .setKeeperStaleWindow caller secs => setKeeperStaleWindow H env w caller secs
  | .setBorrowTimelockMargin caller blocks => setBorrowTimelockMargin H env w caller blocks
  | .setMaxTipAge caller secs => setMaxTipAge H env w caller secs
  | .setRelayer caller newRelayer => setRelayer H env w caller newRelayer
  | .setOracle caller newOracle => setOracle H env w caller newOracle
  | .setEntryTtl caller entryTtlLedgers => setEntryTtl H env w caller entryTtlLedgers
  | .setSpvContract caller newSpvContract => setSpvContract H env w caller newSpvContract
  | .setPaused caller paused => setPaused H env w caller paused
  | .publishReleasePsbt relayer txid psbt => publishReleasePsbt H env w relayer txid psbt

/-- The state an invocation leaves: the host commits a success and discards an abort. -/
def invoke (A : Arith) (H : Host τ ρ) (env : Env) (w : World τ ρ) (c : Call) : World τ ρ :=
  match exec A H env w c with
  | .ok w' => w'
  | .error _ => w

/-- One step of a run. -/
inductive Label (τ ρ : Type) where
  /-- An invocation of the contract. -/
  | invoke (env : Env) (c : Call)
  /-- A later ledger closes. -/
  | advance (ledger : Ledger)
  /-- The states of the other contracts change. -/
  | outside (token : τ) (spv : ρ)

/-- The state after a step. -/
def step (A : Arith) (H : Host τ ρ) (w : World τ ρ) : Label τ ρ → Option (World τ ρ)
  | .invoke env c => some (invoke A H env w c)
  | .advance l =>
    if w.ledger.sequence ≤ l.sequence ∧ w.ledger.timestamp ≤ l.timestamp then
      some { w with ledger := l }
    else
      none
  | .outside t r =>
    if H.token.balance w.token H.self ≤ H.token.balance t H.self then
      some { w with token := t, spv := r }
    else
      none

/-- A freshly deployed instance. -/
def Deployed (w : World τ ρ) : Prop :=
  ∃ admin spvContract usdcToken oracle keeper relayer protocolPubkey minConfirmations
    minDepositSatoshis entryTtlLedgers,
    construct admin spvContract usdcToken oracle keeper relayer protocolPubkey minConfirmations
      minDepositSatoshis entryTtlLedgers = .ok w.toStorage

/-- The runs of one deployed instance. -/
def system (A : Arith) (H : Host τ ρ) : Runs.System (World τ ρ) (Label τ ρ) where
  init := Deployed
  step := step A H

end Writz.Lend

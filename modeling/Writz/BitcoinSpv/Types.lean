import Writz.SpvTypes.Types

/-!
# Types of the light client

The stored types and the errors of `bitcoin-spv`.
-/

namespace Writz.Spv

/-- The errors of the contract. -/
inductive SPVError where
  | NoHeaders | InsufficientConfirmations | ZeroMinConfirmations | HeaderChainBroken
  | MerkleProofInvalid | InvalidHeaderSlice | EmptyTransaction | InsufficientProofOfWork
  | InvalidDifficultyBits | NotInitialized | AlreadyInitialized | Unauthorized | CheckpointNotSet
  | DifficultyBelowCheckpointFloor | AmbiguousTransactionLength | CheckpointAlreadySet
  | InvalidCheckpoint | TooManyHeaders | UnknownParent | UnexpectedDifficulty
  | TimestampTooFarInFuture | HeaderNotFound | NotOnBestChain | BlockNotAfterCheckpoint
  | ReorgTooDeep | TxidAlreadyConsumed | NotAConsumer | InvalidEntryTtl
  deriving DecidableEq

/-- Why an invocation aborts. -/
inductive Abort where
  /-- The contract returns an error. -/
  | err (e : SPVError)
  /-- `require_auth` fails. -/
  | auth (a : Address)
  /-- An arithmetic operation or an `expect` traps. -/
  | trap
  deriving DecidableEq

/-- The result of a contract function. -/
abbrev Result (α : Type) := Except Abort α

/-- Contract configuration. -/
structure Config where
  admin : Address
  /-- Compact proof-of-work limit of the tracked network. -/
  powLimitBits : Nat
  /-- When set, only this address may submit headers. -/
  submitter : Option Address
  headerTtlLedgers : Nat
  consumedTtlLedgers : Nat
  deriving DecidableEq

/-- The trust root of the header chain. -/
structure Checkpoint where
  height : Nat
  blockHash : BytesN 32
  bits : Nat
  time : Nat
  /-- Timestamp of the first block of the checkpoint's difficulty period. -/
  periodStartTime : Nat
  setAtLedger : Nat
  deriving DecidableEq

/-- The contract's storage. -/
structure Storage where
  config : Option Config
  checkpoint : Option Checkpoint
  bestTip : Option BestTip
  /-- Every accepted header, keyed by block hash. -/
  headers : Store (BytesN 32) HeaderEntry
  /-- Block hash of the most-work chain at a given height. -/
  canonical : Store Nat (BytesN 32)
  /-- Lending contracts allowed to consume deposit txids. -/
  consumers : Store Address Bool
  /-- Deposit txids already consumed. -/
  consumed : Store (BytesN 32) Bool
  deriving DecidableEq

end Writz.Spv

import Writz.Soroban.Host

/-!
# Cross-contract types

The types `bitcoin-spv` stores and returns and the lending contract reads.
-/

namespace Writz

/-- A header accepted into `bitcoin-spv`, keyed by its block hash. -/
structure HeaderEntry where
  prev : BytesN 32
  merkleRoot : BytesN 32
  height : Nat
  bits : Nat
  time : Nat
  /-- Timestamp of the first block of this header's difficulty period. -/
  periodStartTime : Nat
  /-- Cumulative work since the checkpoint (the checkpoint itself is 0). -/
  chainwork : Nat
  deriving DecidableEq

/-- The tip of the most-work chain `bitcoin-spv` knows about. -/
structure BestTip where
  hash : BytesN 32
  height : Nat
  chainwork : Nat
  deriving DecidableEq

/-- The result of `verify_transaction`. -/
structure SpvVerificationResult where
  txid : BytesN 32
  blockHash : BytesN 32
  blockHeight : Nat
  confirmations : Nat
  deriving DecidableEq

end Writz

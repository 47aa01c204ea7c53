import Writz.SpvTypes.Types

/-!
# Types of the lending contract

The stored types, the errors and the events of `writz-lend`, and what it relies on outside itself:
the USDC token, the `bitcoin-spv` contract and the price oracle.
-/

namespace Writz.Lend

/-- The errors of the contract. -/
inductive WritzLendError where
  | AlreadyInitialized | NotInitialized | Unauthorized | SpvVerificationFailed | OutputNotFound
  | DepositTooSmall | PositionAlreadyExists | PositionNotFound | PositionNotActive
  | ExceedsCollateralRatio | InsufficientLiquidity | RepayExceedsDebt | InsufficientSupply
  | PositionHealthy | Overflow | InvalidScriptPubKey | Paused | OraclePriceUnavailable
  | OraclePriceStale | InvalidUserPubkey | ScriptPubKeyMismatch | InvalidTimelock
  | InvalidProtocolPubkey | ExposureCapExceeded | InvalidKeyProof | ZeroShareAmount
  | InvalidDepositParams | InvalidEntryTtl | UserKeyIsProtocolKey | TimelockTooSoon
  | StaleBitcoinTip | LiquidationWindowClosed | InvalidTimelockParams
  deriving DecidableEq

/-- Why an invocation aborts. The host then discards everything the invocation did. -/
inductive Abort where
  /-- The contract returns an error. -/
  | err (e : WritzLendError)
  /-- `require_auth` fails. -/
  | auth (a : Address)
  /-- A called contract, or a host function, traps. -/
  | trap
  /-- The token aborts a transfer of `amount` from `src`, which holds `held`. -/
  | transfer (src : Address) (amount held : Int)
  deriving DecidableEq

/-- The result of a contract function. -/
abbrev Result (α : Type) := Except Abort α

/-! ## Stored types -/

/-- Position lifecycle states. -/
inductive PositionStatus where
  | Active
  /-- Loan fully repaid. -/
  | Closed
  /-- Position was undercollateralized and liquidated. -/
  | Liquidated
  deriving DecidableEq

/-- A single BTC-collateralized lending position. -/
structure Position where
  btcTxid : BytesN 32
  btcSatoshis : Nat
  /-- Outstanding USDC debt in stroops, as of `debtIndex`. -/
  usdcDebt : Int
  p2wshScriptPubkey : Bytes
  timelockHeight : Nat
  lastUpdateLedger : Nat
  /-- The borrow index when `usdcDebt` was last brought up to date. -/
  debtIndex : Int
  depositor : Address
  status : PositionStatus
  userPubkey : BytesN 33
  deriving DecidableEq

/-- Global protocol accounting. -/
structure ProtocolState where
  totalScaledSupply : Int
  supplyIndex : Int
  totalBorrowed : Int
  lastKeeperHeartbeat : Nat
  reserveUsdc : Int
  borrowIndex : Int
  indexLedger : Nat
  deriving DecidableEq

/-- Protocol configuration. -/
structure Config where
  admin : Address
  spvContract : Address
  usdcToken : Address
  oracle : Address
  keeper : Address
  relayer : Address
  protocolPubkey : BytesN 33
  minDepositSatoshis : Nat
  minCollateralRatioBp : Nat
  liquidationThresholdBp : Nat
  liquidationBonusBp : Nat
  minConfirmations : Nat
  keeperStaleAfterSecs : Nat
  paused : Bool
  maxTotalBorrowed : Int
  entryTtlLedgers : Nat
  borrowTimelockMarginBlocks : Nat
  maxTipAgeSecs : Nat
  deriving DecidableEq

/-- Pool totals projected to the current ledger. -/
structure PoolTotals where
  totalSupplyAssets : Int
  totalBorrowed : Int
  reserveUsdc : Int
  available : Int
  deriving DecidableEq

/-- The events of the contract. -/
inductive Event where
  | deposit (txid : BytesN 32) (btcSatoshis timelockHeight : Nat)
  | borrow (txid : BytesN 32) (borrower : Address) (usdcAmount : Int)
  | repayFull (txid : BytesN 32) (repayer : Address) (p2wshScriptPubkey : Bytes)
  | repay (txid : BytesN 32) (usdcAmount : Int)
  | liquidate (txid : BytesN 32) (keeper : Address) (bonusPaid : Int)
  | supply (supplier : Address) (usdcAmount scaledAmount supplyIndex totalSupplyAssets : Int)
  | withdraw (supplier : Address) (usdcAmount scaledAmount supplyIndex totalSupplyAssets : Int)
  | pausedSet (admin : Address) (paused : Bool)
  | oracleSet (admin newOracle : Address)
  | entryTtlSet (admin : Address) (entryTtlLedgers : Nat)
  deriving DecidableEq

/-- The contract's storage, and the events it has published. -/
structure Storage where
  config : Option Config
  protocol : Option ProtocolState
  positions : Store (BytesN 32) Position
  supplyBalances : Store Address Int
  releasePsbts : Store (BytesN 32) Bytes
  events : List Event
  deriving DecidableEq

/-! ## Outside the contract -/

/-- The USDC token, over a token state `τ`: a transfer moves exactly the requested, non-negative
amount, or it aborts (`none`). -/
structure Token (τ : Type) where
  balance : τ → Address → Int
  transfer : τ → Address → Address → Int → Option τ
  balance_nonneg : ∀ t a, 0 ≤ balance t a
  transfer_nonneg : ∀ {t src dst n t'}, transfer t src dst n = some t' → 0 ≤ n
  transfer_moves : ∀ {t src dst n t'}, transfer t src dst n = some t' → ∀ a,
    balance t' a = balance t a - (if a = src then n else 0) + (if a = dst then n else 0)

/-- A `bitcoin-spv` contract as its callers see it, over its state `ρ`. Each function takes the
address the call goes to; `none` is a call that traps or returns an error. -/
structure SpvClient (ρ : Type) where
  verifyTransaction : ρ → Address → (blockHash : BytesN 32) → (merkleProof : List (BytesN 32)) →
    (txIndex : Nat) → (rawTx : Bytes) → (minConfirmations : Nat) → Option SpvVerificationResult
  consumeDeposit : ρ → Address → (consumer : Address) → (txid : BytesN 32) → Option ρ
  getBestTip : ρ → Address → Option (Option BestTip)
  getHeader : ρ → Address → BytesN 32 → Option (Option HeaderEntry)

/-- A SEP-40 price record. -/
structure PriceData where
  price : Int
  timestamp : Nat
  deriving DecidableEq

/-- A deployed instance: its own address, the host's cryptography and the contracts it calls. -/
structure Host (τ ρ : Type) where
  /-- `env.current_contract_address()`. -/
  self : Address
  crypto : Crypto
  token : Token τ
  spv : SpvClient ρ

/-- What one invocation brings: who has authorized it, and what the oracle answers during it. -/
structure Env where
  auth : Address → Bool
  lastprice : Address → Option (Option PriceData)
  decimals : Address → Option Nat

/-- The contract's storage together with the state around it. -/
structure World (τ ρ : Type) extends Storage where
  token : τ
  spv : ρ
  ledger : Ledger
  deriving DecidableEq

end Writz.Lend

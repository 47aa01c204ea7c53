import Writz.BitcoinSpv.Difficulty
import Writz.BitcoinSpv.Merkle

/-!
# The light client contract

The entry points of `bitcoin-spv`. Each takes the storage before the call and returns the storage
after it.
-/

namespace Writz.Spv

/-- Most headers one `submit_headers` call accepts. -/
def MAX_HEADERS_PER_SUBMIT : Nat := 16

/-- Most blocks one call may re-point in the canonical chain. -/
def MAX_REORG_DEPTH : Nat := 20

/-- Bitcoin rejects headers more than two hours ahead of network time. -/
def MAX_FUTURE_DRIFT_SECS : Nat := 2 * 60 * 60

def LEDGERS_PER_DAY : Nat := 17280
def MAX_ENTRY_TTL_LEDGERS : Nat := 180 * LEDGERS_PER_DAY
def MIN_ENTRY_TTL_LEDGERS : Nat := LEDGERS_PER_DAY

/-- Which addresses have authorized an invocation. -/
abbrev Auth := Address → Bool

/-- `a.require_auth()`. -/
def requireAuth (auth : Auth) (a : Address) : Result Unit := failIf (auth a = false) (.auth a)

/-- An error of the contract inside an invocation. -/
def orErr {α : Type} (x : Except SPVError α) : Result α := x.mapError .err

/-- Whether an entry window lies in the accepted range. -/
def ttlInBounds (ttl : Nat) : Bool :=
  decide (MIN_ENTRY_TTL_LEDGERS ≤ ttl) && decide (ttl ≤ MAX_ENTRY_TTL_LEDGERS)

/-- `__constructor`. -/
def construct (admin : Address) (powLimitBits headerTtlLedgers consumedTtlLedgers : Nat) :
    Result Storage := do
  let _ ← (bitsToTarget powLimitBits).mapError fun _ => Abort.trap
  failIf (ttlInBounds headerTtlLedgers = false ∨ ttlInBounds consumedTtlLedgers = false)
    (.err .InvalidEntryTtl)
  .ok
    { config := some
        { admin, powLimitBits, submitter := none, headerTtlLedgers, consumedTtlLedgers }
      checkpoint := none
      bestTip := none
      headers := ∅
      canonical := ∅
      consumers := ∅
      consumed := ∅ }

/-! ## Admin -/

/-- The admin check every admin function starts with. -/
def requireAdmin (auth : Auth) (s : Storage) (caller : Address) : Result Config := do
  requireAuth auth caller
  let config ← okOr s.config (.err .NotInitialized)
  failIf (caller ≠ config.admin) (.err .Unauthorized)
  .ok config

def setCheckpoint (auth : Auth) (ledger : Ledger) (s : Storage) (caller : Address) (height : Nat)
    (blockHash : BytesN 32) (bits time periodStartTime : Nat) : Result Storage := do
  let config ← requireAdmin auth s caller
  failIf (s.checkpoint.isSome = true) (.err .CheckpointAlreadySet)
  let target ← orErr (bitsToTarget bits)
  let powLimit ← orErr (bitsToTarget config.powLimitBits)
  failIf (target > powLimit ∨ periodStartTime > time) (.err .InvalidCheckpoint)
  let zero : BytesN 32 := zeros 32
  .ok
    { s with
      checkpoint := some
        { height, blockHash, bits, time, periodStartTime, setAtLedger := ledger.sequence }
      headers := s.headers.insert blockHash
        { prev := zero, merkleRoot := zero, height, bits, time, periodStartTime, chainwork := 0 }
      canonical := s.canonical.insert height blockHash
      bestTip := some { hash := blockHash, height, chainwork := 0 } }

def setConsumer (auth : Auth) (s : Storage) (caller consumer : Address) (allowed : Bool) :
    Result Storage := do
  let _ ← requireAdmin auth s caller
  .ok { s with consumers := s.consumers.insert consumer allowed }

def isConsumer (s : Storage) (consumer : Address) : Bool := (s.consumers.lookup consumer).getD false

def isConsumed (s : Storage) (txid : BytesN 32) : Bool := (s.consumed.lookup txid).isSome

/-- Marks a deposit txid as consumed. -/
def consumeDeposit (auth : Auth) (s : Storage) (consumer : Address) (txid : BytesN 32) :
    Result Storage := do
  requireAuth auth consumer
  let _config ← okOr s.config (.err .NotInitialized)
  failIf (isConsumer s consumer = false) (.err .NotAConsumer)
  failIf (isConsumed s txid = true) (.err .TxidAlreadyConsumed)
  .ok { s with consumed := s.consumed.insert txid true }

def setSubmitter (auth : Auth) (s : Storage) (caller : Address) (submitter : Option Address) :
    Result Storage := do
  let config ← requireAdmin auth s caller
  .ok { s with config := some { config with submitter := submitter } }

def setTtls (auth : Auth) (s : Storage) (caller : Address)
    (headerTtlLedgers consumedTtlLedgers : Nat) : Result Storage := do
  let config ← requireAdmin auth s caller
  failIf (ttlInBounds headerTtlLedgers = false ∨ ttlInBounds consumedTtlLedgers = false)
    (.err .InvalidEntryTtl)
  .ok { s with config := some { config with headerTtlLedgers, consumedTtlLedgers } }

def setAdmin (auth : Auth) (s : Storage) (caller newAdmin : Address) : Result Storage := do
  let config ← requireAdmin auth s caller
  .ok { s with config := some { config with admin := newAdmin } }

/-! ## Header ingestion -/

/-- One turn of the loop over the submitted headers, in the ledger second `now`: the stored headers
afterwards, and the header's hash and entry. A header already stored is skipped. -/
def acceptHeader (C : Crypto) (now powLimit : Nat) (headers : Store (BytesN 32) HeaderEntry)
    (header : BytesN 80) : Result (Store (BytesN 32) HeaderEntry × BytesN 32 × HeaderEntry) :=
  let hash := hashHeader C header
  match headers.lookup hash with
  | some existing => .ok (headers, hash, existing)
  | none => do
    let parent ← okOr (headers.lookup (prevHashOf header)) (.err .UnknownParent)
    orErr (validateProofOfWork C header)
    let height ← okOr (addU32 parent.height 1) .trap
    let bits := bitsOf header
    let expected ← orErr (expectedBits parent height powLimit)
    failIf (bits ≠ expected) (.err .UnexpectedDifficulty)
    let time := timeOf header
    failIf (time > saturatingAddU64 now MAX_FUTURE_DRIFT_SECS) (.err .TimestampTooFarInFuture)
    let target ← orErr (bitsToTarget bits)
    let chainwork ← okOr (u256 (parent.chainwork + workFromTarget target)) .trap
    let entry : HeaderEntry :=
      { prev := prevHashOf header
        merkleRoot := merkleRootOf header
        height
        bits
        time
        periodStartTime :=
          if height % RETARGET_INTERVAL = 0 then time else parent.periodStartTime
        chainwork }
    .ok (headers.insert hash entry, hash, entry)

/-- The loop over the submitted headers; `last` is the header of the turn before. -/
def acceptHeaders (C : Crypto) (now powLimit : Nat) :
    List (BytesN 80) → Store (BytesN 32) HeaderEntry → Option (BytesN 32 × HeaderEntry) →
      Result (Store (BytesN 32) HeaderEntry × Option (BytesN 32 × HeaderEntry))
  | [], headers, last => .ok (headers, last)
  | header :: rest, headers, _ => do
    let (headers, hash, entry) ← acceptHeader C now powLimit headers header
    acceptHeaders C now powLimit rest headers (some (hash, entry))

/-- The backward walk that re-points the canonical chain, with `left` re-pointings to go. -/
def rewriteCanonical (headers : Store (BytesN 32) HeaderEntry) :
    Nat → Store Nat (BytesN 32) → BytesN 32 → HeaderEntry → Result (Store Nat (BytesN 32))
  | 0, canonical, hash, entry =>
    if canonical.lookup entry.height = some hash then .ok canonical
    else .error (.err .ReorgTooDeep)
  | left + 1, canonical, hash, entry =>
    if canonical.lookup entry.height = some hash then .ok canonical
    else do
      let parent ← okOr (headers.lookup entry.prev) (.err .UnknownParent)
      rewriteCanonical headers left (canonical.insert entry.height hash) entry.prev parent

/-- Makes a header the best tip if it has more work than the current one. -/
def adoptTip (s : Storage) (tipHash : BytesN 32) (tipEntry : HeaderEntry) (best : BestTip) :
    Result (Nat × Storage) :=
  if tipEntry.chainwork > best.chainwork then do
    let canonical ← rewriteCanonical s.headers MAX_REORG_DEPTH s.canonical tipHash tipEntry
    .ok (tipEntry.height,
      { s with
        canonical := canonical
        bestTip := some
          { hash := tipHash, height := tipEntry.height, chainwork := tipEntry.chainwork } })
  else
    .ok (best.height, s)

/-- `submitter.require_auth()`, if there is a submitter. -/
def requireSubmitter (auth : Auth) (config : Config) : Result Unit :=
  match config.submitter with
  | some submitter => requireAuth auth submitter
  | none => .ok ()

/-- Adds block headers; returns the height of the best tip afterwards. -/
def submitHeaders (C : Crypto) (auth : Auth) (ledger : Ledger) (s : Storage)
    (headers : List (BytesN 80)) : Result (Nat × Storage) := do
  let config ← okOr s.config (.err .NotInitialized)
  let _ ← okOr s.checkpoint (.err .CheckpointNotSet)
  requireSubmitter auth config
  failIf (headers = []) (.err .NoHeaders)
  failIf (headers.length > MAX_HEADERS_PER_SUBMIT) (.err .TooManyHeaders)
  let powLimit ← orErr (bitsToTarget config.powLimitBits)
  let (stored, last) ← acceptHeaders C ledger.timestamp powLimit headers s.headers none
  let (tipHash, tipEntry) ← okOr last (.err .NoHeaders)
  let best ← okOr s.bestTip (.err .CheckpointNotSet)
  adoptTip { s with headers := stored } tipHash tipEntry best

/-! ## Verification -/

/-- The checks of `verify_transaction` on the block: its stored header and its confirmations. -/
def confirmedHeader (s : Storage) (blockHash : BytesN 32) (minConfirmations : Nat) :
    Result (HeaderEntry × Nat) := do
  let _config ← okOr s.config (.err .NotInitialized)
  let checkpoint ← okOr s.checkpoint (.err .CheckpointNotSet)
  let entry ← okOr (s.headers.lookup blockHash) (.err .HeaderNotFound)
  failIf (entry.height ≤ checkpoint.height) (.err .BlockNotAfterCheckpoint)
  let best ← okOr s.bestTip (.err .CheckpointNotSet)
  failIf (entry.height > best.height ∨ s.canonical.lookup entry.height ≠ some blockHash)
    (.err .NotOnBestChain)
  let confirmations := best.height - entry.height + 1
  failIf (confirmations < minConfirmations) (.err .InsufficientConfirmations)
  .ok (entry, confirmations)

/-- Verifies that a transaction is included in a confirmed block of the tracked chain. -/
def verifyTransaction (C : Crypto) (s : Storage) (blockHash : BytesN 32)
    (merkleProof : List (BytesN 32)) (txIndex : Nat) (rawTx : Bytes) (minConfirmations : Nat) :
    Result SpvVerificationResult := do
  failIf (minConfirmations = 0) (.err .ZeroMinConfirmations)
  failIf (rawTx = []) (.err .EmptyTransaction)
  failIf (rawTx.length = 64) (.err .AmbiguousTransactionLength)
  let (entry, confirmations) ← confirmedHeader s blockHash minConfirmations
  let txid := sha256d C rawTx
  orErr (verifyMerkleInclusion C txid txIndex merkleProof entry.merkleRoot)
  .ok { txid, blockHash, blockHeight := entry.height, confirmations }

/-! ## Reads -/

def getBestTip (s : Storage) : Option BestTip := s.bestTip

def getHeader (s : Storage) (blockHash : BytesN 32) : Option HeaderEntry :=
  s.headers.lookup blockHash

end Writz.Spv

import Writz.BitcoinSpv.Contract
import Writz.Node.Buffer
import Writz.Node.Number
import Writz.Util.Program

/-!
# Header sync

`bitcoin/header-sync.ts`, and a pass of `bitcoin/spv-submit.ts`: the relayer reads the tips of Bitcoin and
of the light client and submits the headers between them in batches. A pass runs alone; the block source
answers from one chain throughout it.
-/

namespace Writz.Relayer.HeaderSync

open Node

/-! ## Planning -/

structure HeaderBatch where
  /-- First height in the batch. -/
  fromHeight : Nat
  /-- Last height in the batch. -/
  toHeight : Nat
  deriving DecidableEq

/-- The loop of `planHeaderBatches`, from `start` on. -/
def batchesFrom (toHeight maxPerSubmit start : Nat) : List HeaderBatch :=
  if 0 < maxPerSubmit ∧ start ≤ toHeight then
    { fromHeight := start, toHeight := min (start + maxPerSubmit - 1) toHeight }
      :: batchesFrom toHeight maxPerSubmit (start + maxPerSubmit)
  else []
termination_by toHeight + 1 - start

inductive SyncError where
  /-- A `RangeError`, with its message. -/
  | range (message : Text)
  /-- A request to Esplora or to the RPC node failed. -/
  | request (message : Text)
  /-- A header is not 80 bytes. -/
  | argument
  /-- The simulation of `submit_headers` failed. -/
  | simulation (a : Spv.Abort)
  /-- `FeeCeilingExceededError`. -/
  | feeCeiling (feeStroops maxFeeStroops : Nat)
  /-- The transaction failed, or was not seen to land. -/
  | failed | timedOut
  deriving DecidableEq

/-- Splits the heights into contiguous batches of at most `maxPerSubmit`. -/
def planHeaderBatches (fromHeight toHeight maxPerSubmit : Nat) : Except SyncError (List HeaderBatch) := do
  failIf (maxPerSubmit < 1)
    (.range ("maxPerSubmit must be a positive integer, got ".toList ++ Nat.toDigits 10 maxPerSubmit))
  .ok (batchesFrom toHeight maxPerSubmit fromHeight)

/-- How many blocks below the best tip of the light client each pass starts. -/
def REORG_RESUBMIT_DEPTH : Nat := 6

/-- Where a pass starts. -/
def syncStartHeight (configuredFrom : Nat) (contractTipHeight : Option Nat) : Nat :=
  match contractTipHeight with
  | none => configuredFrom
  | some height => max configuredFrom (height - REORG_RESUBMIT_DEPTH)

/-- A chain tip: height and block hash, hex in Esplora's display byte order. -/
structure ChainTip where
  height : Nat
  hash : Text
  deriving DecidableEq

/-- Whether a pass has anything to store. -/
def hasNewHeaders (bitcoinTip : ChainTip) (contractTip : Option ChainTip) : Bool :=
  match contractTip with
  | none => true
  | some contractTip =>
    if bitcoinTip.height > contractTip.height then true
    else if bitcoinTip.height < contractTip.height then false
    else decide (toLowerCase bitcoinTip.hash ≠ toLowerCase contractTip.hash)

/-- A hash in the contract's internal byte order, as Esplora displays it. -/
def internalHashToDisplayHex (hash : Bytes) : Text := Hex.encode hash.reverse

/-! ## Submitting -/

section Deps

variable {σ : Type}

structure HeaderSyncDeps (σ : Type) where
  /-- Raw 80-byte header hex for a height. -/
  getHeaderHex : Nat → Program σ SyncError Text
  /-- Submits one contiguous run of headers. -/
  submitHeaders : List Text → Program σ SyncError Unit

/-- The headers of `count` heights, one after the other. -/
def getHeaders (deps : HeaderSyncDeps σ) (height : Nat) : Nat → Program σ SyncError (List Text)
  | 0 => pure []
  | count + 1 => do
    let header ← deps.getHeaderHex height
    let headers ← getHeaders deps (height + 1) count
    pure (header :: headers)

/-- The loop of `syncHeaders` over its batches. -/
def submitBatches (deps : HeaderSyncDeps σ) : List HeaderBatch → Option Nat → Program σ SyncError (Option Nat)
  | [], submittedThrough => pure submittedThrough
  | batch :: batches, _ => do
    let headers ← getHeaders deps batch.fromHeight (batch.toHeight + 1 - batch.fromHeight)
    deps.submitHeaders headers
    submitBatches deps batches (some batch.toHeight)

/-- Submits every header of the heights in order, and stops at the first failed batch. -/
def syncHeaders (deps : HeaderSyncDeps σ) (fromHeight toHeight maxPerSubmit : Nat) :
    Program σ SyncError (Option Nat) := do
  let batches ← Program.ofExcept (planHeaderBatches fromHeight toHeight maxPerSubmit)
  submitBatches deps batches none

end Deps

/-- What becomes of a transaction that is sent. -/
inductive SendOutcome where
  | dropped
  /-- It is included; `seen` if the relayer learns of it in time. -/
  | included (seen : Bool)

/-- What a pass runs against: what Esplora answers, which requests fail, and when what is sent lands. -/
structure SyncEnvironment where
  crypto : Crypto
  /-- Who has authorized what the relayer key signs. -/
  auth : Spv.Auth
  tipHeight : Nat
  /-- `getBlockHashAtHeight`. -/
  blockHashAtHeight : Nat → Text
  /-- `getBlockHeader`, of the answer for a height. -/
  blockHeader : Text → Text
  /-- What the n-th request throws, past its retries. -/
  fails : Nat → Option Text
  ledger : Nat → Ledger
  feeStroops : Nat → Nat
  outcome : Nat → SendOutcome

structure SyncSettings where
  spvSyncFromHeight : Nat
  spvMaxFeeStroops : Nat

/-- The requests made so far, and the light client. -/
structure SyncState where
  requests : Nat
  spv : Spv.Storage

variable (O : SyncEnvironment) (config : SyncSettings)

/-- One request; the answer is the one of its moment. -/
def request : Program SyncState SyncError Nat := fun m =>
  match O.fails m.requests with
  | some message => (.error (.request message), { m with requests := m.requests + 1 })
  | none => (.ok m.requests, { m with requests := m.requests + 1 })

/-- The argument of `submit_headers`. -/
def headerArguments : List Text → Except SyncError (List (BytesN 80))
  | [] => .ok []
  | hex :: rest => do
    let headers ← headerArguments rest
    if h : (fromHex hex).length = 80 then .ok (⟨fromHex hex, h⟩ :: headers) else .error .argument

/-- Throws when a fee is above the ceiling. -/
def assertWithinFeeCeiling (feeStroops maxFeeStroops : Nat) : Except SyncError Unit :=
  failIf (feeStroops > maxFeeStroops) (.feeCeiling feeStroops maxFeeStroops)

/-- A transaction is sent in the ledger of a request. -/
def land (k : Nat) (headers : List (BytesN 80)) : Program SyncState SyncError Unit := fun m =>
  match O.outcome k, Spv.submitHeaders O.crypto O.auth (O.ledger k) m.spv headers with
  | .dropped, _ => (.error .timedOut, m)
  | .included _, .error _ => (.error .failed, m)
  | .included true, .ok (_, spv) => (.ok (), { m with spv })
  | .included false, .ok (_, spv) => (.error .timedOut, { m with spv })

/-- `sendHeaders`: simulates, checks the fee, signs and sends. -/
def submitHeadersOnChain (headersHex : List Text) : Program SyncState SyncError Unit := do
  let headers ← Program.ofExcept (headerArguments headersHex)
  let k ← request O
  let m ← Program.get
  let _ ← Program.ofExcept
    ((Spv.submitHeaders O.crypto O.auth (O.ledger k) m.spv headers).mapError SyncError.simulation)
  Program.ofExcept (assertWithinFeeCeiling (O.feeStroops k) config.spvMaxFeeStroops)
  let k ← request O
  land O k headers

/-- The header at a height, in two requests. -/
def getHeaderHex (height : Nat) : Program SyncState SyncError Text := do
  let _ ← request O
  let _ ← request O
  pure (trim (O.blockHeader (O.blockHashAtHeight height)))

/-- The light client's best tip, if it has one. -/
def readContractTip : Program SyncState SyncError (Option ChainTip) := do
  let _ ← request O
  let m ← Program.get
  pure (m.spv.bestTip.map fun tip => { height := tip.height, hash := internalHashToDisplayHex tip.hash.1 })

/-- `MAX_HEADERS_PER_SUBMIT` of the relayer. -/
def MAX_HEADERS_PER_SUBMIT : Nat := 16

/-- `tick`: one pass; none if there is nothing to store. -/
def tick : Program SyncState SyncError (Option Nat) := do
  let _ ← request O
  let _ ← request O
  let bitcoinTip : ChainTip := { height := O.tipHeight, hash := trim (O.blockHashAtHeight O.tipHeight) }
  let contractTip ← readContractTip O
  if hasNewHeaders bitcoinTip contractTip then
    let start := syncStartHeight config.spvSyncFromHeight (contractTip.map ChainTip.height)
    syncHeaders { getHeaderHex := getHeaderHex O, submitHeaders := submitHeadersOnChain O config } start
      bitcoinTip.height MAX_HEADERS_PER_SUBMIT
  else
    pure none

end Writz.Relayer.HeaderSync

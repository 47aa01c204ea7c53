import Writz.BitcoinSpv.Contract
import Writz.Relayer.Bitcoin.Spv
import Writz.Relayer.HeaderSync

/-!
# The proof route

`routes/proof.ts`: a request for the proof of a transaction, answered from Esplora and the light client's
tip. Its rate limit and its cache are left to their own modules.
-/

namespace Writz.Relayer.SpvProof

open Node

/-- `TXID_RE`. -/
def isTxid (txid : Text) : Bool := decide (txid.length = 64) && txid.all fun c => (Hex.value c).isSome

/-- Where a proof is deep enough to be cached for long. -/
def DEEP_CONFIRMATION_DEPTH : Nat := HeaderSync.REORG_RESUBMIT_DEPTH

def SHORT_TTL_MS : Nat := 15000

/-- Retry hint for a 503 when Esplora is unavailable. -/
def UPSTREAM_RETRY_AFTER_SECONDS : Nat := 10

structure ProofConfig where
  bitcoinNetwork : Text
  defaultConfirmations : Nat
  maxConfirmations : Nat
  spvProofCacheTtlMs : Nat
  spvSyncIntervalMs : Nat

/-- Seconds a caller should wait for the next header-sync pass. -/
def ProofConfig.headerSyncRetryAfterSeconds (config : ProofConfig) : Nat := (config.spvSyncIntervalMs + 999) / 1000

/-- The arguments of `verify_transaction`, in hex. -/
structure SorobanArgs where
  blockHash : Text
  merkleProof : List Text
  txIndex : Nat
  rawTx : Text
  minConfirmations : Nat
  deriving DecidableEq

def sorobanArgs (bundle : SPVProofBundle) : SorobanArgs where
  blockHash := bundle.blockHash
  merkleProof := bundle.merkleProof
  txIndex := bundle.txIndex
  rawTx := bundle.rawTxNoWitness
  minConfirmations := bundle.confirmations

/-- An HTTP answer. -/
inductive ProofAnswer where
  | proof (bundle : SPVProofBundle) (args : SorobanArgs)
  | invalidTxid
  | invalidConfirmations (maxConfirmations : Nat)
  | unconfirmed (message : Text)
  | insufficientConfirmations (message : Text) (requested : Nat) (available : Int)
  | txNotFound (message : Text)
  | upstreamUnavailable
  | upstreamError (message : Text)
  | lightClientBehind (requested available blockHeight lightClientTipHeight retryAfterSeconds : Nat)
  deriving DecidableEq

def ProofAnswer.status : ProofAnswer → Nat
  | .proof _ _ => 200
  | .invalidTxid | .invalidConfirmations _ => 400
  | .unconfirmed _ | .txNotFound _ => 404
  | .insufficientConfirmations _ _ _ | .lightClientBehind _ _ _ _ _ => 409
  | .upstreamUnavailable => 503
  | .upstreamError _ => 502

/-- The code in the body of an answer that is not a proof. -/
def ProofAnswer.error : ProofAnswer → Option Text
  | .proof _ _ => none
  | .invalidTxid => some "invalid_txid".toList
  | .invalidConfirmations _ => some "invalid_confirmations".toList
  | .unconfirmed _ => some "unconfirmed".toList
  | .insufficientConfirmations _ _ _ => some "insufficient_confirmations".toList
  | .txNotFound _ => some "tx_not_found".toList
  | .upstreamUnavailable => some "upstream_unavailable".toList
  | .upstreamError _ => some "upstream_error".toList
  | .lightClientBehind _ _ _ _ _ => some "light_client_behind".toList

/-- Its message. -/
def ProofAnswer.message : ProofAnswer → Text
  | .proof _ _ => []
  | .invalidTxid => "txid must be a 64-character lowercase hex string".toList
  | .invalidConfirmations maxConfirmations =>
    "confirmations must be an integer between 1 and ".toList ++ Nat.toDigits 10 maxConfirmations
  | .unconfirmed message | .insufficientConfirmations message _ _ | .txNotFound message | .upstreamError message => message
  | .upstreamUnavailable => "The Bitcoin indexer is rate limiting or unavailable; retry shortly".toList
  | .lightClientBehind requested _ blockHeight lightClientTipHeight retryAfterSeconds =>
    "bitcoin-spv holds headers up to height ".toList ++ Nat.toDigits 10 lightClientTipHeight
      ++ " and this proof needs ".toList ++ Nat.toDigits 10 (blockHeight + requested - 1)
      ++ "; the relayer submits new headers every ".toList ++ Nat.toDigits 10 retryAfterSeconds
      ++ "s, retry then".toList

/-- The `Retry-After` header, in seconds. -/
def ProofAnswer.retryAfter : ProofAnswer → Option Nat
  | .upstreamUnavailable => some UPSTREAM_RETRY_AFTER_SECONDS
  | .lightClientBehind _ _ _ _ retryAfterSeconds => some retryAfterSeconds
  | _ => none

/-- Builds a proof and turns the outcome into an answer, with how long to cache it in milliseconds. -/
def computeProof (config : ProofConfig) (esplora : EsploraClient) (txid : Text) (confirmations : Nat) :
    Except ProofFailure (ProofAnswer × Nat) :=
  match buildSPVProof txid confirmations esplora with
  | .ok built =>
    let bundle := { built with bitcoinTipHeight := none }
    let depth : Int :=
      match built.bitcoinTipHeight with
      | none => 0
      | some tip => tip - built.blockHeight + 1
    .ok (.proof bundle (sorobanArgs bundle),
      if depth ≥ DEEP_CONFIRMATION_DEPTH then config.spvProofCacheTtlMs else SHORT_TTL_MS)
  | .error (.unconfirmed t) => .ok (.unconfirmed (ProofFailure.unconfirmed t).message, SHORT_TTL_MS)
  | .error (.insufficientConfirmations t requested available) =>
    .ok (.insufficientConfirmations (ProofFailure.insufficientConfirmations t requested available).message
      requested available, SHORT_TTL_MS)
  | .error (.esplora path (.status status body)) =>
    if status = 404 ∧ txPath txid <:+ path then
      .ok (.txNotFound ("Transaction ".toList ++ txid ++ " is not known to the Bitcoin ".toList
        ++ config.bitcoinNetwork ++ " indexer".toList), SHORT_TTL_MS)
    else
      .error (.esplora path (.status status body))
  | .error e => .error e

/-- The failures that say the upstream is unavailable. -/
def ProofFailure.isUpstreamUnavailable : ProofFailure → Bool
  | .esplora _ e => Relayer.isUpstreamUnavailable e
  | _ => false

/-- The confirmations a request asks for; none for an invalid number. -/
def confirmationsOf (config : ProofConfig) : Option Text → Option Nat
  | none => some config.defaultConfirmations
  | some rawConf =>
    match parseInt10 rawConf with
    | some parsed => if parsed < 1 ∨ parsed > config.maxConfirmations then none else some parsed.toNat
    | none => none

/-- `readLightClientTipHeight`, of what `get_best_tip` is simulated on; none where it is unknown. -/
def readLightClientTipHeight (spv : Option Spv.Storage) : Option Nat :=
  spv.bind fun s => (Spv.getBestTip s).map BestTip.height

/-- The check that the light client can verify the proof now. -/
def checkLightClient (config : ProofConfig) (lcTip : Option Nat) (confirmations : Nat) : ProofAnswer → ProofAnswer
  | .proof bundle args =>
    let needed := bundle.blockHeight + confirmations - 1
    match lcTip with
    | some lcTip =>
      if lcTip < needed then
        .lightClientBehind confirmations (lcTip + 1 - bundle.blockHeight) bundle.blockHeight lcTip
          config.headerSyncRetryAfterSeconds
      else .proof bundle args
    | none => .proof bundle args
  | answer => answer

/-- `GET /spv-proof/:txid?confirmations=`. -/
def getProof (config : ProofConfig) (esplora : EsploraClient) (lcTip : Option Nat) (txid : Text)
    (rawConf : Option Text) : ProofAnswer :=
  if !isTxid txid then .invalidTxid
  else
    match confirmationsOf config rawConf with
    | none => .invalidConfirmations config.maxConfirmations
    | some confirmations =>
      match computeProof config esplora (toLowerCase txid) confirmations with
      | .ok (answer, _) => checkLightClient config lcTip confirmations answer
      | .error e => if e.isUpstreamUnavailable then .upstreamUnavailable else .upstreamError e.message

/-! ## In the app -/

/-- A value of the contract's `BytesN<32>` from its hex. -/
def bytes32 (hex : Text) : Option (BytesN 32) :=
  if h : (fromHex hex).length = 32 then some ⟨fromHex hex, h⟩ else none

/-- `verify_transaction` on the light client, with the arguments of an answer. -/
def verifyWith (C : Crypto) (spv : Spv.Storage) (args : SorobanArgs) : Option (Spv.Result SpvVerificationResult) := do
  let blockHash ← bytes32 args.blockHash
  let merkleProof ← args.merkleProof.mapM bytes32
  some (Spv.verifyTransaction C spv blockHash merkleProof args.txIndex (fromHex args.rawTx) args.minConfirmations)

end Writz.Relayer.SpvProof

import Writz.Relayer.Cctp.Message
import Writz.Relayer.Cctp.Store

/-!
# The CCTP relay

`cctp/service.ts` and what it reads of `cctp/iris.ts`: the code of a job between two of its `await`s. It
reads and writes the record of its burn, and ends with what it awaits next. It runs at one moment, and so
does what follows a rejection.
-/

namespace Writz.Relayer.Cctp

open Node

/-- How long a burn Iris has never heard of is polled before the relay gives up on it. -/
def UNSEEN_TIMEOUT_MS : Nat := 10 * 60000
/-- Receipt waits per mint before the job stops. -/
def RECEIPT_WAITS : Nat := 4
/-- First automatic retry after a transient failure. -/
def RETRY_INITIAL_MS : Nat := 30000
def RETRY_MAX_MS : Nat := 15 * 60000
/-- How long a transfer keeps failing transiently before the relay stops. -/
def RETRY_GIVE_UP_MS : Nat := 24 * 60 * 60000
/-- An out-of-gas transfer is retried only once the account holds this much. -/
def MIN_RETRY_BALANCE_WEI : Nat := 100000000000000
/-- Searches for the mint hash of a transfer someone else completed. -/
def MINT_LOOKUP_ATTEMPTS : Nat := 8
def DAY_MS : Nat := 24 * 60 * 60000

structure RelaySettings where
  confirmTimeoutMs : Nat
  /-- Mints the relay broadcasts per UTC day. -/
  dailyCap : Nat
  /-- Transfers in flight at once. -/
  maxOpen : Nat

structure RelayOptions where
  /-- The relay key's Base Sepolia address. -/
  address : Text
  settings : RelaySettings

inductive RelayErrorCode where
  | invalidBurnHash | notFound | relayBusy
  deriving DecidableEq

structure RelayError where
  code : RelayErrorCode
  message : Text
  retryAfterSeconds : Option Nat
  deriving DecidableEq

def startOfUtcDay (t : Nat) : Nat := t - t % DAY_MS

/-- Delay before automatic attempt number `attempt` (1-based). -/
def retryDelayMs (attempt : Nat) : Nat := min (RETRY_INITIAL_MS * 2 ^ (attempt - 1)) RETRY_MAX_MS

/-! ## What a job asks for -/

/-- The first message Iris answers with. -/
structure IrisMessage where
  status : Text
  message : Text
  attestation : Text

inductive IrisLookup where
  /-- Not indexed yet, or not a CCTP burn. -/
  | unknown
  /-- Iris knows the burn and is waiting for Stellar finality. -/
  | pending
  | complete (message attestation : Text)

/-- `fetchIrisMessage`, of an answer that is no error: 404 and an empty list have no message. -/
def fetchIrisMessage : Option IrisMessage → IrisLookup
  | none => .unknown
  | some m =>
    if m.status ≠ "complete".toList ∨ m.message = [] ∨ m.attestation = []
        ∨ m.attestation = "PENDING".toList then
      .pending
    else
      .complete m.message m.attestation

inductive SimulateOutcome where
  | ok
  /-- Whether the RPC itself failed, and the contract's reason. -/
  | failed (transient : Bool) (revert : Option Text)

inductive ReceiptOutcome where
  | success | reverted | pending
  deriving DecidableEq

inductive SendErrorKind where
  | insufficientFunds | failed
  deriving DecidableEq

structure MintLog where
  txHash : Text
  /-- The account that called `receiveMessage`. -/
  caller : Text

/-- What a mint awaits, which holds the lock. -/
inductive MintStage where
  /-- The receipt of an earlier broadcast, after some waits. -/
  | earlier (mintHash : Text) (waits : Nat)
  /-- `isNonceUsed`, the earlier broadcast being pending. -/
  | pending
  /-- `isNonceUsed`. -/
  | checking
  | simulating
  /-- `isNonceUsed`, after a simulation that failed. -/
  | refused (transient : Bool) (revert : Option Text)
  | sending
  /-- The receipt of the broadcast, after some waits. -/
  | mining (mintHash : Text) (waits : Nat)
  /-- `isNonceUsed`, after a broadcast that reverted or is pending. -/
  | unmined (outcome : ReceiptOutcome)
  /-- `findMintTx`. -/
  | finding
  /-- The balance, after a mint. -/
  | warning
  deriving DecidableEq

/-- What a mint keeps of the record. -/
structure Signed where
  nonce : Text
  message : Text
  attestation : Text
  deriving DecidableEq

/-- What a job awaits. -/
inductive Stage where
  /-- The balance, before the retry of a record. -/
  | paying (r : RelayRecord)
  /-- `findMintTx`, for a record that arrived without a hash. -/
  | looking (r : RelayRecord)
  /-- Iris, since a time, with the record as last seen. -/
  | asking (begun : Nat) (record : RelayRecord)
  | sleeping (begun : Nat) (record : RelayRecord)
  /-- The lock. -/
  | queued
  | minting (signed : Signed) (stage : MintStage)
  /-- The removal from the map of jobs. -/
  | ended
  deriving DecidableEq

/-! ## Writing a record -/

/-- `update`: a patch of the record. -/
def update (t : Nat) (patch : RelayRecord → RelayRecord) (r : RelayRecord) : RelayRecord :=
  { patch r with updatedAt := t }

def FailureCode.isFinal (code : FailureCode) : Bool := code = .refused || code = .mintRefused

/-- A failure that is not retried by itself. -/
def fail (t : Nat) (code : FailureCode) (reason : Text) : RelayRecord → RelayRecord :=
  update t fun r =>
    { r with
      state := .failed
      retryable := !code.isFinal
      failure := some reason
      failureCode := some code
      retryAt := none }

def gaveUpReason (reason : Text) : Text :=
  "the relay stopped after 24 hours of retrying (".toList ++ reason ++ "); ask again to start over".toList

/-- A transient failure: scheduled for an automatic retry or, after `RETRY_GIVE_UP_MS`, final. -/
def transient (t : Nat) (code : FailureCode) (reason : Text) (r : RelayRecord) : RelayRecord :=
  let since := r.retryingSince.getD t
  let attempts := r.attempts.getD 0 + 1
  if RETRY_GIVE_UP_MS ≤ t - since then
    fail t .gaveUp (gaveUpReason reason)
      (update t (fun r => { r with attempts := some attempts, retryingSince := some since }) r)
  else
    let retryAt := if code = .dailyCap then startOfUtcDay t + DAY_MS else t + retryDelayMs attempts
    update t (fun r =>
      { r with
        state := .failed
        retryable := true
        failure := some reason
        failureCode := some code
        retryAt := some retryAt
        attempts := some attempts
        retryingSince := some since }) r

/-- What `launch` does with a job that rejects. -/
def rejected (t : Nat) (r : RelayRecord) : RelayRecord :=
  if r.state = .arrived then r
  else transient t .unexpected "the relay hit an unexpected error".toList r

def arrived (t : Nat) (mintHash : Option Text) (mintedBy : Minter) : RelayRecord → RelayRecord :=
  update t fun r =>
    { r with
      state := .arrived
      mintHash
      mintedBy := some mintedBy
      failure := none
      failureCode := none
      retryable := false
      retryAt := if mintHash.isSome then none else some (t + RETRY_INITIAL_MS)
      attempts := none
      retryingSince := none }

/-! ## Jobs -/

variable (opts : RelayOptions) (t : Nat)

/-- `run`, up to Iris or the lock. -/
def run (r : RelayRecord) : RelayRecord × Stage :=
  if isSettled r then (r, .ended)
  else if r.attestation.isNone then (r, .asking t r)
  else (r, .queued)

/-- `resumeFailed`, past its check of the balance. -/
def resumeRun (was r : RelayRecord) : RelayRecord × Stage :=
  run t (update t (fun r =>
    { r with
      state := if was.attestation.isSome then .confirmed else .sent
      failure := none
      failureCode := none
      retryAt := none
      retryable := false }) r)

def resumeFailed (r : RelayRecord) : RelayRecord × Stage :=
  if r.failureCode = some .outOfGas then (r, .paying r) else resumeRun t r r

/-- `canPayForMint`, of the balance if it can be read. -/
def canPayForMint (wei : Option Nat) : Bool := wei.any (MIN_RETRY_BALANCE_WEI ≤ ·)

/-- `resumeFailed`, with the balance. -/
def paid (wei : Option Nat) (was r : RelayRecord) : RelayRecord × Stage :=
  if canPayForMint wei then resumeRun t was r
  else
    (transient t .outOfGas (was.failure.getD "the relay is out of Base Sepolia gas".toList) r, .ended)

def mintedByOf (found : Option MintLog) : Minter :=
  if found.any fun log => toLowerCase log.caller = toLowerCase opts.address then .relay else .other

/-- `lookupMintAgain`, with what was found. -/
def lookedUp (found : Option MintLog) (was r : RelayRecord) : RelayRecord × Stage :=
  match found with
  | some log =>
    (update t (fun r =>
      { r with
        mintHash := some log.txHash
        mintedBy := some (mintedByOf opts (some log))
        retryAt := none
        attempts := none }) r, .ended)
  | none =>
    let attempts := was.attempts.getD 0 + 1
    let more := was.nonce.isSome && decide (attempts < MINT_LOOKUP_ATTEMPTS)
    (update t (fun r =>
      { r with
        attempts := some attempts
        retryAt := if more then some (t + retryDelayMs (attempts + 1)) else none }) r, .ended)

/-- Another search for the mint hash of a transfer that arrived without one. -/
def lookupMintAgain (r : RelayRecord) : RelayRecord × Stage :=
  if r.nonce.isSome then (r, .looking r) else lookedUp opts t none r r

/-! ## Waiting for the message -/

/-- The end of a round of `awaitMessage`. -/
def pollAgain (begun : Nat) (record r : RelayRecord) : RelayRecord × Stage :=
  let unseen := record.state = .sent
  let confirmTimeoutMs := opts.settings.confirmTimeoutMs
  let limit := if unseen then min UNSEEN_TIMEOUT_MS confirmTimeoutMs else confirmTimeoutMs
  if limit ≤ t - begun then
    if unseen then
      (fail t .unseen
        "Circle has no record of this burn; check that it is a CCTP transfer sent from Stellar".toList r,
        .ended)
    else
      (transient t .confirmTimeout "Circle has not confirmed the transfer yet".toList r, .ended)
  else
    (r, .sleeping begun record)

/-- A round of `awaitMessage`, with what Iris answers, and `run` up to the lock; `none` is an error. -/
def asked (begun : Nat) (record : RelayRecord) (lookup : Option IrisLookup) (r : RelayRecord) :
    RelayRecord × Stage :=
  match lookup with
  | some (.complete message attestation) =>
    match assertRelayable message with
    | .ok burn =>
      (update t (fun r =>
        { r with
          state := .confirmed
          nonce := some burn.message.nonce
          recipient := some burn.mintRecipient
          amount := some burn.message.body.amount
          feeExecuted := some burn.message.body.feeExecuted
          message := some message
          attestation := some attestation }) r, .queued)
    | .error (.refused reason) =>
      (fail t .refused ("the relay does not complete this transfer: ".toList ++ reason) r, .ended)
    | .error _ => (rejected t r, .ended)
  | some .pending =>
    if record.state = .sent then
      let r := update t (fun r => { r with state := .confirming }) r
      pollAgain opts t begun r r
    else
      pollAgain opts t begun record r
  | some .unknown | none => pollAgain opts t begun record r

/-! ## Minting -/

/-- `mint`, up to its first `await`; `none` where it returns. -/
def mint (r : RelayRecord) : Option (Signed × MintStage) :=
  match isSettled r, r.nonce, r.message, r.attestation with
  | false, some nonce, some message, some attestation =>
    match r.mintHash, r.mintedBy with
    | some mintHash, some .relay => some ({ nonce, message, attestation }, .earlier mintHash 0)
    | _, _ => some ({ nonce, message, attestation }, .checking)
  | _, _, _, _ => none

/-- A mint from one `await` to the next; `none` where it returns. -/
abbrev MintStep := RelayRecord × Option MintStage

/-- The receipt of an earlier broadcast. -/
def earlierReceipt (mintHash : Text) (waits : Nat) (outcome : ReceiptOutcome) (r : RelayRecord) :
    MintStep :=
  match outcome with
  | .success => (arrived t (some mintHash) .relay r, none)
  | .reverted => (r, some .checking)
  | .pending => (r, some (if waits + 1 < RECEIPT_WAITS then .earlier mintHash (waits + 1) else .pending))

def notMined : Text := "the mint transaction on Base Sepolia is not mined yet".toList

/-- Whether the nonce is used, the earlier broadcast being pending. -/
def pendingNonce (used : Bool) (r : RelayRecord) : MintStep :=
  if used then (r, some .checking) else (transient t .notMined notMined r, none)

def dailyCapReason : Text :=
  "the relay reached its daily limit of ".toList ++ Nat.toDigits 10 opts.settings.dailyCap
    ++ " transfers; it resumes after 00:00 UTC".toList

/-- Whether the nonce is used, and the daily cap: `today` mints count today. -/
def checkedNonce (today : Nat) (used : Bool) (r : RelayRecord) : MintStep :=
  if used then (r, some .finding)
  else if opts.settings.dailyCap ≤ today then
    (transient t .dailyCap (dailyCapReason opts) r, none)
  else (r, some .simulating)

def simulated (sim : SimulateOutcome) (r : RelayRecord) : MintStep :=
  match sim with
  | .ok => (r, some .sending)
  | .failed transient revert => (r, some (.refused transient revert))

/-- Whether the nonce is used, after a simulation that failed. -/
def refusedNonce (isTransient : Bool) (revert : Option Text) (used : Bool) (r : RelayRecord) : MintStep :=
  if used then (r, some .finding)
  else if isTransient then (transient t .rpc "Base Sepolia could not be reached".toList r, none)
  else
    (fail t .mintRefused
      ("Base Sepolia refused the mint: ".toList ++ revert.getD "reverted".toList) r, none)

/-- What `sendReceive` returns or throws. -/
def sent (answer : Except SendErrorKind Text) (r : RelayRecord) : MintStep :=
  match answer with
  | .error .insufficientFunds =>
    (transient t .outOfGas
      "the relay is out of Base Sepolia gas; it retries once the account is refilled".toList r, none)
  | .error .failed =>
    (transient t .sendFailed "the mint could not be sent to Base Sepolia".toList r, none)
  | .ok mintHash =>
    (update t (fun r =>
      { r with
        state := .submitted
        mintHash := some mintHash
        mintedBy := some .relay
        submittedAt := some t }) r, some (.mining mintHash 0))

/-- The receipt of the broadcast. -/
def miningReceipt (mintHash : Text) (waits : Nat) (outcome : ReceiptOutcome) (r : RelayRecord) :
    MintStep :=
  match outcome with
  | .success => (arrived t (some mintHash) .relay r, some .warning)
  | .reverted => (r, some (.unmined .reverted))
  | .pending =>
    (r, some (if waits + 1 < RECEIPT_WAITS then .mining mintHash (waits + 1) else .unmined .pending))

/-- Whether the nonce is used, after a broadcast that did not succeed. -/
def unminedNonce (outcome : ReceiptOutcome) (used : Bool) (r : RelayRecord) : MintStep :=
  if used then (r, some .finding)
  else if outcome = .reverted then
    (transient t .reverted "the mint transaction reverted on Base Sepolia".toList r, none)
  else (transient t .notMined notMined r, none)

/-- `mintedElsewhere`, with what was found. -/
def mintedElsewhere (found : Option MintLog) (r : RelayRecord) : MintStep :=
  (arrived t (found.map MintLog.txHash) (mintedByOf opts found) r, none)

end Writz.Relayer.Cctp

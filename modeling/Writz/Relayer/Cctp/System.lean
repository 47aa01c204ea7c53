import Writz.Relayer.Cctp.Service
import Writz.Util.Runs

/-!
# Runs of the CCTP relay

Its entry points and the answers its jobs await, in any order, with the clock, crashes and restarts, and
the nonces that are spent on Base Sepolia. What the relay asks the chain and learns from it is recorded.
-/

namespace Writz.Relayer.Cctp

open Node

/-- A job: its burn, and what it awaits. -/
structure Job where
  burnHash : Text
  stage : Stage
  deriving DecidableEq

/-- What the relay has asked and learned. -/
inductive Deed where
  /-- Iris reports a burn as pending or complete. -/
  | reported (burnHash : Text)
  | nonceRead (nonce : Text) (used : Bool)
  | receipt (txHash : Text) (outcome : ReceiptOutcome)
  /-- `sendReceive` is called. -/
  | sending (burnHash nonce : Text)
  /-- A broadcast is recorded. -/
  | broadcast (burnHash txHash : Text) (t : Nat)
  deriving DecidableEq

structure CctpRelay where
  now : Nat
  store : RelayStore
  /-- The map of jobs. -/
  jobs : JsMap Text Nat
  /-- What the jobs await that run. -/
  running : JsMap Nat Job
  /-- The number of jobs launched. -/
  launched : Nat
  /-- The jobs that wait for the lock, after the one that has it. -/
  queue : List Nat
  /-- The nonces that are spent on Base Sepolia. -/
  spent : List Text
  /-- The latest first. -/
  deeds : List Deed
  deriving DecidableEq

namespace CctpRelay

/-- A job awaits something new, with its record written. -/
def await (s : CctpRelay) (id : Nat) (burnHash : Text) (next : RelayRecord × Stage) : CctpRelay :=
  { s with
    store := s.store.set burnHash next.1
    running := s.running.set id { burnHash, stage := next.2 }
    queue := if next.2 = .queued then s.queue ++ [id] else s.queue }

/-- A mint awaits something new, or returns and gives the lock back. -/
def awaitMint (s : CctpRelay) (id : Nat) (burnHash : Text) (signed : Signed) (next : MintStep) :
    CctpRelay :=
  match next.2 with
  | some stage => s.await id burnHash (next.1, .minting signed stage)
  | none => { s.await id burnHash (next.1, .ended) with queue := s.queue.tail }

def note (s : CctpRelay) (deeds : List Deed) : CctpRelay := { s with deeds := deeds ++ s.deeds }

/-! ## Entry points -/

/-- One job per burn: a second launch while one runs is a no-op. -/
def launch (s : CctpRelay) (burnHash : Text) (work : RelayRecord → RelayRecord × Stage) : CctpRelay :=
  match s.jobs.get burnHash, s.store.get burnHash with
  | none, some r =>
    { s.await s.launched burnHash (work r) with
      jobs := s.jobs.set burnHash s.launched
      launched := s.launched + 1 }
  | _, _ => s

def start (s : CctpRelay) (burnHash : Text) : CctpRelay := s.launch burnHash (run s.now)

variable (opts : RelayOptions)

/-- Starts the retry of a burn if one is due. -/
def retry (s : CctpRelay) (burnHash : Text) : CctpRelay :=
  match s.store.get burnHash with
  | none => s
  | some r =>
    if r.retryAt.all (s.now < ·) then s
    else if (s.jobs.get burnHash).isSome ∨ opts.settings.maxOpen ≤ s.jobs.length then s
    else if r.state = .arrived then s.launch burnHash (lookupMintAgain opts s.now)
    else if isRetrying r then s.launch burnHash (resumeFailed s.now)
    else s

def parse (rawHash : Text) : Except RelayError Text :=
  match normalizeBurnHash rawHash with
  | some burnHash => .ok burnHash
  | none => .error
    { code := .invalidBurnHash
      message := "burnHash must be a Stellar transaction hash: 64 hexadecimal characters".toList
      retryAfterSeconds := none }

/-- The record that a request starts over, or starts with. -/
def restarted (t : Nat) (burnHash : Text) : Option RelayRecord → RelayRecord
  | none => .new burnHash t
  | some r =>
    { r with
      state := if r.attestation.isSome then .confirmed else .sent
      failure := none
      failureCode := none
      retryable := false
      retryAt := none
      attempts := none
      retryingSince := none
      updatedAt := t }

/-- Whether a request leaves a record as it is. -/
def stands (r : RelayRecord) : Bool := isRetrying r || !(r.state = .failed && r.retryable)

def viewOf (s : CctpRelay) (burnHash : Text) (r : RelayRecord) : CctpRelayView :=
  toRelayView ((s.store.get burnHash).getD r)

/-- Starts (or resumes) relaying a burn and returns where it stands. -/
def request (s : CctpRelay) (rawHash : Text) : Except RelayError CctpRelayView × CctpRelay :=
  match parse rawHash with
  | .error e => (.error e, s)
  | .ok burnHash =>
    let existing := s.store.get burnHash
    match existing.filter stands with
    | some r =>
      let s := if isSettled r then s.retry opts burnHash else s.start burnHash
      (.ok (s.viewOf burnHash r), s)
    | none =>
      if opts.settings.maxOpen ≤ s.jobs.length then
        (.error
          { code := .relayBusy
            message := "the relay is handling as many transfers as it can; try again shortly".toList
            retryAfterSeconds := some 30 }, s)
      else
        let r := restarted s.now burnHash existing
        (.ok (toRelayView r), { s with store := s.store.set burnHash r }.start burnHash)

/-- Where a transfer stands; runs a retry that is already due. -/
def status (s : CctpRelay) (rawHash : Text) : Except RelayError (Option CctpRelayView) × CctpRelay :=
  match parse rawHash with
  | .error e => (.error e, s)
  | .ok burnHash =>
    if (s.store.get burnHash).isNone then
      (.error
        { code := .notFound
          message :=
            "the relay has no transfer for this burn; send it with POST /cctp/relay first".toList
          retryAfterSeconds := none }, s)
    else
      let s := s.retry opts burnHash
      (.ok (lookupCctpRelay s.store burnHash), s)

/-- Restarts every transfer a previous process left in flight. Its turns are steps of their own, as those
of `retryDue`. -/
def resume (s : CctpRelay) : CctpRelay :=
  s.store.listOpen.foldl (fun s r => s.start r.burnHash) s

/-- Runs every retry whose time has come. -/
def retryDue (s : CctpRelay) : CctpRelay :=
  (s.store.listDue s.now).foldl (fun s r => s.retry opts r.burnHash) s

/-- The process ends; its database stays. -/
def crash (s : CctpRelay) : CctpRelay := { s with jobs := [], running := [], queue := [] }

end CctpRelay

/-! ## Steps -/

inductive RelayLabel where
  | request (rawHash : Text)
  | status (rawHash : Text)
  /-- A turn of `resume`. -/
  | resume (burnHash : Text)
  /-- A turn of `retryDue`. -/
  | retryDue (burnHash : Text)
  | crash
  | clock (ms : Nat)
  /-- Anyone spends a nonce on Base Sepolia. -/
  | spend (nonce : Text)
  /-- Iris answers a job, or fails to. -/
  | iris (id : Nat) (answer : Option (Option IrisMessage))
  | wake (id : Nat)
  /-- A job takes the lock. -/
  | lock (id : Nat)
  /-- A balance, if it can be read. -/
  | balance (id : Nat) (wei : Option Nat)
  /-- `isNonceUsed` answers, or throws. -/
  | nonceUsed (id : Nat) (answers : Bool)
  | simulated (id : Nat) (outcome : Option SimulateOutcome)
  | sent (id : Nat) (answer : Except SendErrorKind Text)
  | receipt (id : Nat) (outcome : Option ReceiptOutcome)
  /-- `findMintTx`. -/
  | found (id : Nat) (log : Option MintLog)
  /-- A job that has ended leaves the map. -/
  | leave (id : Nat)

namespace CctpRelay

variable (opts : RelayOptions) (s : CctpRelay)

/-- The job with its record; a job whose burn has none has nothing left to do. -/
def jobAt (id : Nat) : Option (Job × RelayRecord) := do
  let job ← s.running.get id
  let r ← s.store.get job.burnHash
  some (job, r)

def iris (id : Nat) (answer : Option (Option IrisMessage)) : Option CctpRelay :=
  match s.jobAt id with
  | some ({ burnHash, stage := .asking begun record }, r) =>
    let lookup := answer.map fetchIrisMessage
    let reported := match lookup with
      | some .pending | some (.complete _ _) => [Deed.reported burnHash]
      | _ => []
    some ((s.await id burnHash (asked opts s.now begun record lookup r)).note reported)
  | _ => none

def wake (id : Nat) : Option CctpRelay :=
  match s.jobAt id with
  | some ({ burnHash, stage := .sleeping begun record }, r) =>
    some (s.await id burnHash (r, .asking begun record))
  | _ => none

/-- The next task of the lock starts where the one before has settled. -/
def lock (id : Nat) : Option CctpRelay :=
  match s.jobAt id with
  | some ({ burnHash, stage := .queued }, r) =>
    if s.queue.head? = some id then
      match mint r with
      | some (signed, stage) => some (s.awaitMint id burnHash signed (r, some stage))
      | none => some { s.await id burnHash (r, .ended) with queue := s.queue.tail }
    else none
  | _ => none

def balance (id : Nat) (wei : Option Nat) : Option CctpRelay :=
  match s.jobAt id with
  | some ({ burnHash, stage := .paying was }, r) => some (s.await id burnHash (paid s.now wei was r))
  | some ({ burnHash, stage := .minting signed .warning }, r) =>
    some (s.awaitMint id burnHash signed (r, none))
  | _ => none

def nonceUsed (id : Nat) (answers : Bool) : Option CctpRelay :=
  match s.jobAt id with
  | some ({ burnHash, stage := .minting signed stage }, r) =>
    let used := decide (signed.nonce ∈ s.spent)
    let next : Option MintStep := match stage with
      | .pending => some (pendingNonce s.now used r)
      | .checking =>
        some (checkedNonce opts s.now (s.store.countSubmittedSince (startOfUtcDay s.now)) used r)
      | .refused isTransient revert => some (refusedNonce s.now isTransient revert used r)
      | .unmined outcome => some (unminedNonce s.now outcome used r)
      | _ => none
    next.map fun next =>
      if answers then (s.awaitMint id burnHash signed next).note [.nonceRead signed.nonce used]
      else s.awaitMint id burnHash signed (rejected s.now r, none)
  | _ => none

def simulated (id : Nat) (outcome : Option SimulateOutcome) : Option CctpRelay :=
  match s.jobAt id, outcome with
  | some ({ burnHash, stage := .minting signed .simulating }, r), some .ok =>
    some ((s.awaitMint id burnHash signed (Cctp.simulated .ok r)).note [.sending burnHash signed.nonce])
  | some ({ burnHash, stage := .minting signed .simulating }, r), some sim =>
    some (s.awaitMint id burnHash signed (Cctp.simulated sim r))
  | some ({ burnHash, stage := .minting signed .simulating }, r), none =>
    some (s.awaitMint id burnHash signed (rejected s.now r, none))
  | _, _ => none

def sent (id : Nat) (answer : Except SendErrorKind Text) : Option CctpRelay :=
  match s.jobAt id with
  | some ({ burnHash, stage := .minting signed .sending }, r) =>
    let recorded := match answer with
      | .ok txHash => [Deed.broadcast burnHash txHash s.now]
      | .error _ => []
    some ((s.awaitMint id burnHash signed (Cctp.sent s.now answer r)).note recorded)
  | _ => none

def receipt (id : Nat) (outcome : Option ReceiptOutcome) : Option CctpRelay :=
  match s.jobAt id, outcome with
  | some ({ burnHash, stage := .minting signed (.earlier txHash waits) }, r), some outcome =>
    some ((s.awaitMint id burnHash signed (earlierReceipt s.now txHash waits outcome r)).note
      [.receipt txHash outcome])
  | some ({ burnHash, stage := .minting signed (.mining txHash waits) }, r), some outcome =>
    some ((s.awaitMint id burnHash signed (miningReceipt s.now txHash waits outcome r)).note
      [.receipt txHash outcome])
  | some ({ burnHash, stage := .minting signed (.earlier _ _) }, r), none
  | some ({ burnHash, stage := .minting signed (.mining _ _) }, r), none =>
    some (s.awaitMint id burnHash signed (rejected s.now r, none))
  | _, _ => none

def found (id : Nat) (log : Option MintLog) : Option CctpRelay :=
  match s.jobAt id with
  | some ({ burnHash, stage := .looking was }, r) =>
    some (s.await id burnHash (lookedUp opts s.now log was r))
  | some ({ burnHash, stage := .minting signed .finding }, r) =>
    some (s.awaitMint id burnHash signed (mintedElsewhere opts s.now log r))
  | _ => none

def leave (id : Nat) : Option CctpRelay :=
  match s.running.get id with
  | some { burnHash, stage := .ended } =>
    some { s with jobs := s.jobs.delete burnHash, running := s.running.delete id }
  | _ => none

end CctpRelay

/-- The runs of the relay over one database, from an empty one. -/
def cctpRelay (opts : RelayOptions) : Runs.System CctpRelay RelayLabel where
  init s :=
    s.store = [] ∧ s.jobs = [] ∧ s.running = [] ∧ s.queue = [] ∧ s.deeds = []
  step s
    | .request rawHash => some (s.request opts rawHash).2
    | .status rawHash => some (s.status opts rawHash).2
    | .resume burnHash =>
      if (s.store.get burnHash).any fun r => !isSettled r then some (s.start burnHash) else none
    | .retryDue burnHash => some (s.retry opts burnHash)
    | .crash => some s.crash
    | .clock ms => some { s with now := s.now + ms }
    | .spend nonce => some { s with spent := nonce :: s.spent }
    | .iris id answer => s.iris opts id answer
    | .wake id => s.wake id
    | .lock id => s.lock id
    | .balance id wei => s.balance id wei
    | .nonceUsed id answers => s.nonceUsed opts id answers
    | .simulated id outcome => s.simulated id outcome
    | .sent id answer => s.sent id answer
    | .receipt id outcome => s.receipt id outcome
    | .found id log => s.found opts id log
    | .leave id => s.leave id

end Writz.Relayer.Cctp

import Writz.Relayer.Faucet.Service
import Writz.Util.Runs

/-!
# Runs of the faucet

The claims and status calls of one database between their `await`s, with what Esplora answers them, the
clock, restarts, and the transactions the network accepts.
-/

namespace Writz.Relayer

open Node
open BitcoinScript (P2wpkhUtxo P2wpkhPayment Payer buildP2wpkhPayment)

/-- A claimant whose account is verified. -/
structure VerifiedClaimant where
  address : Text
  stellarAddress : Text
  userKey : Text
  deriving DecidableEq

def VerifiedClaimant.claimant (c : VerifiedClaimant) : Claimant where
  address := c.address
  stellarAddress := c.stellarAddress
  userKey := some c.userKey

/-- The two are one Pollar account, one Stellar address or one Signet address. -/
def VerifiedClaimant.Shares (c c' : VerifiedClaimant) : Prop :=
  c.userKey = c'.userKey ∨ c.stellarAddress = c'.stellarAddress ∨ c.address = c'.address

instance (c c' : VerifiedClaimant) : Decidable (c.Shares c') := inferInstanceAs (Decidable (_ ∨ _))

/-- A claim that waits for the lock, or holds it. -/
structure Claim where
  claimant : VerifiedClaimant
  ipHash : Text

/-- What a send awaits. -/
inductive Stage where
  | listing (attempts : Attempts) (requestedAt : Int)
  | estimating (utxos : List P2wpkhUtxo) (attempts : Attempts)
  | broadcasting (payment : P2wpkhPayment) (attempts : Attempts)

structure Sending where
  claim : Claim
  stage : Stage

/-- What a claim has learned of its broadcast. -/
inductive Outcome where
  | pending
  | rejected
  /-- A timeout, a 5xx, or the crash of the process. -/
  | unknown (answeredAt : Int)
  | paid
  deriving DecidableEq

/-- A payment that was broadcast. -/
structure Broadcast where
  claimant : VerifiedClaimant
  payment : P2wpkhPayment
  outcome : Outcome
  /-- Whether the claim was recorded. -/
  recorded : Bool

structure StatusCall where
  startedAt : Int
  attempts : Attempts
  requestedAt : Int

structure Faucet where
  now : Int
  store : ClaimStore
  coins : Coins
  /-- When a balance was asked for, and the balance. -/
  balanceCache : Option (Int × Nat)
  /-- The claims whose account is being verified. -/
  verifying : List (Claimant × Text)
  /-- The claims that wait for the lock. -/
  queue : List Claim
  /-- The claim that holds the lock. -/
  sending : Option Sending
  statuses : List StatusCall
  /-- The payments whose broadcast is over, the latest first. -/
  sent : List Broadcast
  /-- The transactions the network has accepted, and when. -/
  accepted : List (Text × Int)

/-- The verified account and wallet of a token. -/
structure Login where
  stellarAddress : Text
  userKey : Text

inductive FaucetLabel where
  | clock (t : Int)
  /-- A claim whose request, nonce, key and signature are checked. -/
  | claim (address stellarAddress ipHash : Text)
  /-- What the verifier answers one of the claims. -/
  | verified (i : Nat) (login : Option Login)
  /-- The next claim takes the lock, with whether the store can be read. -/
  | enter (reads : Bool)
  | listed (answer : Except EsploraFailure (List AddressUtxo))
  /-- The estimate for the target, if there is a finite one. -/
  | estimated (answer : Except EsploraFailure (Option Rat))
  /-- The answer to a broadcast, and whether the store can be written. -/
  | answered (answer : Except EsploraFailure Text) (writes : Bool)
  | status
  | statusListed (i : Nat) (answer : Except EsploraFailure (List AddressUtxo))
  | accept (txid : Text)
  | restart

/-- After an attempt: another attempt, or what the request returns or throws. -/
def EsploraClientOptions.resolve {α : Type} (options : EsploraClientOptions) (attempts : Attempts) :
    Except EsploraFailure α → Attempts ⊕ Except EsploraFailure α
  | .ok a => .inr (.ok a)
  | .error e =>
    match options.next attempts e with
    | .ok attempts => .inl attempts
    | .error e => .inr (.error e)

namespace Faucet

/-- When the listing was asked for that a send awaits. -/
def requestedAt (s : Faucet) : Option Int :=
  match s.sending with
  | some { stage := .listing _ t, .. } => some t
  | _ => none

/-- The payment that is being broadcast. -/
def pending (s : Faucet) : Option Broadcast :=
  match s.sending with
  | some { claim, stage := .broadcasting payment _ } =>
    some { claimant := claim.claimant, payment, outcome := .pending, recorded := false }
  | _ => none

/-- Whose claim holds the lock. -/
def holder (s : Faucet) : Option VerifiedClaimant := s.sending.map fun sending => sending.claim.claimant

/-- Every payment that was broadcast, the latest first. -/
def broadcasts (s : Faucet) : List Broadcast := s.pending.toList ++ s.sent

/-- The network has accepted a transaction. -/
def Accepted (s : Faucet) (txid : Text) : Prop := txid ∈ s.accepted.map Prod.fst

instance (s : Faucet) (txid : Text) : Decidable (s.Accepted txid) :=
  inferInstanceAs (Decidable (_ ∈ _))

section Steps

variable (deps : FaucetDeps) (s : Faucet)

def claim (address stellarAddress ipHash : Text) : Faucet :=
  let claimant := { address, stellarAddress, userKey := none }
  if address = deps.address then
    s
  else
    match checkLimits deps.settings s.store s.now claimant ipHash with
    | .error _ => s
    | .ok _ => { s with verifying := s.verifying ++ [(claimant, ipHash)] }

def verified (i : Nat) (login : Option Login) : Option Faucet := do
  let (claimant, ipHash) ← s.verifying[i]?
  let s := { s with verifying := s.verifying.eraseIdx i }
  match login with
  | none => some s
  | some login =>
    let claimant : VerifiedClaimant :=
      { address := claimant.address, stellarAddress := login.stellarAddress, userKey := login.userKey }
    match checkLimits deps.settings s.store s.now claimant.claimant ipHash with
    | .error _ => some s
    | .ok _ => some { s with queue := s.queue ++ [{ claimant, ipHash }] }

/-- The limits once more inside the lock, and `spendable` up to its request. -/
def enter (reads : Bool) : Option Faucet :=
  match s.sending, s.queue with
  | none, claim :: queue =>
    match checkLimits deps.settings s.store s.now claim.claimant.claimant claim.ipHash, reads with
    | .ok _, true =>
      some { s with
        queue
        coins := s.coins.prune s.now
        sending := some { claim, stage := .listing deps.esplora.start s.now } }
    | _, _ => some { s with queue }
  | _, _ => none

def listed (answer : Except EsploraFailure (List AddressUtxo)) : Option Faucet :=
  match s.sending with
  | some { claim, stage := .listing attempts _ } =>
    match deps.esplora.resolve attempts answer with
    | .inl attempts => some { s with sending := some { claim, stage := .listing attempts s.now } }
    | .inr (.error _) => some { s with sending := none }
    | .inr (.ok listing) =>
      some { s with
        coins := s.coins.listed listing
        sending := some { claim, stage := .estimating (s.coins.spendable listing) deps.esplora.start } }
  | _ => none

/-- The fee estimate, the payment, and its first broadcast. -/
def estimated (answer : Except EsploraFailure (Option Rat)) : Option Faucet :=
  match s.sending with
  | some { claim, stage := .estimating utxos attempts } =>
    match deps.esplora.resolve attempts answer with
    | .inl attempts => some { s with sending := some { claim, stage := .estimating utxos attempts } }
    | .inr result =>
      match buildP2wpkhPayment deps.payer utxos claim.claimant.address deps.settings.amountSat
          (feeRate deps.settings (result.toOption.bind id)) with
      | .error _ => some { s with sending := none }
      | .ok payment =>
        some { s with sending := some { claim, stage := .broadcasting payment deps.esplora.start } }
  | _ => none

/-- The claim of a payment, as it is recorded. -/
def claimRecord (claim : Claim) (payment : P2wpkhPayment) : ClaimRecord where
  address := claim.claimant.address
  ipHash := claim.ipHash
  userKey := claim.claimant.userKey
  stellarAddress := claim.claimant.stellarAddress
  txid := payment.txid
  amountSat := deps.settings.amountSat
  createdAt := s.now

/-- The broadcast is over. -/
def ended (claim : Claim) (payment : P2wpkhPayment) (outcome : Outcome) (recorded : Bool) : Faucet :=
  { s with
    sending := none
    sent := { claimant := claim.claimant, payment, outcome, recorded } :: s.sent }

def answered (answer : Except EsploraFailure Text) (writes : Bool) : Option Faucet :=
  match s.sending with
  | some { claim, stage := .broadcasting payment attempts } =>
    match deps.esplora.resolve attempts answer with
    | .inl attempts => some { s with sending := some { claim, stage := .broadcasting payment attempts } }
    | .inr (.error e) =>
      if isRejection e then
        some (s.ended claim payment .rejected false)
      else
        some { s.ended claim payment (.unknown s.now) false with
          coins := s.coins.reserve payment.inputs s.now }
    | .inr (.ok _) =>
      let s := { s with
        coins := (s.coins.reserve payment.inputs s.now).addChange payment s.now
        balanceCache := none }
      match s.store.record (s.claimRecord deps claim payment), writes with
      | .ok store, true => some { s.ended claim payment .paid true with store }
      | _, _ => some (s.ended claim payment .paid false)
  | _ => none

def status : Faucet :=
  if s.balanceCache.any fun cache => decide (s.now - cache.1 < BALANCE_CACHE_MS) then
    s
  else
    { s with
      coins := s.coins.prune s.now
      statuses := s.statuses ++
        [{ startedAt := s.now, attempts := deps.esplora.start, requestedAt := s.now }] }

def statusListed (i : Nat) (answer : Except EsploraFailure (List AddressUtxo)) : Option Faucet := do
  let call ← s.statuses[i]?
  match deps.esplora.resolve call.attempts answer with
  | .inl attempts => some { s with statuses := s.statuses.set i { call with attempts, requestedAt := s.now } }
  | .inr (.error _) => some { s with statuses := s.statuses.eraseIdx i }
  | .inr (.ok listing) =>
    some { s with
      statuses := s.statuses.eraseIdx i
      coins := s.coins.listed listing
      balanceCache := some (call.startedAt, ((s.coins.spendable listing).map P2wpkhUtxo.value).sum) }

/-- The network accepts a transaction it was sent. -/
def accept (txid : Text) : Option Faucet :=
  if (s.broadcasts.any fun b => b.payment.txid = txid) ∧ ¬s.Accepted txid then
    some { s with accepted := (txid, s.now) :: s.accepted }
  else
    none

/-- The process starts again over its database. -/
def restart : Faucet :=
  { s with
    coins := { reserved := [], pendingChange := [] }
    balanceCache := none
    verifying := []
    queue := []
    sending := none
    statuses := []
    sent := (s.pending.map fun b => { b with outcome := .unknown s.now }).toList ++ s.sent }

end Steps

end Faucet

/-- The runs of the faucet over one database, of which some claims are recorded before. -/
def faucet (deps : FaucetDeps) : Runs.System Faucet FaucetLabel where
  init s :=
    s.coins = { reserved := [], pendingChange := [] } ∧ s.balanceCache = none ∧ s.verifying = [] ∧
      s.queue = [] ∧ s.sending = none ∧ s.statuses = [] ∧ s.sent = [] ∧ s.accepted = []
  step s
    | .clock t => some { s with now := t }
    | .claim address stellarAddress ipHash => some (s.claim deps address stellarAddress ipHash)
    | .verified i login => s.verified deps i login
    | .enter reads => s.enter deps reads
    | .listed answer => s.listed deps answer
    | .estimated answer => s.estimated deps answer
    | .answered answer writes => s.answered deps answer writes
    | .status => some (s.status deps)
    | .statusListed i answer => s.statusListed deps i answer
    | .accept txid => s.accept txid
    | .restart => some s.restart

/-! ## One payment ever -/

/-- The network has at most one payment to an account, to a Stellar address and to a Signet address. -/
def Faucet.PaidOnce (s : Faucet) : Prop :=
  ∀ b ∈ s.broadcasts, ∀ b' ∈ s.broadcasts, s.Accepted b.payment.txid → s.Accepted b'.payment.txid →
    b.claimant.Shares b'.claimant → b.payment.txid = b'.payment.txid

instance (s : Faucet) : Decidable s.PaidOnce := inferInstanceAs (Decidable (∀ _, _))

/-- When a payment is built, each payment to the same account or address that the network has is recorded,
and no payment gets to the network after a later one to the same account or address was broadcast. -/
def Faucet.RecordsAll (s : Faucet) : FaucetLabel → Prop
  | .estimated _ => ∀ c ∈ s.holder, ∀ b ∈ s.sent, b.claimant.Shares c → s.Accepted b.payment.txid →
    b.recorded = true
  | .accept txid => s.broadcasts.Pairwise fun later b => b.payment.txid = txid →
    b.claimant.Shares later.claimant → later.payment.txid = txid
  | _ => True

instance (s : Faucet) (a : FaucetLabel) : Decidable (s.RecordsAll a) :=
  match a with
  | .estimated _ =>
    inferInstanceAs (Decidable (∀ c ∈ s.holder, ∀ b ∈ s.sent, b.claimant.Shares c →
      s.Accepted b.payment.txid → b.recorded = true))
  | .accept txid =>
    inferInstanceAs (Decidable (s.broadcasts.Pairwise fun later b => b.payment.txid = txid →
      b.claimant.Shares later.claimant → later.payment.txid = txid))
  | .clock _ | .claim .. | .verified .. | .enter _ | .listed _ | .answered .. | .status
  | .statusListed .. | .restart => inferInstanceAs (Decidable True)

/-! ## No self double-spend -/

/-- The keys of the outpoints a payment spends. -/
def outpoints (payment : P2wpkhPayment) : List Text := payment.inputs.map outpoint

/-- The network may still accept a transaction whose broadcast ended like this. -/
def Outcome.Open (t : Int) : Outcome → Prop
  | .pending => True
  | .unknown answeredAt => t ≤ answeredAt + RESERVATION_TTL_MS
  | .rejected | .paid => False

instance (t : Int) (outcome : Outcome) : Decidable (outcome.Open t) :=
  match outcome with
  | .pending => inferInstanceAs (Decidable True)
  | .unknown answeredAt => inferInstanceAs (Decidable (t ≤ answeredAt + RESERVATION_TTL_MS))
  | .rejected | .paid => inferInstanceAs (Decidable False)

namespace Faucet

/-- A transaction that is not accepted may still be: one of its broadcasts is not answered, or of unknown
outcome since at most `RESERVATION_TTL_MS`. -/
def MayAccept (s : Faucet) (txid : Text) : Prop :=
  ∃ b ∈ s.broadcasts, b.payment.txid = txid ∧ b.outcome.Open s.now

/-- The network has the transaction, or may get it. -/
def Live (s : Faucet) (txid : Text) : Prop := s.Accepted txid ∨ s.MayAccept txid

/-- An outpoint that a live transaction of the faucet spends. -/
def Spent (s : Faucet) (key : Text) : Prop :=
  ∃ b ∈ s.broadcasts, s.Live b.payment.txid ∧ key ∈ outpoints b.payment

instance (s : Faucet) (txid : Text) : Decidable (s.MayAccept txid) :=
  inferInstanceAs (Decidable (∃ _, _ ∧ _))

instance (s : Faucet) (txid : Text) : Decidable (s.Live txid) := inferInstanceAs (Decidable (_ ∨ _))

instance (s : Faucet) (key : Text) : Decidable (s.Spent key) :=
  inferInstanceAs (Decidable (∃ _, _ ∧ _))

/-- No two transactions the network has spend one outpoint, and no transaction lists one twice. -/
structure NoDoubleSpend (s : Faucet) : Prop where
  between : ∀ b ∈ s.broadcasts, ∀ b' ∈ s.broadcasts, s.Accepted b.payment.txid →
    s.Accepted b'.payment.txid → b.payment.txid ≠ b'.payment.txid →
      (outpoints b.payment).Disjoint (outpoints b'.payment)
  within : ∀ b ∈ s.broadcasts, (outpoints b.payment).Nodup

end Faucet

/-- A UTXO listing: distinct outpoints, none that a transaction spends which was accepted more than
`RESERVATION_TTL_MS` before the request, and outputs of own transactions only once they are accepted. -/
structure Faucet.Lists (P : Payer) (s : Faucet) (requestedAt : Int) (listing : List AddressUtxo) : Prop where
  distinct : (listing.map fun u => outpoint u.utxo).Nodup
  reflects : ∀ e ∈ s.accepted, e.2 + RESERVATION_TTL_MS < requestedAt →
    ∀ b ∈ s.broadcasts, b.payment.txid = e.1 → ∀ u ∈ listing, outpoint u.utxo ∉ outpoints b.payment
  accepted : ∀ u ∈ listing, P.Signs u.txid → s.Accepted u.txid

/-- One process, a clock that does not go back, and answers that are so: a listing is of the network, a
broadcast that succeeds was accepted, one that is rejected was not, and one of unknown outcome is accepted
within `RESERVATION_TTL_MS` or never. -/
def Faucet.Trusts (P : Payer) (s : Faucet) : FaucetLabel → Prop
  | .clock t => s.now ≤ t
  | .listed (.ok listing) => ∀ t ∈ s.requestedAt, s.Lists P t listing
  | .statusListed i (.ok listing) => ∀ call ∈ s.statuses[i]?, s.Lists P call.requestedAt listing
  | .answered (.ok _) _ => ∀ b ∈ s.pending, s.Accepted b.payment.txid
  | .answered (.error e) _ => isRejection e = true → ∀ b ∈ s.pending, ¬s.Accepted b.payment.txid
  | .accept txid => s.MayAccept txid
  | .restart => False
  | _ => True

/-- Each outpoint that a send finds listed is reserved if a live transaction spends it. -/
def Faucet.Covers (s : Faucet) : FaucetLabel → Prop
  | .listed (.ok listing) => ∀ u ∈ listing, s.Spent (outpoint u.utxo) → s.coins.isReserved u.utxo = true
  | _ => True

end Writz.Relayer

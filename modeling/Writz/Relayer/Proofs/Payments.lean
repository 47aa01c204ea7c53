import Writz.Relayer.Faucet.Deployment

/-!
# Proofs: the faucet pays once

While a claim holds the lock no record shares an account or an address with it. What this leaves open
are the payments without a record.
-/

namespace Writz.Relayer

open Node
open BitcoinScript (P2wpkhUtxo P2wpkhPayment buildP2wpkhPayment)

namespace Faucet

variable {deps : FaucetDeps} {s s' : Faucet} {a : FaucetLabel}

/-! ## What a step does -/

/-- The coins a send has chosen from. -/
def held (s : Faucet) : List P2wpkhUtxo :=
  match s.sending with
  | some { stage := .estimating utxos _, .. } => utxos
  | _ => []

/-- The claim that holds the lock. -/
def claiming (s : Faucet) : Option Claim := s.sending.map Sending.claim

theorem holder_eq (s : Faucet) : s.holder = s.claiming.map Claim.claimant := by
  rw [holder, claiming, Option.map_map]
  rfl

/-- What a step can change of the payments and of the coins. -/
inductive Moves (deps : FaucetDeps) (s : Faucet) : FaucetLabel → Faucet → Prop where
  /-- The send is where it was; change may have stopped pending. -/
  | idle {a : FaucetLabel} {s' : Faucet} (store : s'.store = s.store) (claiming : s'.claiming = s.claiming)
      (held : s'.held = s.held) (pending : s'.pending = s.pending) (sent : s'.sent = s.sent)
      (accepted : s'.accepted = s.accepted)
      (change : s'.coins.pendingChange.Sublist s.coins.pendingChange)
      (now : s'.now = s.now ∨ a = .clock s'.now) : Moves deps s a s'
  | locks {reads : Bool} {claim : Claim} {queue : List Claim} (free : s.sending = none)
      (allowed : checkLimits deps.settings s.store s.now claim.claimant.claimant claim.ipHash = .ok ()) :
      Moves deps s (.enter reads)
        { s with
          queue
          coins := s.coins.prune s.now
          sending := some { claim, stage := .listing deps.esplora.start s.now } }
  | fails {a : FaucetLabel} (unsent : s.pending = none) : Moves deps s a { s with sending := none }
  | lists {claim : Claim} {attempts : Attempts} {t : Int} {listing : List AddressUtxo}
      (waits : s.sending = some { claim, stage := .listing attempts t }) :
      Moves deps s (.listed (.ok listing))
        { s with
          coins := s.coins.listed listing
          sending := some { claim, stage := .estimating (s.coins.spendable listing) deps.esplora.start } }
  | sends {answer : Except EsploraFailure (Option Rat)} {claim : Claim} {utxos : List P2wpkhUtxo}
      {attempts : Attempts} {rate : Rat} {payment : P2wpkhPayment}
      (waits : s.sending = some { claim, stage := .estimating utxos attempts })
      (built : buildP2wpkhPayment deps.payer utxos claim.claimant.address deps.settings.amountSat rate
        = .ok payment) :
      Moves deps s (.estimated answer)
        { s with sending := some { claim, stage := .broadcasting payment deps.esplora.start } }
  | rejected {e : EsploraFailure} {writes : Bool} {claim : Claim} {payment : P2wpkhPayment}
      {attempts : Attempts} (waits : s.sending = some { claim, stage := .broadcasting payment attempts })
      (rejection : isRejection e = true) :
      Moves deps s (.answered (.error e) writes) (s.ended claim payment .rejected false)
  | unknown {e : EsploraFailure} {writes : Bool} {claim : Claim} {payment : P2wpkhPayment}
      {attempts : Attempts} (waits : s.sending = some { claim, stage := .broadcasting payment attempts }) :
      Moves deps s (.answered (.error e) writes)
        { s.ended claim payment (.unknown s.now) false with
          coins := s.coins.reserve payment.inputs s.now }
  | paid {txid : Text} {writes : Bool} {claim : Claim} {payment : P2wpkhPayment} {attempts : Attempts}
      {recorded : Bool} {store : ClaimStore}
      (waits : s.sending = some { claim, stage := .broadcasting payment attempts })
      (stored : recorded = true ∧ s.store.record (s.claimRecord deps claim payment) = .ok store ∨
        recorded = false ∧ store = s.store) :
      Moves deps s (.answered (.ok txid) writes)
        { s.ended claim payment .paid recorded with
          store
          coins := (s.coins.reserve payment.inputs s.now).addChange payment s.now
          balanceCache := none }
  | accepts {txid : Text} (sent : ∃ b ∈ s.broadcasts, b.payment.txid = txid)
      (new : ¬s.Accepted txid) :
      Moves deps s (.accept txid) { s with accepted := (txid, s.now) :: s.accepted }
  | restarts : Moves deps s .restart s.restart

/-- What a failed request throws is the failure of its last attempt. -/
theorem resolve_eq_error {α : Type} {options : EsploraClientOptions} {attempts : Attempts}
    {answer : Except EsploraFailure α} {e : EsploraFailure}
    (h : options.resolve attempts answer = .inr (.error e)) : answer = .error e := by
  cases answer with
  | ok x => cases h
  | error e' =>
    simp only [EsploraClientOptions.resolve] at h
    split at h
    · cases h
    · rename_i hnext
      cases h
      unfold EsploraClientOptions.next at hnext
      split_ifs at hnext
      cases hnext
      rfl

theorem resolve_eq_ok {α : Type} {options : EsploraClientOptions} {attempts : Attempts}
    {answer : Except EsploraFailure α} {x : α} (h : options.resolve attempts answer = .inr (.ok x)) :
    answer = .ok x := by
  cases answer with
  | ok y =>
    cases h
    rfl
  | error e =>
    simp only [EsploraClientOptions.resolve] at h
    split at h <;> cases h

end Faucet

theorem Coins.prune_sublist (coins : Coins) (t : Int) :
    (coins.prune t).pendingChange.Sublist coins.pendingChange := List.filter_sublist

theorem Coins.listed_sublist (coins : Coins) (listing : List AddressUtxo) :
    (coins.listed listing).pendingChange.Sublist coins.pendingChange := List.filter_sublist

namespace Faucet

variable {deps : FaucetDeps} {s s' : Faucet} {a : FaucetLabel}

theorem enter_moves {reads : Bool} (h : s.enter deps reads = some s') :
    Moves deps s (.enter reads) s' := by
  unfold enter at h
  split at h
  · rename_i claim queue hfree hqueue
    split at h
    · rename_i hallowed
      cases h
      exact .locks hfree hallowed
    · cases h
      exact .idle rfl rfl rfl rfl rfl rfl (List.Sublist.refl _) (.inl rfl)
  · cases h

theorem verified_moves {i : Nat} {login : Option Login} (h : s.verified deps i login = some s') :
    Moves deps s (.verified i login) s' := by
  unfold verified at h
  obtain ⟨⟨claimant, ipHash⟩, -, h⟩ := Option.bind_eq_some_iff.mp h
  dsimp only at h
  cases login with
  | none =>
    cases h
    exact .idle rfl rfl rfl rfl rfl rfl (List.Sublist.refl _) (.inl rfl)
  | some login =>
    dsimp only at h
    split at h <;> cases h <;> exact .idle rfl rfl rfl rfl rfl rfl (List.Sublist.refl _) (.inl rfl)

theorem claim_moves (address stellarAddress ipHash : Text) :
    Moves deps s (.claim address stellarAddress ipHash) (s.claim deps address stellarAddress ipHash) := by
  unfold claim
  dsimp only
  split_ifs
  · exact .idle rfl rfl rfl rfl rfl rfl (List.Sublist.refl _) (.inl rfl)
  · split <;> exact .idle rfl rfl rfl rfl rfl rfl (List.Sublist.refl _) (.inl rfl)

theorem listed_moves {answer : Except EsploraFailure (List AddressUtxo)}
    (h : s.listed deps answer = some s') : Moves deps s (.listed answer) s' := by
  unfold listed at h
  split at h
  · rename_i claim attempts t hwaits
    have hpending : s.pending = none := by rw [pending, hwaits]
    split at h
    · cases h
      refine .idle rfl ?_ ?_ ?_ rfl rfl (List.Sublist.refl _) (.inl rfl)
      · rw [claiming, claiming, hwaits]
        rfl
      · rw [held, held, hwaits]
      · rw [hpending]
        rfl
    · cases h
      exact .fails hpending
    · rename_i listing hresolve
      cases h
      rw [resolve_eq_ok hresolve]
      exact .lists hwaits
  · cases h

theorem estimated_moves {answer : Except EsploraFailure (Option Rat)}
    (h : s.estimated deps answer = some s') : Moves deps s (.estimated answer) s' := by
  unfold estimated at h
  split at h
  · rename_i claim utxos attempts hwaits
    have hpending : s.pending = none := by rw [pending, hwaits]
    split at h
    · cases h
      refine .idle rfl ?_ ?_ ?_ rfl rfl (List.Sublist.refl _) (.inl rfl)
      · rw [claiming, claiming, hwaits]
        rfl
      · rw [held, held, hwaits]
      · rw [hpending]
        rfl
    · split at h
      · cases h
        exact .fails hpending
      · rename_i payment hbuilt
        cases h
        exact .sends hwaits hbuilt
  · cases h

theorem answered_moves {answer : Except EsploraFailure Text} {writes : Bool}
    (h : s.answered deps answer writes = some s') : Moves deps s (.answered answer writes) s' := by
  unfold answered at h
  split at h
  · rename_i claim payment attempts hwaits
    split at h
    · cases h
      refine .idle rfl ?_ ?_ ?_ rfl rfl (List.Sublist.refl _) (.inl rfl)
      · rw [claiming, claiming, hwaits]
        rfl
      · rw [held, held, hwaits]
      · rw [pending, pending, hwaits]
    · rename_i e hresolve
      rw [resolve_eq_error hresolve]
      split_ifs at h with hrejection
      · cases h
        exact .rejected hwaits hrejection
      · cases h
        exact .unknown hwaits
    · rename_i txid hresolve
      rw [resolve_eq_ok hresolve]
      dsimp only at h
      split at h
      · rename_i store hrecord
        cases h
        exact .paid hwaits (.inl ⟨rfl, hrecord⟩)
      · cases h
        exact .paid hwaits (.inr ⟨rfl, rfl⟩)
  · cases h

theorem status_moves : Moves deps s .status (s.status deps) := by
  unfold status
  split_ifs
  · exact .idle rfl rfl rfl rfl rfl rfl (List.Sublist.refl _) (.inl rfl)
  · exact .idle rfl rfl rfl rfl rfl rfl (s.coins.prune_sublist _) (.inl rfl)

theorem statusListed_moves {i : Nat} {answer : Except EsploraFailure (List AddressUtxo)}
    (h : s.statusListed deps i answer = some s') : Moves deps s (.statusListed i answer) s' := by
  unfold statusListed at h
  obtain ⟨call, -, h⟩ := Option.bind_eq_some_iff.mp h
  split at h
  · cases h
    exact .idle rfl rfl rfl rfl rfl rfl (List.Sublist.refl _) (.inl rfl)
  · cases h
    exact .idle rfl rfl rfl rfl rfl rfl (List.Sublist.refl _) (.inl rfl)
  · cases h
    exact .idle rfl rfl rfl rfl rfl rfl (s.coins.listed_sublist _) (.inl rfl)

theorem accept_moves {txid : Text} (h : s.accept txid = some s') : Moves deps s (.accept txid) s' := by
  unfold accept at h
  split_ifs at h with hsent
  cases h
  obtain ⟨b, hb, htxid⟩ := List.any_eq_true.mp hsent.1
  exact .accepts ⟨b, hb, of_decide_eq_true htxid⟩ hsent.2

theorem step_moves (h : (faucet deps).step s a = some s') : Moves deps s a s' := by
  cases a with
  | clock t =>
    cases h
    exact .idle rfl rfl rfl rfl rfl rfl (List.Sublist.refl _) (.inr rfl)
  | claim address stellarAddress ipHash =>
    cases h
    exact claim_moves address stellarAddress ipHash
  | verified i login => exact verified_moves h
  | enter reads => exact enter_moves h
  | listed answer => exact listed_moves h
  | estimated answer => exact estimated_moves h
  | answered answer writes => exact answered_moves h
  | status =>
    cases h
    exact status_moves
  | statusListed i answer => exact statusListed_moves h
  | accept txid => exact accept_moves h
  | restart =>
    cases h
    exact .restarts

/-! ## The limit -/

end Faucet

theorem VerifiedClaimant.Shares.symm {c c' : VerifiedClaimant} (h : c.Shares c') : c'.Shares c := by
  rcases h with h | h | h
  · exact .inl h.symm
  · exact .inr (.inl h.symm)
  · exact .inr (.inr h.symm)

/-- A record of the claimant's account, Stellar address and Signet address. -/
def ClaimStore.Has (store : ClaimStore) (c : VerifiedClaimant) : Prop :=
  ∃ claim ∈ store, claim.userKey = c.userKey ∧ claim.stellarAddress = c.stellarAddress ∧
    claim.address = c.address

/-- No claim that passes the limits shares an account or an address with a recorded one. -/
theorem not_shares_of_checkLimits {settings : FaucetSettings} {store : ClaimStore} {t : Int}
    {c c' : VerifiedClaimant} {ipHash : Text} (h : checkLimits settings store t c.claimant ipHash = .ok ())
    (hrecord : store.Has c') : ¬c'.Shares c := by
  obtain ⟨claim, hclaim, huser, hstellar, haddress⟩ := hrecord
  simp only [checkLimits, bind_eq_ok, failIf_eq_ok] at h
  obtain ⟨_, hnouser, _, hnostellar, _, hnoaddress, -⟩ := h
  rintro (hshared | hshared | hshared)
  · refine hnouser (List.any_eq_true.mpr ⟨claim, hclaim, ?_⟩)
    rw [huser, hshared]
    exact decide_eq_true rfl
  · refine hnostellar (List.any_eq_true.mpr ⟨claim, hclaim, ?_⟩)
    rw [hstellar, hshared]
    exact decide_eq_true rfl
  · refine hnoaddress (List.any_eq_true.mpr ⟨claim, hclaim, ?_⟩)
    rw [haddress, hshared]
    exact decide_eq_true rfl

theorem ClaimStore.record_eq_ok {store store' : ClaimStore} {claim : ClaimRecord}
    (h : store.record claim = .ok store') : store' = store ++ [claim] := by
  unfold ClaimStore.record at h
  split_ifs at h
  cases h
  rfl

namespace Faucet

variable {deps : FaucetDeps} {s s' : Faucet} {a : FaucetLabel}

/-- The payments, of which an answer to a broadcast changes nothing. -/
def payments (s : Faucet) : List (VerifiedClaimant × Text) :=
  s.broadcasts.map fun b => (b.claimant, b.payment.txid)

/-- The claim with the lock shares nothing with a record, and no payment that a later one follows is on the
network. -/
structure Limited (s : Faucet) : Prop where
  recorded : ∀ b ∈ s.sent, b.recorded = true → s.store.Has b.claimant
  allowed : ∀ c ∈ s.holder, ∀ c', s.store.Has c' → ¬c'.Shares c
  later : s.payments.Pairwise fun later p => p.1.Shares later.1 → later.2 ≠ p.2 → ¬s.Accepted p.2

theorem payments_eq (hpending : s'.pending = s.pending) (hsent : s'.sent = s.sent) :
    s'.payments = s.payments := by
  rw [payments, payments, broadcasts, broadcasts, hpending, hsent]

theorem pending_of_broadcasting {claim : Claim} {payment : P2wpkhPayment} {attempts : Attempts}
    (h : s.sending = some { claim, stage := .broadcasting payment attempts }) :
    s.pending = some { claimant := claim.claimant, payment, outcome := .pending, recorded := false } := by
  rw [pending, h]

theorem payments_over {claim : Claim} {payment : P2wpkhPayment} {attempts : Attempts}
    (h : s.sending = some { claim, stage := .broadcasting payment attempts }) (outcome : Outcome)
    (recorded : Bool) : (s.ended claim payment outcome recorded).payments = s.payments := by
  rw [payments, payments, broadcasts, broadcasts, pending_of_broadcasting h]
  rfl

theorem payments_restart (s : Faucet) : s.restart.payments = s.payments := by
  rw [payments, payments, broadcasts, broadcasts]
  show List.map _ ([] ++ ((s.pending.map _).toList ++ s.sent)) = _
  cases s.pending <;> rfl

/-- What neither broadcasts nor reaches the network keeps the limit, where what it records is so. -/
theorem Limited.keeps (hs : s.Limited) (hpayments : s'.payments = s.payments)
    (haccepted : s'.accepted = s.accepted)
    (hrecorded : ∀ b ∈ s'.sent, b.recorded = true → s'.store.Has b.claimant)
    (hallowed : ∀ c ∈ s'.holder, ∀ c', s'.store.Has c' → ¬c'.Shares c) : s'.Limited := by
  refine ⟨hrecorded, hallowed, ?_⟩
  have hsame : ∀ txid, s'.Accepted txid ↔ s.Accepted txid := fun txid => by
    rw [Accepted, Accepted, haccepted]
  rw [hpayments]
  refine hs.later.imp fun hlater hshares hne hacc => ?_
  exact hlater hshares hne ((hsame _).mp hacc)

theorem Limited.ended (hs : s.Limited) (claim : Claim) (payment : P2wpkhPayment) (outcome : Outcome) :
    ∀ b ∈ (s.ended claim payment outcome false).sent, b.recorded = true → s.store.Has b.claimant := by
  intro b hb hrecorded
  rcases List.mem_cons.mp hb with rfl | hb
  · cases hrecorded
  · exact hs.recorded b hb hrecorded

theorem Limited.step (hs : s.Limited) (ha : s.RecordsAll a) (h : Moves deps s a s') : s'.Limited := by
  cases h with
  | idle store claiming held pending sent accepted change now =>
    refine hs.keeps (payments_eq pending sent) accepted ?_ ?_
    · rw [sent, store]
      exact hs.recorded
    · rw [holder_eq, claiming, ← holder_eq, store]
      exact hs.allowed
  | locks free allowed =>
    have hpending : s.pending = none := by rw [pending, free]
    refine hs.keeps (payments_eq hpending.symm rfl) rfl hs.recorded ?_
    intro c hc c' hc'
    obtain rfl := Option.some.inj hc
    exact not_shares_of_checkLimits allowed hc'
  | fails unsent =>
    refine hs.keeps (payments_eq unsent.symm rfl) rfl hs.recorded ?_
    intro c hc
    cases hc
  | lists waits =>
    have hpending : s.pending = none := by rw [pending, waits]
    refine hs.keeps (payments_eq hpending.symm rfl) rfl hs.recorded ?_
    intro c hc
    refine hs.allowed c ?_
    rw [holder, waits]
    exact hc
  | @sends _ claim utxos _ _ payment waits built =>
    have hholder : s.holder = some claim.claimant := by rw [holder, waits]; rfl
    have hpending : s.pending = none := by rw [pending, waits]
    refine ⟨hs.recorded, fun c hc => hs.allowed c (hholder.trans hc), ?_⟩
    refine List.pairwise_cons.mpr ⟨fun p hp hshares hne hacc => ?_, ?_⟩
    · obtain ⟨b, hb, rfl⟩ := List.mem_map.mp hp
      have hrecorded := ha claim.claimant hholder b hb hshares hacc
      exact hs.allowed _ hholder _ (hs.recorded b hb hrecorded) hshares
    · have hlater := hs.later
      rw [payments, broadcasts, hpending] at hlater
      exact hlater
  | rejected waits rejection =>
    refine hs.keeps (payments_over waits ..) rfl (hs.ended _ _ _) ?_
    intro c hc
    cases hc
  | unknown waits =>
    refine hs.keeps (payments_over waits ..) rfl (hs.ended _ _ _) ?_
    intro c hc
    cases hc
  | @paid _ _ claim payment _ recorded store waits stored =>
    refine hs.keeps (payments_over waits ..) rfl ?_ ?_
    · rcases stored with ⟨-, hrecord⟩ | ⟨rfl, rfl⟩
      · obtain rfl := ClaimStore.record_eq_ok hrecord
        intro b hb hrecorded
        rcases List.mem_cons.mp hb with rfl | hb
        · exact ⟨_, List.mem_append_right _ (List.mem_singleton_self _), rfl, rfl, rfl⟩
        · obtain ⟨claim', hclaim', hkeys⟩ := hs.recorded b hb hrecorded
          exact ⟨claim', List.mem_append_left _ hclaim', hkeys⟩
      · exact hs.ended _ _ _
    · intro c hc
      cases hc
  | @accepts txid sent new =>
    refine ⟨hs.recorded, hs.allowed, ?_⟩
    have hreaches : s.payments.Pairwise fun later p => p.2 = txid → p.1.Shares later.1 → later.2 = txid :=
      List.pairwise_map.mpr ha
    refine (hs.later.and hreaches).imp fun ⟨hlater, hreaches⟩ hshares hne hacc => ?_
    rcases List.mem_cons.mp hacc with htxid | hacc
    · exact hne ((hreaches htxid hshares).trans htxid.symm)
    · exact hlater hshares hne hacc
  | restarts =>
    refine hs.keeps (payments_restart s) rfl ?_ ?_
    · intro b hb hrecorded
      rcases List.mem_append.mp hb with hb | hb
      · obtain ⟨b', hb', rfl⟩ := Option.map_eq_some_iff.mp (Option.mem_toList.mp hb)
        exfalso
        have hrecorded : b'.recorded = true := hrecorded
        unfold pending at hb'
        split at hb'
        · cases hb'
          cases hrecorded
        · cases hb'
      · exact hs.recorded b hb hrecorded
    · intro c hc
      cases hc

end Faucet

end Writz.Relayer

import Writz.Relayer.Proofs.Payments

/-!
# Proofs: the faucet's coins

Of its coins a send holds only what no live transaction spends, as long as the reservations cover what
its listing shows too much. So the transactions that are live together spend different outpoints.
-/

namespace Writz.Relayer

open Node
open BitcoinScript (P2wpkhUtxo P2wpkhPayment Payer buildP2wpkhPayment buildP2wpkhPayment_eq_ok)

/-! ## Outpoints -/

theorem colon_not_mem_toDigits (n : Nat) : ':' ∉ Nat.toDigits 10 n := by
  intro h
  have hdigit := Nat.isDigit_of_mem_toDigits (by decide) (by decide) h
  revert hdigit
  decide

/-- What stands before the last colon. -/
theorem append_colon_inj {xs ys ds es : Text} (hd : ':' ∉ ds) (he : ':' ∉ es)
    (h : xs ++ ':' :: ds = ys ++ ':' :: es) : xs = ys := by
  have hrev := congrArg List.reverse h
  simp only [List.reverse_append, List.reverse_cons, List.append_assoc, List.singleton_append] at hrev
  have htake : ∀ {ds : Text} (xs : Text), ':' ∉ ds →
      (ds.reverse ++ ':' :: xs).dropWhile (fun c => !decide (c = ':')) = ':' :: xs := by
    intro ds xs hds
    rw [List.dropWhile_append_of_pos]
    · rfl
    · intro c hc
      have hne : c ≠ ':' := fun h => hds (h ▸ List.mem_reverse.mp hc)
      rw [decide_eq_false hne]
      rfl
  have hdrop := congrArg (List.dropWhile fun c => !decide (c = ':')) hrev
  rw [htake _ hd, htake _ he] at hdrop
  exact List.reverse_injective (List.cons_injective hdrop)

/-- The outputs of two transactions have different keys. -/
theorem txid_of_outpoint {u v : P2wpkhUtxo} (h : outpoint u = outpoint v) : u.txid = v.txid :=
  append_colon_inj (colon_not_mem_toDigits u.vout) (colon_not_mem_toDigits v.vout) h

theorem outpoints_of_commits {P : Payer} (hP : P.Commits) {inputs inputs' : List P2wpkhUtxo}
    {recipient recipient' txHex txHex' txid : Text} {amountSat amountSat' : Nat} {changeSat changeSat' : Int}
    (h : P.sign inputs recipient amountSat changeSat = some (txHex, txid))
    (h' : P.sign inputs' recipient' amountSat' changeSat' = some (txHex', txid)) :
    inputs.map outpoint = inputs'.map outpoint := by
  have hsame := congrArg (List.map fun o : Text × Nat => o.1 ++ ':' :: Nat.toDigits 10 o.2)
    (hP _ _ _ _ _ _ _ _ _ _ _ h h')
  rw [List.map_map, List.map_map] at hsame
  exact hsame

/-! ## The coins of a listing -/

namespace Coins

variable {coins : Coins} {listing : List AddressUtxo}

theorem mem_spendable {u : P2wpkhUtxo} (h : u ∈ coins.spendable listing) :
    (∃ l ∈ listing, l.utxo = u ∧ coins.isReserved u = false) ∨
      ∃ c ∈ coins.pendingChange, c.toP2wpkhUtxo = u := by
  rcases List.mem_append.mp h with h | h
  · obtain ⟨l, hl, rfl⟩ := List.mem_map.mp h
    obtain ⟨hl, hreserved⟩ := List.mem_filter.mp ((List.mem_insertionSort _).mp hl)
    exact .inl ⟨l, hl, rfl, by simpa using hreserved⟩
  · obtain ⟨c, hc, rfl⟩ := List.mem_map.mp h
    exact .inr ⟨c, (coins.listed_sublist listing).subset (List.mem_filter.mp hc).1, rfl⟩

/-- Of a listing with distinct outpoints the coins are distinct. -/
theorem spendable_nodup (hlisting : (listing.map fun u => outpoint u.utxo).Nodup)
    (hchange : (coins.pendingChange.map fun c => outpoint c.toP2wpkhUtxo).Nodup) :
    ((coins.spendable listing).map outpoint).Nodup := by
  unfold spendable
  dsimp only
  rw [List.map_append, List.map_map, List.map_map]
  refine List.nodup_append.mpr ⟨?_, ?_, ?_⟩
  · have hperm := (List.perm_insertionSort (fun a b => sortsBefore a b)
      (listing.filter fun u => !coins.isReserved u.utxo)).map (outpoint ∘ AddressUtxo.utxo)
    exact hperm.nodup_iff.mpr (hlisting.sublist (List.filter_sublist.map _))
  · exact hchange.sublist ((List.filter_sublist.trans (coins.listed_sublist listing)).map _)
  · rintro key hkey _ hkey' rfl
    obtain ⟨l, hl, rfl⟩ := List.mem_map.mp hkey
    obtain ⟨c, hc, heq⟩ := List.mem_map.mp hkey'
    have hl := (List.mem_filter.mp ((List.mem_insertionSort _).mp hl)).1
    have hunlisted := (List.mem_filter.mp (List.mem_filter.mp hc).1).2
    have hlisted : (listing.map fun u => outpoint u.utxo).contains (outpoint c.toP2wpkhUtxo) = true := by
      rw [List.contains_iff_mem]
      exact List.mem_map.mpr ⟨l, hl, heq.symm⟩
    rw [hlisted] at hunlisted
    cases hunlisted

theorem mem_reserve {inputs : List P2wpkhUtxo} {t : Int} {c : PendingChange}
    (h : c ∈ (coins.reserve inputs t).pendingChange) :
    c ∈ coins.pendingChange ∧ outpoint c.toP2wpkhUtxo ∉ inputs.map outpoint := by
  obtain ⟨hc, hspent⟩ := List.mem_filter.mp h
  refine ⟨hc, fun hmem => ?_⟩
  rw [List.contains_iff_mem.mpr hmem] at hspent
  cases hspent

theorem reserve_sublist (inputs : List P2wpkhUtxo) (t : Int) :
    (coins.reserve inputs t).pendingChange.Sublist coins.pendingChange := List.filter_sublist

theorem mem_addChange {payment : P2wpkhPayment} {t : Int} {c : PendingChange}
    (h : c ∈ (coins.addChange payment t).pendingChange) :
    c ∈ coins.pendingChange ∨ c.txid = payment.txid := by
  unfold addChange at h
  split_ifs at h
  · rcases List.mem_append.mp h with h | h
    · exact .inl h
    · rw [List.mem_singleton.mp h]
      exact .inr rfl
  · exact .inl h

theorem addChange_nodup {payment : P2wpkhPayment} {t : Int}
    (h : (coins.pendingChange.map fun c => outpoint c.toP2wpkhUtxo).Nodup)
    (hne : ∀ c ∈ coins.pendingChange, c.txid ≠ payment.txid) :
    ((coins.addChange payment t).pendingChange.map fun c => outpoint c.toP2wpkhUtxo).Nodup := by
  unfold addChange
  split_ifs
  · rw [List.map_append]
    refine List.nodup_append.mpr ⟨h, List.nodup_singleton _, ?_⟩
    rintro key hkey _ hkey' rfl
    obtain ⟨c, hc, hkey⟩ := List.mem_map.mp hkey
    rw [List.map_singleton, List.mem_singleton] at hkey'
    exact hne c hc (txid_of_outpoint (hkey.trans hkey'))
  · exact h

end Coins

theorem Outcome.Open.mono {t t' : Int} {outcome : Outcome} (h : outcome.Open t') (hle : t ≤ t') :
    outcome.Open t := by
  cases outcome with
  | pending => trivial
  | unknown answeredAt => exact le_trans hle h
  | rejected => exact h
  | paid => exact h

namespace Faucet

variable {deps : FaucetDeps} {s s' : Faucet} {a : FaucetLabel}

/-! ## What is live -/

/-- The transactions, of which an answer to a broadcast changes nothing. -/
def transactions (s : Faucet) : List P2wpkhPayment := s.broadcasts.map Broadcast.payment

/-- The transactions are the same, and no others are live. -/
structure Settles (s s' : Faucet) : Prop where
  transactions : s'.transactions = s.transactions
  live : ∀ txid, s'.Live txid → s.Live txid
  accepted : ∀ txid, s.Accepted txid → s'.Accepted txid

/-- The live transactions spend different outpoints, each of them known to exist. -/
structure Separate (P : Payer) (s : Faucet) : Prop where
  signed : ∀ p ∈ s.transactions, ∃ recipient amountSat,
    P.sign p.inputs recipient amountSat p.changeSat = some (p.txHex, p.txid)
  sent : ∀ txid, s.Live txid → ∃ p ∈ s.transactions, p.txid = txid
  disjoint : ∀ p ∈ s.transactions, ∀ q ∈ s.transactions, s.Live p.txid → s.Live q.txid → p.txid ≠ q.txid →
    (outpoints p).Disjoint (outpoints q)
  nodup : ∀ p ∈ s.transactions, (outpoints p).Nodup
  sourced : ∀ p ∈ s.transactions, ∀ u ∈ p.inputs, P.Signs u.txid → s.Accepted u.txid

theorem Separate.settles {P : Payer} (hs : s.Separate P) (h : s.Settles s') : s'.Separate P := by
  refine ⟨?_, ?_, ?_, ?_, ?_⟩
  · rw [h.transactions]
    exact hs.signed
  · intro txid hlive
    rw [h.transactions]
    exact hs.sent txid (h.live txid hlive)
  · rw [h.transactions]
    intro p hp q hq hlive hlive'
    exact hs.disjoint p hp q hq (h.live _ hlive) (h.live _ hlive')
  · rw [h.transactions]
    exact hs.nodup
  · rw [h.transactions]
    intro p hp u hu hsigns
    exact h.accepted _ (hs.sourced p hp u hu hsigns)

theorem Separate.noDoubleSpend {P : Payer} (hs : s.Separate P) : s.NoDoubleSpend where
  between := fun _ hb _ hb' hacc hacc' => hs.disjoint _ (List.mem_map_of_mem hb) _ (List.mem_map_of_mem hb')
    (.inl hacc) (.inl hacc')
  within := fun _ hb => hs.nodup _ (List.mem_map_of_mem hb)

/-- Coins that no live transaction spends. -/
structure Held (P : Payer) (s : Faucet) (utxos : List P2wpkhUtxo) : Prop where
  nodup : (utxos.map outpoint).Nodup
  unspent : ∀ u ∈ utxos, ∀ p ∈ s.transactions, s.Live p.txid → outpoint u ∉ outpoints p
  sourced : ∀ u ∈ utxos, P.Signs u.txid → s.Accepted u.txid

/-- The coins of the send, the change that is not listed, and the transaction that is being broadcast. -/
structure Unspent (P : Payer) (s : Faucet) : Prop where
  held : Held P s s.held
  change_nodup : (s.coins.pendingChange.map fun c => outpoint c.toP2wpkhUtxo).Nodup
  change_accepted : ∀ c ∈ s.coins.pendingChange, s.Accepted c.txid ∧ ∀ b ∈ s.pending, c.txid ≠ b.payment.txid
  change_unspent : ∀ c ∈ s.coins.pendingChange, ∀ p ∈ s.transactions, s.Live p.txid →
    (∀ b ∈ s.pending, p.txid ≠ b.payment.txid) → outpoint c.toP2wpkhUtxo ∉ outpoints p
  pending_unspent : ∀ b ∈ s.pending, ∀ p ∈ s.transactions, ∀ u ∈ p.inputs, u.txid ≠ b.payment.txid
  pending_closed : ∀ b ∈ s.pending, ∀ b' ∈ s.sent, b'.payment.txid = b.payment.txid → ¬b'.outcome.Open s.now

theorem Held.nil {P : Payer} : Held P s [] where
  nodup := List.nodup_nil
  unspent := by rintro u ⟨⟩
  sourced := by rintro u ⟨⟩

theorem Held.settles {P : Payer} {utxos : List P2wpkhUtxo} (hs : Held P s utxos) (h : s.Settles s') :
    Held P s' utxos := by
  refine ⟨hs.nodup, ?_, fun u hu hsigns => h.accepted _ (hs.sourced u hu hsigns)⟩
  rw [h.transactions]
  exact fun u hu p hp hlive => hs.unspent u hu p hp (h.live _ hlive)

/-- What leaves the broadcasts alone keeps the coins. -/
theorem Unspent.settles {P : Payer} (hs : s.Unspent P) (h : s.Settles s') (hpending : s'.pending = s.pending)
    (hsent : s'.sent = s.sent) (hnow : s.now ≤ s'.now)
    (hchange : s'.coins.pendingChange.Sublist s.coins.pendingChange) (hheld : Held P s' s'.held) :
    s'.Unspent P := by
  refine ⟨hheld, hs.change_nodup.sublist (hchange.map _), ?_, ?_, ?_, ?_⟩
  · intro c hc
    rw [hpending]
    obtain ⟨hacc, hne⟩ := hs.change_accepted c (hchange.subset hc)
    exact ⟨h.accepted _ hacc, hne⟩
  · rw [hpending, h.transactions]
    intro c hc p hp hlive
    exact hs.change_unspent c (hchange.subset hc) p hp (h.live _ hlive)
  · rw [hpending, h.transactions]
    exact hs.pending_unspent
  · rw [hpending, hsent]
    intro b hb b' hb' htxid hopen
    exact hs.pending_closed b hb b' hb' htxid (hopen.mono hnow)

/-! ## Steps that broadcast nothing -/

/-- The clock goes on and nothing else happens to the transactions. -/
theorem settles_of (hpending : s'.pending = s.pending) (hsent : s'.sent = s.sent)
    (haccepted : s'.accepted = s.accepted) (hnow : s.now ≤ s'.now) : s.Settles s' := by
  have hbroadcasts : s'.broadcasts = s.broadcasts := by rw [broadcasts, broadcasts, hpending, hsent]
  have hacc : ∀ txid, s'.Accepted txid ↔ s.Accepted txid := fun txid => by
    rw [Accepted, Accepted, haccepted]
  refine ⟨by rw [transactions, transactions, hbroadcasts], ?_, fun txid => (hacc txid).mpr⟩
  rintro txid (hlive | ⟨b, hb, htxid, hopen⟩)
  · exact .inl ((hacc txid).mp hlive)
  · rw [hbroadcasts] at hb
    exact .inr ⟨b, hb, htxid, hopen.mono hnow⟩

/-- A broadcast that is over is live at most as long as it may be accepted. -/
theorem settles_over {claim : Claim} {payment : P2wpkhPayment} {attempts : Attempts}
    (waits : s.sending = some { claim, stage := .broadcasting payment attempts }) {outcome : Outcome}
    {recorded : Bool} (hs' : s'.broadcasts = (s.ended claim payment outcome recorded).sent)
    (haccepted : s'.accepted = s.accepted) (hnow : s'.now = s.now) : s.Settles s' := by
  have hbroadcasts : s.broadcasts =
      { claimant := claim.claimant, payment, outcome := .pending, recorded := false } :: s.sent := by
    rw [broadcasts, pending_of_broadcasting waits]
    rfl
  have hacc : ∀ txid, s'.Accepted txid ↔ s.Accepted txid := fun txid => by
    rw [Accepted, Accepted, haccepted]
  refine ⟨?_, ?_, fun txid => (hacc txid).mpr⟩
  · rw [transactions, transactions, hs', hbroadcasts]
    rfl
  · rintro txid (hlive | ⟨b, hb, htxid, hopen⟩)
    · exact .inl ((hacc txid).mp hlive)
    · rw [hs'] at hb
      rw [hnow] at hopen
      refine .inr ?_
      rw [MayAccept, hbroadcasts]
      rcases List.mem_cons.mp hb with rfl | hb
      · exact ⟨_, List.mem_cons_self, htxid, trivial⟩
      · exact ⟨b, List.mem_cons_of_mem _ hb, htxid, hopen⟩

theorem settles_accepts {txid : Text} (h : s.MayAccept txid) :
    s.Settles { s with accepted := (txid, s.now) :: s.accepted } := by
  refine ⟨rfl, ?_, fun _ => List.mem_cons_of_mem _⟩
  rintro txid' (hlive | hmay)
  · rcases List.mem_cons.mp hlive with rfl | hlive
    · exact .inr h
    · exact .inl hlive
  · exact .inr hmay

/-- What is over leaves change that is old and not spent by it, or is its own. -/
theorem Unspent.ended {P : Payer} (hP : P.Commits) (hsep : s.Separate P) (hs : s.Unspent P) {claim : Claim}
    {payment : P2wpkhPayment} {attempts : Attempts}
    (waits : s.sending = some { claim, stage := .broadcasting payment attempts }) (h : s.Settles s')
    (hsending : s'.sending = none)
    (hnodup : (s'.coins.pendingChange.map fun c => outpoint c.toP2wpkhUtxo).Nodup)
    (hchange : ∀ c ∈ s'.coins.pendingChange,
      (c ∈ s.coins.pendingChange ∧ (s'.Live payment.txid → outpoint c.toP2wpkhUtxo ∉ outpoints payment)) ∨
        (c.txid = payment.txid ∧ s.Accepted c.txid)) : s'.Unspent P := by
  have hpending : s.pending = _ := pending_of_broadcasting waits
  have hpayment : payment ∈ s.transactions := by
    rw [transactions, broadcasts, hpending]
    exact List.mem_cons_self
  have hnone : s'.pending = none := by rw [pending, hsending]
  have hheld : s'.held = [] := by rw [Faucet.held, hsending]
  refine ⟨by rw [hheld]; exact .nil, hnodup, ?_, ?_, ?_, ?_⟩
  · intro c hc
    refine ⟨?_, by rw [hnone]; rintro b ⟨⟩⟩
    rcases hchange c hc with ⟨hold, -⟩ | ⟨-, hacc⟩
    · exact h.accepted _ (hs.change_accepted c hold).1
    · exact h.accepted _ hacc
  · intro c hc p hp hlive _
    rw [h.transactions] at hp
    rcases hchange c hc with ⟨hold, hunspent⟩ | ⟨htxid, -⟩
    · by_cases hsame : p.txid = payment.txid
      · obtain ⟨_, _, hsigned⟩ := hsep.signed p hp
        obtain ⟨_, _, hsigned'⟩ := hsep.signed payment hpayment
        rw [hsame] at hlive hsigned
        have hkeys : outpoints p = outpoints payment := outpoints_of_commits hP hsigned hsigned'
        rw [hkeys]
        exact hunspent hlive
      · refine hs.change_unspent c hold p hp (h.live _ hlive) ?_
        rw [hpending]
        rintro b ⟨⟩
        exact hsame
    · intro hmem
      obtain ⟨u, hu, hkey⟩ := List.mem_map.mp hmem
      exact hs.pending_unspent _ hpending p hp u hu ((txid_of_outpoint hkey).trans htxid)
  · rw [hnone]
    rintro b ⟨⟩
  · rw [hnone]
    rintro b ⟨⟩

/-! ## A send -/

/-- The coins of a listing. -/
theorem Unspent.lists {P : Payer} (hs : s.Unspent P) {requestedAt : Int} {listing : List AddressUtxo}
    (hlists : s.Lists P requestedAt listing) (hcovers : s.Covers (.listed (.ok listing)))
    (hpending : s.pending = none) : Held P s (s.coins.spendable listing) where
  nodup := Coins.spendable_nodup hlists.distinct hs.change_nodup
  unspent := by
    intro u hu p hp hlive hmem
    rcases Coins.mem_spendable hu with ⟨l, hl, rfl, hreserved⟩ | ⟨c, hc, rfl⟩
    · obtain ⟨b, hb, rfl⟩ := List.mem_map.mp hp
      rw [hcovers l hl ⟨b, hb, hlive, hmem⟩] at hreserved
      cases hreserved
    · refine hs.change_unspent c hc p hp hlive ?_ hmem
      rw [hpending]
      rintro b ⟨⟩
  sourced := by
    intro u hu hsigns
    rcases Coins.mem_spendable hu with ⟨l, hl, rfl, -⟩ | ⟨c, hc, rfl⟩
    · exact hlists.accepted l hl hsigns
    · exact (hs.change_accepted c hc).1

section Send

variable {P : Payer} {claim : Claim} {utxos : List P2wpkhUtxo} {attempts attempts' : Attempts} {rate : Rat}
  {payment : P2wpkhPayment} {amountSat : Nat}

/-- A transaction that is built was not live before. -/
theorem not_live_of_built (hP : P.Commits) (hsep : s.Separate P) (hheld : Held P s utxos)
    (built : buildP2wpkhPayment P utxos claim.claimant.address amountSat rate = .ok payment) :
    ¬s.Live payment.txid := by
  intro hlive
  obtain ⟨hne, htaken, hsigned⟩ := buildP2wpkhPayment_eq_ok built
  obtain ⟨p, hp, htxid⟩ := hsep.sent _ hlive
  obtain ⟨_, _, hsigned'⟩ := hsep.signed p hp
  rw [htxid] at hsigned'
  have hkeys : outpoints payment = outpoints p := outpoints_of_commits hP hsigned hsigned'
  obtain ⟨u, hu⟩ := List.exists_mem_of_ne_nil _ hne
  have hmem : outpoint u ∈ outpoints payment := List.mem_map_of_mem hu
  rw [hkeys] at hmem
  exact hheld.unspent u (htaken.subset hu) p hp (htxid ▸ hlive) hmem

/-- The state in which a payment is broadcast. -/
def broadcasting (s : Faucet) (claim : Claim) (payment : P2wpkhPayment) (attempts : Attempts) : Faucet :=
  { s with sending := some { claim, stage := .broadcasting payment attempts } }

theorem transactions_broadcasting (hpending : s.pending = none) :
    (s.broadcasting claim payment attempts).transactions = payment :: s.transactions := by
  rw [transactions, transactions, broadcasts, broadcasts, hpending]
  rfl

theorem live_broadcasting (hpending : s.pending = none) {txid : Text}
    (h : (s.broadcasting claim payment attempts).Live txid) : s.Live txid ∨ payment.txid = txid := by
  rcases h with hacc | ⟨b, hb, htxid, hopen⟩
  · exact .inl (.inl hacc)
  · rcases List.mem_cons.mp hb with rfl | hb
    · exact .inr htxid
    · refine .inl (.inr ⟨b, ?_, htxid, hopen⟩)
      rw [broadcasts, hpending]
      exact hb

theorem Separate.sends (hP : P.Commits) (hsep : s.Separate P) (hheld : Held P s utxos)
    (hpending : s.pending = none)
    (built : buildP2wpkhPayment P utxos claim.claimant.address amountSat rate = .ok payment) :
    (s.broadcasting claim payment attempts).Separate P := by
  obtain ⟨-, htaken, hsigned⟩ := buildP2wpkhPayment_eq_ok built
  have hnew : ∀ p ∈ s.transactions, s.Live p.txid → (outpoints payment).Disjoint (outpoints p) := by
    intro p hp hlive key hkey hkey'
    obtain ⟨u, hu, rfl⟩ := List.mem_map.mp hkey
    exact hheld.unspent u (htaken.subset hu) p hp hlive hkey'
  -- An older broadcast of the same transaction is live again, and spends the same.
  have hdisjoint : ∀ p ∈ payment :: s.transactions, ∀ q ∈ payment :: s.transactions, p.txid = payment.txid →
      s.Live q.txid → p.txid ≠ q.txid → (outpoints p).Disjoint (outpoints q) := by
    intro p hp q hq htxid hlive hne
    have hold : q ∈ s.transactions := by
      rcases List.mem_cons.mp hq with rfl | hq
      · exact absurd htxid hne
      · exact hq
    rcases List.mem_cons.mp hp with rfl | hp
    · exact hnew q hold hlive
    · obtain ⟨_, _, hsigned'⟩ := hsep.signed p hp
      rw [htxid] at hsigned'
      have hkeys : outpoints p = outpoints payment := outpoints_of_commits hP hsigned' hsigned
      rw [hkeys]
      exact hnew q hold hlive
  have hnot := not_live_of_built hP hsep hheld built
  have hlive_mem : ∀ p ∈ payment :: s.transactions, s.Live p.txid → p ∈ s.transactions := by
    intro p hp hlive
    rcases List.mem_cons.mp hp with rfl | hp
    · exact absurd hlive hnot
    · exact hp
  refine ⟨?_, ?_, ?_, ?_, ?_⟩ <;> rw [transactions_broadcasting hpending]
  · intro p hp
    rcases List.mem_cons.mp hp with rfl | hp
    · exact ⟨_, _, hsigned⟩
    · exact hsep.signed p hp
  · intro txid hlive
    rcases live_broadcasting hpending hlive with hlive | htxid
    · obtain ⟨p, hp, htxid⟩ := hsep.sent txid hlive
      exact ⟨p, List.mem_cons_of_mem _ hp, htxid⟩
    · exact ⟨payment, List.mem_cons_self, htxid⟩
  · intro p hp q hq hlive hlive' hne
    rcases live_broadcasting hpending hlive with hlive | htxid
    · rcases live_broadcasting hpending hlive' with hlive' | htxid'
      · exact hsep.disjoint p (hlive_mem p hp hlive) q (hlive_mem q hq hlive') hlive hlive' hne
      · exact (hdisjoint q hq p hp htxid'.symm hlive hne.symm).symm
    · rcases live_broadcasting hpending hlive' with hlive' | htxid'
      · exact hdisjoint p hp q hq htxid.symm hlive' hne
      · exact absurd (htxid.symm.trans htxid') hne
  · intro p hp
    rcases List.mem_cons.mp hp with rfl | hp
    · exact hheld.nodup.sublist (htaken.sublist.map _)
    · exact hsep.nodup p hp
  · intro p hp u hu hsigns
    rcases List.mem_cons.mp hp with rfl | hp
    · exact hheld.sourced u (htaken.subset hu) hsigns
    · exact hsep.sourced p hp u hu hsigns

theorem Unspent.sends (hP : P.Commits) (hsep : s.Separate P) (hs : s.Unspent P) (hheld : Held P s utxos)
    (hpending : s.pending = none)
    (built : buildP2wpkhPayment P utxos claim.claimant.address amountSat rate = .ok payment) :
    (s.broadcasting claim payment attempts).Unspent P := by
  obtain ⟨-, htaken, hsigned⟩ := buildP2wpkhPayment_eq_ok built
  have hnot := not_live_of_built hP hsep hheld built
  refine ⟨.nil, hs.change_nodup, ?_, ?_, ?_, ?_⟩
  · intro c hc
    have hacc := (hs.change_accepted c hc).1
    refine ⟨hacc, ?_⟩
    rintro b ⟨⟩ htxid
    exact hnot (.inl (htxid ▸ hacc))
  · intro c hc p hp hlive hne
    have hne := hne _ rfl
    rw [transactions_broadcasting hpending] at hp
    rcases List.mem_cons.mp hp with rfl | hp
    · exact absurd rfl hne
    · rcases live_broadcasting hpending hlive with hlive | htxid
      · refine hs.change_unspent c hc p hp hlive ?_
        rw [hpending]
        rintro b ⟨⟩
      · exact absurd htxid.symm hne
  · rintro b ⟨⟩ p hp u hu htxid
    have hsigns : P.Signs u.txid := by
      rw [htxid]
      exact ⟨_, _, _, _, _, hsigned⟩
    rw [transactions_broadcasting hpending] at hp
    rcases List.mem_cons.mp hp with rfl | hp
    · exact hnot (.inl (htxid ▸ hheld.sourced u (htaken.subset hu) hsigns))
    · exact hnot (.inl (htxid ▸ hsep.sourced p hp u hu hsigns))
  · rintro b ⟨⟩ b' hb' htxid hopen
    refine hnot (.inr ⟨b', ?_, htxid, hopen⟩)
    rw [broadcasts, hpending]
    exact hb'

end Send

/-! ## The run -/

/-- What a send has and what it broadcasts stay apart. -/
structure Solvent (P : Payer) (s : Faucet) : Prop where
  separate : s.Separate P
  unspent : s.Unspent P

theorem Solvent.settles {P : Payer} (hs : s.Solvent P) (h : s.Settles s') (hpending : s'.pending = s.pending)
    (hsent : s'.sent = s.sent) (hnow : s.now ≤ s'.now)
    (hchange : s'.coins.pendingChange.Sublist s.coins.pendingChange) (hheld : Held P s' s'.held) :
    s'.Solvent P :=
  ⟨hs.separate.settles h, hs.unspent.settles h hpending hsent hnow hchange hheld⟩

theorem Solvent.step (hP : deps.payer.Commits) (hs : s.Solvent deps.payer)
    (htrusts : s.Trusts deps.payer a) (hcovers : s.Covers a) (h : Moves deps s a s') :
    s'.Solvent deps.payer := by
  cases h with
  | idle store claiming held pending sent accepted change now =>
    have hnow : s.now ≤ s'.now := by
      rcases now with now | rfl
      · exact now.ge
      · exact htrusts
    have hsettles := settles_of pending sent accepted hnow
    refine hs.settles hsettles pending sent hnow change ?_
    rw [held]
    exact hs.unspent.held.settles hsettles
  | locks free allowed =>
    have hpending : s.pending = none := by rw [pending, free]
    refine hs.settles (settles_of hpending.symm rfl rfl le_rfl) hpending.symm rfl le_rfl ?_ .nil
    exact s.coins.prune_sublist s.now
  | fails unsent =>
    exact hs.settles (settles_of unsent.symm rfl rfl le_rfl) unsent.symm rfl le_rfl (List.Sublist.refl _) .nil
  | @lists claim attempts t listing waits =>
    have hpending : s.pending = none := by rw [pending, waits]
    refine hs.settles (settles_of hpending.symm rfl rfl le_rfl) hpending.symm rfl le_rfl
      (s.coins.listed_sublist listing) ?_
    exact (hs.unspent.lists (htrusts t (by rw [requestedAt, waits]; rfl)) hcovers hpending).settles
      (settles_of hpending.symm rfl rfl le_rfl)
  | @sends _ claim utxos attempts _ payment waits built =>
    have hpending : s.pending = none := by rw [pending, waits]
    have hheld : Held deps.payer s utxos := by
      have hheld := hs.unspent.held
      rw [held, waits] at hheld
      exact hheld
    exact ⟨hs.separate.sends hP hheld hpending built, hs.unspent.sends hP hs.separate hheld hpending built⟩
  | @rejected _ _ claim payment _ waits rejection =>
    have hpending := pending_of_broadcasting waits
    have hsettles : s.Settles (s.ended claim payment .rejected false) := settles_over waits rfl rfl rfl
    refine ⟨hs.separate.settles hsettles, hs.unspent.ended hP hs.separate waits hsettles rfl
      hs.unspent.change_nodup ?_⟩
    intro c hc
    refine .inl ⟨hc, fun hlive => ?_⟩
    exfalso
    rcases hlive with hacc | ⟨b, hb, htxid, hopen⟩
    · exact htrusts rejection _ hpending hacc
    · rcases List.mem_cons.mp hb with rfl | hb
      · exact hopen
      · exact hs.unspent.pending_closed _ hpending b hb htxid hopen
  | @unknown e _ claim payment _ waits =>
    have hsettles : s.Settles { s.ended claim payment (.unknown s.now) false with
        coins := s.coins.reserve payment.inputs s.now } := settles_over waits rfl rfl rfl
    refine ⟨hs.separate.settles hsettles, hs.unspent.ended hP hs.separate waits hsettles rfl ?_ ?_⟩
    · exact hs.unspent.change_nodup.sublist ((Coins.reserve_sublist _ _).map _)
    · intro c hc
      obtain ⟨hc, hunspent⟩ := Coins.mem_reserve hc
      exact .inl ⟨hc, fun _ => hunspent⟩
  | @paid _ _ claim payment _ recorded store waits stored =>
    have hpending := pending_of_broadcasting waits
    have hsettles : s.Settles { s.ended claim payment .paid recorded with
        store
        coins := (s.coins.reserve payment.inputs s.now).addChange payment s.now
        balanceCache := none } := settles_over waits rfl rfl rfl
    refine ⟨hs.separate.settles hsettles, hs.unspent.ended hP hs.separate waits hsettles rfl ?_ ?_⟩
    · refine Coins.addChange_nodup (hs.unspent.change_nodup.sublist ((Coins.reserve_sublist _ _).map _)) ?_
      intro c hc
      exact (hs.unspent.change_accepted c (Coins.mem_reserve hc).1).2 _ hpending
    · intro c hc
      rcases Coins.mem_addChange hc with hc | htxid
      · obtain ⟨hc, hunspent⟩ := Coins.mem_reserve hc
        exact .inl ⟨hc, fun _ => hunspent⟩
      · exact .inr ⟨htxid, htxid ▸ htrusts _ hpending⟩
  | @accepts txid sent new =>
    have hsettles := settles_accepts htrusts
    refine hs.settles hsettles rfl rfl le_rfl (List.Sublist.refl _) ?_
    exact hs.unspent.held.settles hsettles
  | restarts => exact htrusts.elim

theorem Solvent.init {P : Payer} (h : (faucet deps).init s) : s.Solvent P := by
  obtain ⟨hcoins, -, -, -, hsending, -, hsent, haccepted⟩ := h
  have hpending : s.pending = none := by rw [pending, hsending]
  have hbroadcasts : s.broadcasts = [] := by
    rw [broadcasts, hpending, hsent]
    rfl
  have htransactions : s.transactions = [] := by
    rw [transactions, hbroadcasts]
    rfl
  have hheld : s.held = [] := by rw [held, hsending]
  refine ⟨⟨?_, ?_, ?_, ?_, ?_⟩, ⟨?_, ?_, ?_, ?_, ?_, ?_⟩⟩
  · rw [htransactions]
    rintro p ⟨⟩
  · rintro txid (hacc | ⟨b, hb, -⟩)
    · rw [Accepted, haccepted] at hacc
      cases hacc
    · rw [hbroadcasts] at hb
      cases hb
  · rw [htransactions]
    rintro p ⟨⟩
  · rw [htransactions]
    rintro p ⟨⟩
  · rw [htransactions]
    rintro p ⟨⟩
  · rw [hheld]
    exact .nil
  · rw [hcoins]
    exact List.nodup_nil
  · rw [hcoins]
    rintro c ⟨⟩
  · rw [hcoins]
    rintro c ⟨⟩
  · rw [hpending]
    rintro b ⟨⟩
  · rw [hpending]
    rintro b ⟨⟩

/-- As long as the reservations cover the outpoints that are listed though a live transaction spends them,
no two transactions the network has spend one outpoint. -/
theorem no_double_spend (hP : deps.payer.Commits)
    (h : Runs.Via (faucet deps) (fun s a => s.Trusts deps.payer a ∧ s.Covers a) s) : s.NoDoubleSpend := by
  have hs : s.Solvent deps.payer :=
    h.invariant (fun _ => Solvent.init) fun _ _ _ hs ha hstep => hs.step hP ha.1 ha.2 (step_moves hstep)
  exact hs.separate.noDoubleSpend

/-- While the listing lags the second payment spends the change of the first. -/
theorem no_double_spend_vector :
    ∃ s, Runs.Reachable (faucet Demo.deps) s ∧ s.accepted.length = 2 ∧ s.NoDoubleSpend := by
  have hrun : ((faucet Demo.deps).replayIf (fun s a => decide (s.Trusts Demo.payer a ∧ s.Covers a))
      Demo.opened Demo.bothPaid).any (fun s => decide (s.accepted.length = 2)) = true := by
    decide +kernel
  obtain ⟨s, hs, htwo⟩ := (Option.any_eq_true _ _).mp hrun
  have hvia := (Runs.Via.init Demo.opened_init).replayIf (fun _ _ => of_decide_eq_true) hs
  exact ⟨s, hvia.reachable, of_decide_eq_true htwo, no_double_spend Demo.payer_commits hvia⟩

/-- The broadcast of Alice's payment times out, and the network accepts it within `RESERVATION_TTL_MS`.
Two milliseconds later its coin is still listed but no longer reserved, and Bob's payment spends it too. -/
theorem no_double_spend_late : ¬∀ deps s, deps.payer.Commits →
    Runs.Via (faucet deps) (fun s a => s.Trusts deps.payer a) s → s.NoDoubleSpend := by
  intro hall
  have hrun : ((faucet Demo.deps).replayIf (fun s a => decide (s.Trusts Demo.payer a)) Demo.opened
      Demo.spentAgain).any (fun s => decide (∃ b ∈ s.broadcasts, ∃ b' ∈ s.broadcasts,
        s.Accepted b.payment.txid ∧ s.Accepted b'.payment.txid ∧ b.payment.txid ≠ b'.payment.txid ∧
          ∃ key ∈ outpoints b.payment, key ∈ outpoints b'.payment)) = true := by
    decide +kernel
  obtain ⟨s, hs, htwice⟩ := (Option.any_eq_true _ _).mp hrun
  have hvia := (Runs.Via.init Demo.opened_init).replayIf (fun _ _ => of_decide_eq_true) hs
  obtain ⟨b, hb, b', hb', hacc, hacc', hne, key, hkey, hkey'⟩ := of_decide_eq_true htwice
  exact (hall _ s Demo.payer_commits hvia).between b hb b' hb' hacc hacc' hne hkey hkey'

end Faucet

end Writz.Relayer

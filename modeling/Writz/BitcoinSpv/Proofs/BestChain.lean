import Writz.BitcoinSpv.Proofs.Work

/-!
# Proofs: the canonical index

The backward walk stops at the first height that already holds the header it has come to. That is
right where the height is at or below the best tip's, because there the index holds the best chain;
above it the index can hold what an earlier, longer and lighter chain left behind.
-/

namespace Writz.Spv

open Lineage Relation

/-- The index holds the best chain from the checkpoint up. -/
def BestChain (s : Storage) : Prop :=
  ∀ cp best, s.checkpoint = some cp → s.bestTip = some best →
    Tracks (parentIn s.headers) s.canonical.lookup cp.height best.height best.hash

/-- `p` is the parent of `a`, among the stored headers and the submitted ones. -/
def ParentOf (C : Crypto) (s : Storage) (hs : List (BytesN 80)) (a p : BytesN 32) : Prop :=
  parentIn s.headers a = some p ∨ ∃ header ∈ hs, hashHeader C header = a ∧ prevHashOf header = p

/-- Where the last submitted header has more work than the best tip, none of its stored ancestors
above the tip's height is in the canonical index. -/
def NoStaleAncestor (C : Crypto) (s : State) : Label → Prop
  | .invoke _ (.submitHeaders hs) =>
    ∀ best last w a e, s.storage.bestTip = some best → hs.getLast? = some last →
      HasWork C s.storage hs (hashHeader C last) w → best.chainwork < w →
        ReflTransGen (ParentOf C s.storage hs) (hashHeader C last) a →
          s.storage.headers.lookup a = some e → best.height < e.height →
            s.storage.canonical.lookup e.height ≠ some a
  | _ => True

section

variable {C : Crypto} {auth : Auth} {ledger : Ledger} {s s' : Storage}

/-- What the walk leaves: the lineage of the header it started from, and the heights above as they
were. It has to be right wherever it stops. -/
theorem rewriteCanonical_tracks {headers : Store (BytesN 32) HeaderEntry} {cp : Checkpoint}
    {index : Nat → Option (BytesN 32)} (hl : Linked headers cp)
    (hroot : index cp.height = some cp.blockHash) (left : Nat) :
    ∀ {canonical canonical' : Store Nat (BytesN 32)} {hash : BytesN 32} {entry : HeaderEntry},
      rewriteCanonical headers left canonical hash entry = .ok canonical' →
      headers.lookup hash = some entry →
      (∀ n, n ≤ entry.height → canonical.lookup n = index n) →
      (∀ n a e, cp.height + n ≤ entry.height → up (parentIn headers) n hash = some a →
        headers.lookup a = some e → index e.height = some a →
          Tracks (parentIn headers) index cp.height e.height a) →
        Tracks (parentIn headers) canonical'.lookup cp.height entry.height hash ∧
          ∀ n, entry.height < n → canonical'.lookup n = canonical.lookup n := by
  -- the walk's result where it stops
  have hstop : ∀ {canonical : Store Nat (BytesN 32)} {hash : BytesN 32} {entry : HeaderEntry},
      headers.lookup hash = some entry → canonical.lookup entry.height = some hash →
      (∀ n, n ≤ entry.height → canonical.lookup n = index n) →
      (∀ n a e, cp.height + n ≤ entry.height → up (parentIn headers) n hash = some a →
        headers.lookup a = some e → index e.height = some a →
          Tracks (parentIn headers) index cp.height e.height a) →
        Tracks (parentIn headers) canonical.lookup cp.height entry.height hash := by
    intro canonical hash entry hstored hc hsame hright
    refine (hright 0 hash entry (hl.height_le _ _ hstored) rfl hstored ?_).congr
      fun n _ hn => hsame n hn
    rw [← hsame _ le_rfl]
    exact hc
  induction left with
  | zero =>
    intro canonical canonical' hash entry h hstored hsame hright
    rw [rewriteCanonical] at h
    split_ifs at h with hc
    cases h
    exact ⟨hstop hstored hc hsame hright, fun _ _ => rfl⟩
  | succ left ih =>
    intro canonical canonical' hash entry h hstored hsame hright
    rw [rewriteCanonical] at h
    split_ifs at h with hc
    · cases h
      exact ⟨hstop hstored hc hsame hright, fun _ _ => rfl⟩
    · rw [bind_eq_ok] at h
      obtain ⟨parent, hparent, h⟩ := h
      rw [okOr_eq_ok] at hparent
      -- at the checkpoint the walk would have stopped
      have hne : hash ≠ cp.blockHash := by
        rintro rfl
        obtain ⟨r, hr, hrh⟩ := hl.root
        rw [hstored] at hr
        cases hr
        exact hc (by rw [hsame _ le_rfl, hrh, hroot])
      obtain ⟨p, hp, hph⟩ := hl.parent hash entry hstored hne
      rw [hparent] at hp
      cases hp
      have hpar : parentIn headers hash = some entry.prev := by rw [parentIn, hstored]; rfl
      obtain ⟨htracks, habove⟩ := ih h hparent
        (fun n hn => by
          rw [Store.lookup_insert_eq_ite, if_neg (by omega)]
          exact hsame n (by omega))
        (fun n a e hn hup => hright (n + 1) a e (by omega) (by rwa [up_succ hpar]))
      have hwritten : canonical'.lookup (parent.height + 1) = some hash := by
        rw [habove _ (by omega), Store.lookup_insert_eq_ite, if_pos hph.symm]
      refine ⟨hph ▸ htracks.extend hpar hwritten, fun n hn => ?_⟩
      rw [habove n (by omega), Store.lookup_insert_eq_ite, if_neg (by omega)]

/-- A header stored by the loop was stored before or is one of the submitted. -/
theorem acceptHeaders_source {now powLimit : Nat} {hs : List (BytesN 80)}
    {headers headers' : Store (BytesN 32) HeaderEntry} {last last' : Option (BytesN 32 × HeaderEntry)}
    (h : acceptHeaders C now powLimit hs headers last = .ok (headers', last')) :
    ∀ a e, headers'.lookup a = some e → headers.lookup a = some e ∨
      ∃ header ∈ hs, hashHeader C header = a ∧ prevHashOf header = e.prev := by
  refine acceptHeaders_induct (I := fun headers' => ∀ a e, headers'.lookup a = some e →
    headers.lookup a = some e ∨
      ∃ header ∈ hs, hashHeader C header = a ∧ prevHashOf header = e.prev) hs ?_ ?_ h
  · intro headers₁ header hash entry hm hI ha a e he
    rw [Store.lookup_insert_eq_ite] at he
    split_ifs at he with hah
    · cases he
      exact .inr ⟨header, hm, by rw [hah, ha.hash_eq], ha.prev_eq.symm⟩
    · exact hI a e he
  · exact fun a e he => .inl he

/-- Following `prev` after the loop is following parents among the stored and the submitted. -/
theorem acceptHeaders_parentOf {now powLimit : Nat} {hs : List (BytesN 80)}
    {headers' : Store (BytesN 32) HeaderEntry} {last last' : Option (BytesN 32 × HeaderEntry)}
    (h : acceptHeaders C now powLimit hs s.headers last = .ok (headers', last')) (a p : BytesN 32)
    (hp : parentIn headers' a = some p) : ParentOf C s hs a p := by
  obtain ⟨e, he, rfl⟩ := Option.map_eq_some_iff.mp hp
  rcases acceptHeaders_source h a e he with hs' | ⟨header, hm, hh, hprev⟩
  · exact .inl (by rw [parentIn, hs']; rfl)
  · exact .inr ⟨header, hm, hh, hprev⟩

/-- The checkpoint is in an index that tracks the best tip. -/
theorem BestChain.root {cp : Checkpoint} {best : BestTip}
    (h : Tracks (parentIn s.headers) s.canonical.lookup cp.height best.height best.hash)
    (hchain : Chain s.headers s.canonical cp best) :
    s.canonical.lookup cp.height = some cp.blockHash := by
  obtain ⟨e, he, hheight, -⟩ := hchain.tip
  have hle := hchain.linked.height_le _ _ he
  obtain ⟨a, -, ha⟩ := h (best.height - cp.height) (by omega)
  rw [show best.height - (best.height - cp.height) = cp.height by omega] at ha
  obtain ⟨e', he', hheight'⟩ := hchain.recorded _ _ ha
  rwa [hchain.linked.height_eq he' hheight'] at ha

/-- A call that meets the condition keeps the index on the best chain. -/
theorem Effect.bestChain {c : Call} (e : Effect C auth ledger s c s') (hd : ChainData s)
    (h : BestChain s) (hstale : NoStaleAncestor C ⟨s, ledger⟩ (.invoke auth c)) :
    BestChain s' := by
  cases e with
  | @checkpoint caller height blockHash bits time periodStartTime cp root hnone hhash hcp hheight
      hwork =>
    intro cp' best hcp' hbest n hn
    cases hcp'
    cases hbest
    obtain rfl : n = 0 := by
      dsimp only at hn
      omega
    refine ⟨blockHash, rfl, ?_⟩
    change (s.canonical.insert height blockHash).lookup height = _
    rw [Store.lookup_insert_eq_ite, if_pos rfl]
  | @stored hs config cp powLimit headers hash entry best hc hcp hne hheaders hbest hwork =>
    intro cp' best' hcp' hbest'
    exact (h cp' best' hcp' hbest').mono (acceptHeaders_extends hheaders).parentIn
  | @adopted hs config cp powLimit headers hash entry best canonical hc hcp hne hheaders hbest hwork
      hcanonical =>
    intro cp' best' hcp' hbest'
    cases hbest'
    obtain ⟨best₀, hbest₀, hchain⟩ := hd.set cp' hcp'
    obtain rfl : best₀ = best := Option.some.inj (hbest₀.symm.trans hbest)
    have hext := acceptHeaders_extends hheaders
    have htracks := h cp' best₀ hcp' hbest
    obtain ⟨last, hlast⟩ := getLast?_of_ne_nil hne
    obtain ⟨rfl, hstored, hlw⟩ := acceptHeaders_lastWork hlast hheaders
    refine (rewriteCanonical_tracks (acceptHeaders_linked hchain.linked hheaders)
      (BestChain.root htracks hchain) _ hcanonical hstored (fun _ _ => rfl) ?_).1
    intro n a e hn hup ha hindex
    -- the walk can only stop at or below the best tip
    obtain ⟨e', he', hheight⟩ := hchain.recorded _ _ hindex
    obtain rfl : e' = e := Option.some.inj ((hext _ _ he').symm.trans ha)
    have hle : e'.height ≤ best₀.height := by
      by_contra hgt
      exact hstale best₀ last _ a e' hbest hlast hlw hwork
        (up_reflTransGen (acceptHeaders_parentOf hheaders) n hup) he' (not_le.mp hgt) hindex
    have hlo := hchain.linked.height_le _ _ he'
    have hanc := htracks.ancestor (n := best₀.height - e'.height) (b := a) (by omega)
      (by rwa [show best₀.height - (best₀.height - e'.height) = e'.height by omega])
    rw [show best₀.height - (best₀.height - e'.height) = e'.height by omega] at hanc
    exact hanc.mono hext.parentIn
  | consumer | consume | configure => exact h

theorem bestChain_step {st st' : State} {l : Label} (hd : ChainData st.storage)
    (h : BestChain st.storage) (hstale : NoStaleAncestor C st l) (hs : step C st l = some st') :
    BestChain st'.storage := by
  cases l with
  | invoke auth c =>
    cases hs
    rcases invoke_cases C auth st.ledger st.storage c with he | he
    · rw [he]
      exact h
    · exact he.bestChain hd h hstale
  | advance l =>
    simp only [step] at hs
    split_ifs at hs
    cases hs
    exact h

theorem bestChain_of_via {st : State} (h : Runs.Via (system C) (NoStaleAncestor C) st) :
    ChainData st.storage ∧ BestChain st.storage := by
  refine h.invariant (I := fun st => ChainData st.storage ∧ BestChain st.storage) ?_ ?_
  · intro st h0
    have hd := Deployed.chainData h0
    refine ⟨hd, fun cp best hcp hbest => ?_⟩
    rw [Deployed.bestTip h0] at hbest
    cases hbest
  · intro st l st' hI hp hs
    exact ⟨hI.1.step hs, bestChain_step hI.1 hI.2 hp hs⟩

/-- `a` is the ancestor of `tip` at height `h`. -/
def AncestorAt (s : Storage) (tip : BytesN 32) (h : Nat) (a : BytesN 32) : Prop :=
  ∃ n e, up (parentIn s.headers) n tip = some a ∧ s.headers.lookup a = some e ∧ e.height = h

/-- A block that passes the checks of `verify_transaction` is on the canonical index. -/
theorem confirmedHeader_canonical {blockHash : BytesN 32} {minConfirmations : Nat}
    {entry : HeaderEntry} {confirmations : Nat} {cp : Checkpoint} {best : BestTip}
    (hcp : s.checkpoint = some cp) (hbest : s.bestTip = some best)
    (h : confirmedHeader s blockHash minConfirmations = .ok (entry, confirmations)) :
    s.headers.lookup blockHash = some entry ∧ cp.height < entry.height ∧
      entry.height ≤ best.height ∧ s.canonical.lookup entry.height = some blockHash ∧
      confirmations = best.height - entry.height + 1 := by
  simp only [confirmedHeader, bind_eq_ok, failIf_eq_ok, okOr_eq_ok] at h
  obtain ⟨config, -, cp', hcp', entry', hentry, _, hheight, best', hbest', _, hcanon, _, -, h⟩ := h
  rw [hcp] at hcp'
  rw [hbest] at hbest'
  cases hcp'
  cases hbest'
  cases h
  simp only [not_or, not_lt, ne_eq, not_not] at hcanon
  exact ⟨hentry, not_le.mp hheight, hcanon.1, hcanon.2, rfl⟩

/-- In every run none of whose submissions climbs to a stale canonical entry, the canonical index
holds the best tip's ancestors, and a block `verify_transaction` accepts is one of them, as many
headers below the tip as the confirmations say. -/
theorem canonical_index_sound {st : State} {cp : Checkpoint} {best : BestTip}
    (h : Runs.Via (system C) (NoStaleAncestor C) st) (hcp : st.storage.checkpoint = some cp)
    (hbest : st.storage.bestTip = some best) :
    (∀ n, cp.height ≤ n → n ≤ best.height →
      ∃ a, st.storage.canonical.lookup n = some a ∧ AncestorAt st.storage best.hash n a) ∧
      ∀ blockHash merkleProof txIndex rawTx minConfirmations result,
        verifyTransaction C st.storage blockHash merkleProof txIndex rawTx minConfirmations
          = .ok result →
          ∃ n, up (parentIn st.storage.headers) n best.hash = some blockHash ∧
            result.confirmations = n + 1 := by
  obtain ⟨hd, hb⟩ := bestChain_of_via h
  have htracks := hb cp best hcp hbest
  obtain ⟨best', hbest', hchain⟩ := hd.set cp hcp
  obtain rfl : best' = best := Option.some.inj (hbest'.symm.trans hbest)
  refine ⟨fun n hlo hhi => ?_, ?_⟩
  · obtain ⟨a, hup, ha⟩ := htracks (best'.height - n) (by omega)
    rw [show best'.height - (best'.height - n) = n by omega] at ha
    obtain ⟨e, he, hheight⟩ := hchain.recorded n a ha
    exact ⟨a, ha, _, e, hup, he, hheight⟩
  · intro blockHash merkleProof txIndex rawTx minConfirmations result hv
    simp only [verifyTransaction, bind_eq_ok] at hv
    obtain ⟨_, -, _, -, _, -, ⟨entry, confirmations⟩, hconf, _, -, hv⟩ := hv
    cases hv
    obtain ⟨hentry, hlo, hhi, hcanon, hc⟩ := confirmedHeader_canonical hcp hbest hconf
    obtain ⟨a, hup, ha⟩ := htracks (best'.height - entry.height) (by omega)
    rw [show best'.height - (best'.height - entry.height) = entry.height by omega] at ha
    obtain rfl : blockHash = a := Option.some.inj (hcanon.symm.trans ha)
    exact ⟨_, hup, hc⟩

end

/-! ## On the small light client -/

/-- Nothing rises above the tip of a freshly rooted client, so no submission finds a stale entry. -/
theorem rooted_noStaleAncestor (auth : Auth) (hs : List (BytesN 80)) :
    NoStaleAncestor Demo.crypto Demo.rooted (.invoke auth (.submitHeaders hs)) := by
  intro best last w a e hbest _ _ _ _ he hgt
  cases hbest
  have := (Demo.rooted_stored he).2.1
  dsimp only at hgt
  omega

/-- One header on top of the checkpoint: the index holds both, and the header's only transaction
would be confirmed once. -/
theorem canonical_index_sound_submitted :
    ∃ (st : State) (best : BestTip), st.storage.bestTip = some best ∧ best.height = 806399 ∧
      ∀ n, 806398 ≤ n → n ≤ best.height →
        ∃ a, st.storage.canonical.lookup n = some a ∧ AncestorAt st.storage best.hash n a := by
  obtain ⟨st, hs, hcp, htip⟩ : ∃ st,
      (system Demo.crypto).step Demo.rooted (Demo.submit [Demo.a1]) = some st ∧
        st.storage.checkpoint.map Checkpoint.height = some 806398 ∧
          st.storage.bestTip.map BestTip.height = some 806399 := ⟨_, rfl, by decide +kernel⟩
  obtain ⟨cp, hcp, hcph⟩ := Option.map_eq_some_iff.mp hcp
  obtain ⟨best, hbest, hbesth⟩ := Option.map_eq_some_iff.mp htip
  have hrun : Runs.Via (system Demo.crypto) (NoStaleAncestor Demo.crypto) st :=
    ((Runs.Via.init Demo.start_deployed).step (a := Demo.setRoot) trivial Demo.setRoot_rooted).step
      (rooted_noStaleAncestor _ _) hs
  have hsound := (canonical_index_sound hrun hcp hbest).1
  rw [hcph] at hsound
  exact ⟨st, best, hbest, hbesth, hsound⟩

/-- The first branch is the best chain, then the shorter and heavier second branch, then the first
again with one more header. The walk stops at the first branch's third header, which the second branch
never reached, so below it the index still holds the second branch; a transaction of an orphaned block
counts as confirmed. -/
theorem stale_canonical_entry :
    ∃ st, Runs.Reachable (system Demo.crypto) st ∧
      st.storage.checkpoint.map Checkpoint.height = some 806398 ∧
      st.storage.bestTip
        = some { hash := hashHeader Demo.crypto Demo.a4, height := 806402, chainwork := 28062959 } ∧
      st.storage.canonical.lookup 806399 = some (hashHeader Demo.crypto Demo.b1) ∧
      (∀ n, up (parentIn st.storage.headers) n (hashHeader Demo.crypto Demo.a4)
        ≠ some (hashHeader Demo.crypto Demo.b1)) ∧
      verifyTransaction Demo.crypto st.storage (hashHeader Demo.crypto Demo.b1) [] 0 Demo.b1Tx 4
        = .ok
          { txid := sha256d Demo.crypto Demo.b1Tx, blockHash := hashHeader Demo.crypto Demo.b1
            blockHeight := 806399, confirmations := 4 } := by
  obtain ⟨st, hr, hcp, hbest, hcanon, hlow, hend, hv⟩ : ∃ st,
      Runs.Reachable (system Demo.crypto) st ∧
        (st.storage.checkpoint.map Checkpoint.height = some 806398 ∧
          st.storage.bestTip
            = some { hash := hashHeader Demo.crypto Demo.a4, height := 806402
                     chainwork := 28062959 } ∧
          st.storage.canonical.lookup 806399 = some (hashHeader Demo.crypto Demo.b1) ∧
          (∀ n < 6, up (parentIn st.storage.headers) n (hashHeader Demo.crypto Demo.a4)
            ≠ some (hashHeader Demo.crypto Demo.b1)) ∧
          up (parentIn st.storage.headers) 6 (hashHeader Demo.crypto Demo.a4) = none ∧
          verifyTransaction Demo.crypto st.storage (hashHeader Demo.crypto Demo.b1) [] 0 Demo.b1Tx 4
            = .ok
              { txid := sha256d Demo.crypto Demo.b1Tx, blockHash := hashHeader Demo.crypto Demo.b1
                blockHeight := 806399, confirmations := 4 }) := by
    exact reachable_of_replay Demo.start_deployed
      [Demo.setRoot, Demo.submit [Demo.a1, Demo.a2, Demo.a3], Demo.submit [Demo.b1, Demo.b2],
        Demo.submit [Demo.a4]]
      (by decide +kernel)
  refine ⟨st, hr, hcp, hbest, hcanon, fun n => ?_, hv⟩
  -- six generations up the lineage has ended
  rcases Nat.lt_or_ge n 6 with hn | hn
  · exact hlow n hn
  · obtain ⟨m, rfl⟩ := Nat.exists_eq_add_of_le hn
    rw [up_add, hend]
    simp

end Writz.Spv

import Writz.BitcoinSpv.Proofs.Effects
import Writz.Util.Lineage

/-!
# Proofs: the stored headers

Every stored header other than the checkpoint sits one above its stored parent, so following `prev`
leads down to the checkpoint height by height. The canonical entries and the best tip are stored
headers.
-/

namespace Writz.Spv

open Lineage

/-- The parent of a stored header. -/
def parentIn (headers : Store (BytesN 32) HeaderEntry) (hash : BytesN 32) : Option (BytesN 32) :=
  (headers.lookup hash).map HeaderEntry.prev

/-- The stored headers descend from the checkpoint. -/
structure Linked (headers : Store (BytesN 32) HeaderEntry) (cp : Checkpoint) : Prop where
  root : ∃ e, headers.lookup cp.blockHash = some e ∧ e.height = cp.height
  height_le : ∀ hash e, headers.lookup hash = some e → cp.height ≤ e.height
  parent : ∀ hash e, headers.lookup hash = some e → hash ≠ cp.blockHash →
    ∃ p, headers.lookup e.prev = some p ∧ e.height = p.height + 1

/-- What holds of the chain data once the checkpoint is set. -/
structure Chain (headers : Store (BytesN 32) HeaderEntry) (canonical : Store Nat (BytesN 32))
    (cp : Checkpoint) (best : BestTip) : Prop where
  linked : Linked headers cp
  recorded : ∀ h hash, canonical.lookup h = some hash →
    ∃ e, headers.lookup hash = some e ∧ e.height = h
  tip : ∃ e, headers.lookup best.hash = some e ∧ e.height = best.height ∧
    e.chainwork = best.chainwork

/-- The chain data before and after the checkpoint is set. -/
structure ChainData (s : Storage) : Prop where
  unset : s.checkpoint = none → s.headers = ∅ ∧ s.canonical = ∅ ∧ s.bestTip = none
  set : ∀ cp, s.checkpoint = some cp →
    ∃ best, s.bestTip = some best ∧ Chain s.headers s.canonical cp best

section Linked

variable {C : Crypto} {headers headers' : Store (BytesN 32) HeaderEntry} {cp : Checkpoint}

theorem Extends.parentIn (h : Extends headers headers') (a p : BytesN 32)
    (hp : Spv.parentIn headers a = some p) : Spv.parentIn headers' a = some p := by
  obtain ⟨e, he, rfl⟩ := Option.map_eq_some_iff.mp hp
  exact Option.map_eq_some_iff.mpr ⟨e, h a e he, rfl⟩

theorem Linked.height_eq (h : Linked headers cp) {hash : BytesN 32} {e : HeaderEntry}
    (he : headers.lookup hash = some e) (hheight : e.height = cp.height) : hash = cp.blockHash := by
  by_contra hne
  obtain ⟨p, hp, hph⟩ := h.parent hash e he hne
  have := h.height_le _ p hp
  omega

theorem Linked.insert (h : Linked headers cp) {header : BytesN 80} {hash : BytesN 32}
    {entry : HeaderEntry} (ha : Accepted C headers header hash entry) :
    Linked (headers.insert hash entry) cp := by
  have hext : Extends headers (headers.insert hash entry) :=
    Extends.insert (fun _ _ h => h) ha.fresh
  obtain ⟨p, hp, hph, -⟩ := ha.parent
  refine ⟨?_, ?_, ?_⟩
  · obtain ⟨e, he, hheight⟩ := h.root
    exact ⟨e, hext _ _ he, hheight⟩
  · intro a e hl
    rw [Store.lookup_insert_eq_ite] at hl
    split_ifs at hl
    · cases hl
      have := h.height_le _ p hp
      omega
    · exact h.height_le a e hl
  · intro a e hl hne
    rw [Store.lookup_insert_eq_ite] at hl
    split_ifs at hl
    · cases hl
      exact ⟨p, hext _ _ hp, hph⟩
    · obtain ⟨q, hq, hqh⟩ := h.parent a e hl hne
      exact ⟨q, hext _ _ hq, hqh⟩

theorem acceptHeaders_linked {now powLimit : Nat} {hs : List (BytesN 80)}
    {last last' : Option (BytesN 32 × HeaderEntry)} (h : Linked headers cp)
    (ha : acceptHeaders C now powLimit hs headers last = .ok (headers', last')) :
    Linked headers' cp :=
  acceptHeaders_induct (I := fun headers => Linked headers cp) hs
    (fun _ _ _ _ _ hI ha => hI.insert ha) h ha

/-- Each generation up the stored headers is one height down. -/
theorem Linked.up_height (h : Linked headers cp) (n : Nat) :
    ∀ {a b : BytesN 32} {e : HeaderEntry}, headers.lookup a = some e → cp.height + n ≤ e.height →
      up (parentIn headers) n a = some b →
        ∃ e', headers.lookup b = some e' ∧ e'.height = e.height - n := by
  induction n with
  | zero =>
    intro a b e he _ hb
    cases hb
    exact ⟨e, he, rfl⟩
  | succ n ih =>
    intro a b e he hn hb
    have hne : a ≠ cp.blockHash := by
      rintro rfl
      obtain ⟨r, hr, hrh⟩ := h.root
      rw [he] at hr
      cases hr
      omega
    obtain ⟨p, hp, hph⟩ := h.parent a e he hne
    have hpar : parentIn headers a = some e.prev := by rw [parentIn, he]; rfl
    rw [up_succ hpar] at hb
    obtain ⟨e', he', hh⟩ := ih hp (by omega) hb
    exact ⟨e', he', by omega⟩

end Linked

/-! ## The chain data in every reachable state -/

section

variable {C : Crypto} {auth : Auth} {ledger : Ledger} {s s' : Storage}

theorem Chain.of_headers {headers headers' : Store (BytesN 32) HeaderEntry}
    {canonical : Store Nat (BytesN 32)} {cp : Checkpoint} {best : BestTip}
    (h : Chain headers canonical cp best) (hext : Extends headers headers')
    (hl : Linked headers' cp) : Chain headers' canonical cp best := by
  refine ⟨hl, fun n hash hc => ?_, ?_⟩
  · obtain ⟨e, he, hh⟩ := h.recorded n hash hc
    exact ⟨e, hext _ _ he, hh⟩
  · obtain ⟨e, he, hh⟩ := h.tip
    exact ⟨e, hext _ _ he, hh⟩

/-- The walk writes stored headers at their heights. -/
theorem rewriteCanonical_recorded {headers : Store (BytesN 32) HeaderEntry} (left : Nat) :
    ∀ {canonical canonical' : Store Nat (BytesN 32)} {hash : BytesN 32} {entry : HeaderEntry},
      rewriteCanonical headers left canonical hash entry = .ok canonical' →
      headers.lookup hash = some entry →
      (∀ h a, canonical.lookup h = some a → ∃ e, headers.lookup a = some e ∧ e.height = h) →
        ∀ h a, canonical'.lookup h = some a → ∃ e, headers.lookup a = some e ∧ e.height = h := by
  induction left with
  | zero =>
    intro canonical canonical' hash entry h _ hrec
    rw [rewriteCanonical] at h
    split_ifs at h
    cases h
    exact hrec
  | succ left ih =>
    intro canonical canonical' hash entry h hstored hrec
    rw [rewriteCanonical] at h
    split_ifs at h
    · cases h
      exact hrec
    · rw [bind_eq_ok] at h
      obtain ⟨parent, hparent, h⟩ := h
      rw [okOr_eq_ok] at hparent
      refine ih h hparent fun n a ha => ?_
      rw [Store.lookup_insert_eq_ite] at ha
      split_ifs at ha with hn
      · cases ha
        exact ⟨entry, hstored, hn.symm⟩
      · exact hrec n a ha

theorem chainData_checkpoint {cp : Checkpoint} {root : HeaderEntry} {height : Nat}
    {blockHash : BytesN 32} (hempty : s.headers = ∅ ∧ s.canonical = ∅ ∧ s.bestTip = none)
    (hhash : cp.blockHash = blockHash) (hcp : cp.height = height) (hheight : root.height = height)
    (hwork : root.chainwork = 0) :
    Chain (s.headers.insert blockHash root) (s.canonical.insert height blockHash) cp
      { hash := blockHash, height, chainwork := 0 } := by
  obtain ⟨hh, hc, -⟩ := hempty
  have hroot : (s.headers.insert blockHash root).lookup blockHash = some root := by
    rw [Store.lookup_insert_eq_ite, if_pos rfl]
  have honly : ∀ a e, (s.headers.insert blockHash root).lookup a = some e →
      a = blockHash ∧ e = root := by
    intro a e he
    rw [Store.lookup_insert_eq_ite, hh] at he
    split_ifs at he with ha
    · exact ⟨ha, (Option.some.inj he).symm⟩
    · simp at he
  refine ⟨⟨⟨root, by rw [hhash]; exact hroot, by rw [hheight, hcp]⟩, ?_, ?_⟩, ?_, root, hroot,
    hheight, hwork⟩
  · intro a e he
    obtain ⟨-, rfl⟩ := honly a e he
    omega
  · intro a e he hne
    obtain ⟨rfl, -⟩ := honly a e he
    exact absurd hhash.symm hne
  · intro n a ha
    rw [Store.lookup_insert_eq_ite, hc] at ha
    split_ifs at ha with hn
    · cases ha
      exact ⟨root, hroot, by rw [hn]; exact hheight⟩
    · simp at ha

/-- The chain data after a call. -/
theorem Effect.chainData {c : Call} (e : Effect C auth ledger s c s') (h : ChainData s) :
    ChainData s' := by
  cases e with
  | checkpoint hnone hhash hcp hheight hwork =>
    refine ⟨fun hn => absurd hn (by simp), fun cp' hcp' => ?_⟩
    cases hcp'
    exact ⟨_, rfl, chainData_checkpoint (h.unset hnone) hhash hcp hheight hwork⟩
  | @stored hs config cp powLimit headers hash entry best hc hcp hne hheaders hbest hwork =>
    refine ⟨fun hn => absurd (hcp.symm.trans hn) (by simp), fun cp' hcp' => ?_⟩
    obtain ⟨best', hbest', hchain⟩ := h.set cp' hcp'
    exact ⟨best', hbest', hchain.of_headers (acceptHeaders_extends hheaders)
      (acceptHeaders_linked hchain.linked hheaders)⟩
  | @adopted hs config cp powLimit headers hash entry best canonical hc hcp hne hheaders hbest hwork
      hcanonical =>
    refine ⟨fun hn => absurd (hcp.symm.trans hn) (by simp), fun cp' hcp' => ?_⟩
    obtain ⟨best', hbest', hchain⟩ := h.set cp' hcp'
    have hlast : headers.lookup hash = some entry :=
      (acceptHeaders_last hs (by simp) hheaders).1 _ rfl
    have hchain' := hchain.of_headers (acceptHeaders_extends hheaders)
      (acceptHeaders_linked hchain.linked hheaders)
    exact ⟨_, rfl, hchain'.linked,
      rewriteCanonical_recorded _ hcanonical hlast hchain'.recorded, entry, hlast, rfl, rfl⟩
  | consumer | consume | configure => exact ⟨h.unset, h.set⟩

theorem Deployed.chainData {st : State} (h : Deployed st) : ChainData st.storage := by
  obtain ⟨admin, powLimitBits, headerTtl, consumedTtl, h⟩ := h
  simp only [construct, bind_eq_ok, failIf_eq_ok] at h
  obtain ⟨_, -, _, -, h⟩ := h
  rw [← Except.ok.inj h]
  exact ⟨fun _ => ⟨rfl, rfl, rfl⟩, fun cp hcp => by cases hcp⟩

theorem ChainData.step {st st' : State} {l : Label} (h : ChainData st.storage)
    (hs : step C st l = some st') : ChainData st'.storage := by
  cases l with
  | invoke auth c =>
    cases hs
    rcases invoke_cases C auth st.ledger st.storage c with he | he
    · rw [he]
      exact h
    · exact he.chainData h
  | advance l =>
    simp only [Spv.step] at hs
    split_ifs at hs
    cases hs
    exact h

end

end Writz.Spv

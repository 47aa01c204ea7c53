import Writz.BitcoinSpv.Proofs.Chain
import Writz.BitcoinSpv.Deployment

/-!
# Proofs: the work of the stored headers

A submitted header's work is its parent's and that of its own target. Only the last header of a list
is compared with the best tip, so the tip has the most work as long as no header of a list has more
than the last one.
-/

namespace Writz.Spv

/-- The work of a header among the stored and the submitted. -/
inductive HasWork (C : Crypto) (s : Storage) (hs : List (BytesN 80)) : BytesN 32 → Nat → Prop where
  /-- The work stored. -/
  | stored {hash : BytesN 32} {e : HeaderEntry} (h : s.headers.lookup hash = some e) :
      HasWork C s hs hash e.chainwork
  /-- The parent's work and its own. -/
  | listed {header : BytesN 80} {target w : Nat} (hm : header ∈ hs)
      (hnew : s.headers.lookup (hashHeader C header) = none)
      (htarget : bitsToTarget (bitsOf header) = .ok target)
      (h : HasWork C s hs (prevHashOf header) w) :
      HasWork C s hs (hashHeader C header) (w + workFromTarget target)

/-- No submitted header has more work than both the best tip and the last one submitted. -/
def LastHeaviest (C : Crypto) (s : State) : Label → Prop
  | .invoke _ (.submitHeaders hs) =>
    ∀ best last header w w', s.storage.bestTip = some best → hs.getLast? = some last →
      header ∈ hs → HasWork C s.storage hs (hashHeader C header) w →
        HasWork C s.storage hs (hashHeader C last) w' → w ≤ max best.chainwork w'
  | _ => True

/-- No stored header has more work than the best tip. -/
def MostWork (s : Storage) : Prop :=
  ∀ best hash e, s.bestTip = some best → s.headers.lookup hash = some e →
    e.chainwork ≤ best.chainwork

section

variable {C : Crypto} {auth : Auth} {ledger : Ledger} {s s' : Storage}

/-- What the loop stores has the work of the stored and the submitted headers, and is stored before
or submitted. -/
theorem acceptHeaders_work {now powLimit : Nat} {hs : List (BytesN 80)}
    {headers' : Store (BytesN 32) HeaderEntry} {last last' : Option (BytesN 32 × HeaderEntry)}
    (h : acceptHeaders C now powLimit hs s.headers last = .ok (headers', last')) :
    ∀ a e, headers'.lookup a = some e → HasWork C s hs a e.chainwork ∧
      (s.headers.lookup a = some e ∨ ∃ header ∈ hs, hashHeader C header = a) := by
  refine (acceptHeaders_induct (I := fun headers' => Extends s.headers headers' ∧
    ∀ a e, headers'.lookup a = some e → HasWork C s hs a e.chainwork ∧
      (s.headers.lookup a = some e ∨ ∃ header ∈ hs, hashHeader C header = a)) hs ?_ ?_ h).2
  · intro headers₁ header hash entry hm hI ha
    refine ⟨hI.1.insert ha.fresh, fun a e he => ?_⟩
    rw [Store.lookup_insert_eq_ite] at he
    split_ifs at he with hah
    · cases he
      obtain ⟨p, hp, -, target, htarget, hwork⟩ := ha.parent
      have hnew : s.headers.lookup (hashHeader C header) = none := by
        rw [← ha.hash_eq, Option.eq_none_iff_forall_ne_some]
        intro e he
        exact absurd ((hI.1 _ _ he).symm.trans ha.fresh) (by simp)
      have hprev := (hI.2 _ _ hp).1
      rw [ha.prev_eq] at hprev
      rw [hah, hwork, ha.hash_eq]
      exact ⟨.listed hm hnew htarget hprev, .inr ⟨header, hm, rfl⟩⟩
    · exact hI.2 a e he
  · exact ⟨fun _ _ h => h, fun a e he => ⟨.stored he, .inl he⟩⟩

/-- The work of the last header submitted. -/
theorem acceptHeaders_lastWork {now powLimit : Nat} {hs : List (BytesN 80)} {last : BytesN 80}
    {headers' : Store (BytesN 32) HeaderEntry} {hash : BytesN 32} {entry : HeaderEntry}
    (hlast : hs.getLast? = some last)
    (h : acceptHeaders C now powLimit hs s.headers none = .ok (headers', some (hash, entry))) :
    hash = hashHeader C last ∧ headers'.lookup hash = some entry ∧
      HasWork C s hs (hashHeader C last) entry.chainwork := by
  obtain ⟨hstored, hlasts⟩ := acceptHeaders_last hs (by simp) h
  obtain ⟨entry', hlast'⟩ := hlasts last hlast
  obtain ⟨rfl, rfl⟩ : hash = hashHeader C last ∧ entry = entry' := by simpa using hlast'
  exact ⟨rfl, hstored _ rfl, (acceptHeaders_work h _ _ (hstored _ rfl)).1⟩

theorem getLast?_of_ne_nil {α : Type} {l : List α} (h : l ≠ []) : ∃ a, l.getLast? = some a :=
  ⟨_, List.getLast?_eq_some_getLast h⟩

/-- A call that meets the condition leaves the best tip with the most work. -/
theorem Effect.mostWork {c : Call} (e : Effect C auth ledger s c s') (hd : ChainData s)
    (h : MostWork s) (hheaviest : LastHeaviest C ⟨s, ledger⟩ (.invoke auth c)) : MostWork s' := by
  cases e with
  | @checkpoint caller height blockHash bits time periodStartTime cp root hnone hhash hcp hheight
      hwork =>
    intro best hash e hbest he
    cases hbest
    change (s.headers.insert blockHash root).lookup hash = some e at he
    rw [(hd.unset hnone).1, Store.lookup_insert_eq_ite] at he
    split_ifs at he
    · cases he
      exact hwork.le
    · simp at he
  | @stored hs config cp powLimit headers hash entry best hc hcp hne hheaders hbest hwork =>
    intro best' a e hbest' he
    obtain rfl : best = best' := Option.some.inj (hbest.symm.trans hbest')
    obtain ⟨last, hlast⟩ := getLast?_of_ne_nil hne
    obtain ⟨rfl, -, hlw⟩ := acceptHeaders_lastWork hlast hheaders
    obtain ⟨hw, hold | ⟨header, hm, rfl⟩⟩ := acceptHeaders_work hheaders a e he
    · exact h best a e hbest hold
    · have := hheaviest best last header _ _ hbest hlast hm hw hlw
      omega
  | @adopted hs config cp powLimit headers hash entry best canonical hc hcp hne hheaders hbest hwork
      hcanonical =>
    intro best' a e hbest' he
    cases hbest'
    obtain ⟨last, hlast⟩ := getLast?_of_ne_nil hne
    obtain ⟨rfl, -, hlw⟩ := acceptHeaders_lastWork hlast hheaders
    dsimp only
    obtain ⟨hw, hold | ⟨header, hm, rfl⟩⟩ := acceptHeaders_work hheaders a e he
    · have := h best a e hbest hold
      omega
    · have := hheaviest best last header _ _ hbest hlast hm hw hlw
      omega
  | consumer | consume | configure => exact h

theorem mostWork_step {st st' : State} {l : Label} (hd : ChainData st.storage)
    (h : MostWork st.storage) (hheaviest : LastHeaviest C st l) (hs : step C st l = some st') :
    MostWork st'.storage := by
  cases l with
  | invoke auth c =>
    cases hs
    rcases invoke_cases C auth st.ledger st.storage c with he | he
    · rw [he]
      exact h
    · exact he.mostWork hd h hheaviest
  | advance l =>
    simp only [step] at hs
    split_ifs at hs
    cases hs
    exact h

/-- A call keeps the best tip or finds one with more work. -/
theorem Effect.tipWork {c : Call} {best : BestTip} (e : Effect C auth ledger s c s')
    (hd : ChainData s) (hbest : s.bestTip = some best) :
    ∃ best', s'.bestTip = some best' ∧ best.chainwork ≤ best'.chainwork := by
  cases e with
  | checkpoint hnone => exact absurd (hbest.symm.trans (hd.unset hnone).2.2) (by simp)
  | @adopted hs config cp powLimit headers hash entry best₀ canonical hc hcp hne hheaders hbest₀
      hwork hcanonical =>
    obtain rfl : best₀ = best := Option.some.inj (hbest₀.symm.trans hbest)
    exact ⟨_, rfl, hwork.le⟩
  | stored | consumer | consume | configure => exact ⟨best, hbest, le_rfl⟩

theorem tipWork_step {st st' : State} {l : Label} {best : BestTip} (hd : ChainData st.storage)
    (hbest : st.storage.bestTip = some best) (hs : step C st l = some st') :
    ∃ best', st'.storage.bestTip = some best' ∧ best.chainwork ≤ best'.chainwork := by
  cases l with
  | invoke auth c =>
    cases hs
    rcases invoke_cases C auth st.ledger st.storage c with he | he
    · exact ⟨best, by rw [← hbest]; exact congrArg _ he, le_rfl⟩
    · exact he.tipWork hd hbest
  | advance l =>
    simp only [step] at hs
    split_ifs at hs
    cases hs
    exact ⟨best, hbest, le_rfl⟩

/-- Before the checkpoint there is no tip. -/
theorem Deployed.bestTip {st : State} (h : Deployed st) : st.storage.bestTip = none := by
  obtain ⟨admin, powLimitBits, headerTtl, consumedTtl, h⟩ := h
  simp only [construct, bind_eq_ok, failIf_eq_ok] at h
  obtain ⟨_, -, _, -, h⟩ := h
  rw [← Except.ok.inj h]

/-- In every run none of whose lists has a header heavier than both the best tip and its last
header, no stored header has more work than the best tip; and no step takes work from the tip. -/
theorem best_tip_most_work {st : State} {cp : Checkpoint}
    (h : Runs.Via (system C) (LastHeaviest C) st) (hcp : st.storage.checkpoint = some cp) :
    ∃ best, st.storage.bestTip = some best ∧
      (∀ hash e, st.storage.headers.lookup hash = some e → e.chainwork ≤ best.chainwork) ∧
      ∀ l st', (system C).step st l = some st' →
        ∃ best', st'.storage.bestTip = some best' ∧ best.chainwork ≤ best'.chainwork := by
  obtain ⟨hd, hm⟩ := h.invariant (I := fun st => ChainData st.storage ∧ MostWork st.storage)
    (fun st (h0 : Deployed st) => ⟨h0.chainData, fun best hash e hbest => by
      rw [h0.bestTip] at hbest
      cases hbest⟩)
    fun st l st' hI hp hs => ⟨hI.1.step hs, mostWork_step hI.1 hI.2 hp hs⟩
  obtain ⟨best, hbest, -⟩ := hd.set cp hcp
  exact ⟨best, hbest, fun hash e he => hm best hash e hbest he,
    fun l st' hs => tipWork_step hd hbest hs⟩

/-! ## Lists of one header -/

theorem HasWork.of_stored {hs : List (BytesN 80)} {a : BytesN 32} {w : Nat} {e : HeaderEntry}
    (h : HasWork C s hs a w) (he : s.headers.lookup a = some e) : w = e.chainwork := by
  cases h with
  | stored h => rw [Option.some.inj (h.symm.trans he)]
  | listed _ hnew => exact absurd (he.symm.trans hnew) (by simp)

/-- The work of a new header submitted alone. -/
theorem HasWork.single {header : BytesN 80} {a : BytesN 32} {w : Nat} {p : HeaderEntry}
    (h : HasWork C s [header] a w) (ha : a = hashHeader C header)
    (hnew : s.headers.lookup a = none) (hp : s.headers.lookup (prevHashOf header) = some p) :
    ∃ target, bitsToTarget (bitsOf header) = .ok target ∧
      w = p.chainwork + workFromTarget target := by
  cases h with
  | stored h => exact absurd (h.symm.trans hnew) (by simp)
  | @listed header' target w' hm _ htarget h =>
    obtain rfl := List.mem_singleton.mp hm
    exact ⟨target, htarget, by rw [h.of_stored hp]⟩

/-- A new header whose parent is stored, submitted alone, meets the condition. -/
theorem lastHeaviest_single {st : State} {header : BytesN 80}
    (hnew : st.storage.headers.lookup (hashHeader C header) = none)
    (hp : ∃ p, st.storage.headers.lookup (prevHashOf header) = some p) :
    LastHeaviest C st (.invoke auth (.submitHeaders [header])) := by
  intro best last header' w w' _ hlast hm hw hw'
  obtain rfl := List.mem_singleton.mp hm
  obtain rfl : header' = last := Option.some.inj hlast
  obtain ⟨p, hp⟩ := hp
  obtain ⟨target, htarget, rfl⟩ := hw.single rfl hnew hp
  obtain ⟨target', htarget', rfl⟩ := hw'.single rfl hnew hp
  rw [Except.ok.inj (htarget.symm.trans htarget')]
  exact le_max_right _ _

end

/-! ## On the small light client -/

/-- One header on top of the checkpoint: it is the best tip, and nothing stored has more work. -/
theorem best_tip_most_work_submitted :
    ∃ (st : State) (best : BestTip), st.storage.bestTip = some best ∧ best.chainwork = 4838420 ∧
      ∀ hash e, st.storage.headers.lookup hash = some e → e.chainwork ≤ best.chainwork := by
  obtain ⟨st, hs, hcp, htip⟩ : ∃ st,
      (system Demo.crypto).step Demo.rooted (Demo.submit [Demo.a1]) = some st ∧
        st.storage.checkpoint.isSome = true ∧
          st.storage.bestTip.map BestTip.chainwork = some 4838420 := ⟨_, rfl, by decide +kernel⟩
  obtain ⟨cp, hcp⟩ := Option.isSome_iff_exists.mp hcp
  have hrun : Runs.Via (system Demo.crypto) (LastHeaviest Demo.crypto) st :=
    ((Runs.Via.init Demo.start_deployed).step (a := Demo.setRoot) trivial Demo.setRoot_rooted).step
      (lastHeaviest_single (by decide +kernel) (Option.isSome_iff_exists.mp (by decide +kernel))) hs
  obtain ⟨best, hbest, hmost, -⟩ := best_tip_most_work hrun hcp
  rw [hbest] at htip
  exact ⟨st, best, hbest, Option.some.inj htip, hmost⟩

/-- Two headers of one branch and one of another, in one list: the tip is the last of them, and the
heavier second header is passed over. -/
theorem lighter_tip_adopted :
    ∃ st, Runs.Reachable (system Demo.crypto) st ∧
      st.storage.bestTip.map BestTip.chainwork = some 4838420 ∧
      (st.storage.headers.lookup (hashHeader Demo.crypto Demo.a2)).map HeaderEntry.chainwork
        = some 12579933 :=
  reachable_of_replay Demo.start_deployed
    [Demo.setRoot, Demo.submit [Demo.a1, Demo.a2, Demo.b1]] (by decide +kernel)

end Writz.Spv

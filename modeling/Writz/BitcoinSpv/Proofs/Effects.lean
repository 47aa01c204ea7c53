import Writz.BitcoinSpv.System

/-!
# Proofs: what a call to the light client can do

One inversion of every entry point, and of one turn of the header loop.
-/

namespace Writz.Spv

variable {C : Crypto} {auth : Auth} {ledger : Ledger} {s s' : Storage}

theorem orErr_eq_ok {α : Type} {x : Except SPVError α} {a : α} : orErr x = .ok a ↔ x = .ok a := by
  cases x <;> simp [orErr, Except.mapError]

/-! ## The header loop -/

/-- A turn of the header loop that stores a new entry under `hash`. -/
structure Accepted (C : Crypto) (headers : Store (BytesN 32) HeaderEntry) (header : BytesN 80)
    (hash : BytesN 32) (entry : HeaderEntry) : Prop where
  hash_eq : hash = hashHeader C header
  fresh : headers.lookup hash = none
  prev_eq : entry.prev = prevHashOf header
  parent : ∃ p, headers.lookup entry.prev = some p ∧ entry.height = p.height + 1 ∧
    ∃ target, bitsToTarget (bitsOf header) = .ok target ∧
      entry.chainwork = p.chainwork + workFromTarget target

theorem acceptHeader_cases {now powLimit : Nat} {headers headers' : Store (BytesN 32) HeaderEntry}
    {header : BytesN 80} {hash : BytesN 32} {entry : HeaderEntry}
    (h : acceptHeader C now powLimit headers header = .ok (headers', hash, entry)) :
    hash = hashHeader C header ∧
      ((headers.lookup hash = some entry ∧ headers' = headers) ∨
        (Accepted C headers header hash entry ∧ headers' = headers.insert hash entry)) := by
  unfold acceptHeader at h
  dsimp only at h
  split at h
  · next existing he =>
    cases h
    exact ⟨rfl, .inl ⟨he, rfl⟩⟩
  · next he =>
    simp only [bind_eq_ok, failIf_eq_ok, okOr_eq_ok, orErr_eq_ok] at h
    obtain ⟨parent, hp, _, -, height, hheight, expected, -, _, -, _, -, target, htarget, work, hwork,
      h⟩ := h
    cases h
    refine ⟨rfl, .inr ⟨⟨rfl, he, rfl, parent, hp, ?_, target, htarget, ?_⟩, rfl⟩⟩
    · unfold addU32 at hheight
      split_ifs at hheight
      exact (Option.some.inj hheight).symm
    · unfold u256 at hwork
      split_ifs at hwork
      exact (Option.some.inj hwork).symm

/-- The loop rule: what every turn keeps, the whole loop keeps. -/
theorem acceptHeaders_rule {now powLimit : Nat} {I : Store (BytesN 32) HeaderEntry → Prop}
    (hs : List (BytesN 80))
    (hstep : ∀ headers header headers' hash entry, header ∈ hs → I headers →
      acceptHeader C now powLimit headers header = .ok (headers', hash, entry) → I headers') :
    ∀ {headers headers' last last'}, I headers →
      acceptHeaders C now powLimit hs headers last = .ok (headers', last') → I headers' := by
  induction hs with
  | nil =>
    intro headers headers' last last' hI h
    cases h
    exact hI
  | cons header rest ih =>
    intro headers headers' last last' hI h
    rw [acceptHeaders, bind_eq_ok] at h
    obtain ⟨⟨headers₁, hash, entry⟩, h₁, h⟩ := h
    have hI₁ : I headers₁ := hstep _ _ _ _ _ List.mem_cons_self hI h₁
    exact ih (fun _ _ _ _ _ hm => hstep _ _ _ _ _ (List.mem_cons_of_mem _ hm)) hI₁ h

/-- The loop rule on the entries added. -/
theorem acceptHeaders_induct {now powLimit : Nat} {I : Store (BytesN 32) HeaderEntry → Prop}
    (hs : List (BytesN 80))
    (hstep : ∀ headers header hash entry, header ∈ hs → I headers →
      Accepted C headers header hash entry → I (headers.insert hash entry))
    {headers headers' : Store (BytesN 32) HeaderEntry} {last last' : Option (BytesN 32 × HeaderEntry)}
    (hI : I headers) (h : acceptHeaders C now powLimit hs headers last = .ok (headers', last')) :
    I headers' := by
  refine acceptHeaders_rule hs ?_ hI h
  intro headers header headers' hash entry hm hI h
  obtain ⟨-, ⟨-, rfl⟩ | ⟨ha, rfl⟩⟩ := acceptHeader_cases h
  · exact hI
  · exact hstep _ _ _ _ hm hI ha

/-- Stored entries are kept. -/
def Extends (headers headers' : Store (BytesN 32) HeaderEntry) : Prop :=
  ∀ hash entry, headers.lookup hash = some entry → headers'.lookup hash = some entry

theorem Extends.insert {headers headers' : Store (BytesN 32) HeaderEntry} {hash : BytesN 32}
    {entry : HeaderEntry} (h : Extends headers headers') (hnew : headers'.lookup hash = none) :
    Extends headers (headers'.insert hash entry) := by
  intro a e ha
  have hl := h a e ha
  rw [Store.lookup_insert_eq_ite, if_neg]
  · exact hl
  · rintro rfl
    rw [hnew] at hl
    cases hl

theorem acceptHeaders_extends {now powLimit : Nat} {hs : List (BytesN 80)}
    {headers headers' : Store (BytesN 32) HeaderEntry} {last last' : Option (BytesN 32 × HeaderEntry)}
    (h : acceptHeaders C now powLimit hs headers last = .ok (headers', last')) :
    Extends headers headers' :=
  acceptHeaders_induct (I := Extends headers) hs (fun _ _ _ _ _ hI ha => hI.insert ha.fresh)
    (fun _ _ h => h) h

/-- The header reported last is the last of the list, stored with its entry. -/
theorem acceptHeaders_last {now powLimit : Nat} (hs : List (BytesN 80)) :
    ∀ {headers headers' : Store (BytesN 32) HeaderEntry}
      {last last' : Option (BytesN 32 × HeaderEntry)},
      (∀ l, last = some l → headers.lookup l.1 = some l.2) →
      acceptHeaders C now powLimit hs headers last = .ok (headers', last') →
        (∀ l, last' = some l → headers'.lookup l.1 = some l.2) ∧
          ∀ header, hs.getLast? = some header → ∃ entry, last' = some (hashHeader C header, entry) := by
  induction hs with
  | nil =>
    intro headers headers' last last' hl h
    cases h
    exact ⟨hl, fun _ hh => by cases hh⟩
  | cons header rest ih =>
    intro headers headers' last last' hl h
    rw [acceptHeaders, bind_eq_ok] at h
    obtain ⟨⟨headers₁, hash, entry⟩, h₁, h⟩ := h
    obtain ⟨hhash, hcase⟩ := acceptHeader_cases h₁
    have hstored : headers₁.lookup hash = some entry := by
      obtain ⟨he, rfl⟩ | ⟨ha, rfl⟩ := hcase
      · exact he
      · rw [Store.lookup_insert_eq_ite, if_pos rfl]
    obtain ⟨h₂, h₃⟩ := ih (fun l hl => by cases hl; exact hstored) h
    refine ⟨h₂, fun header' hh => ?_⟩
    cases rest with
    | nil =>
      cases hh
      cases h
      exact ⟨entry, by rw [hhash]; rfl⟩
    | cons next rest =>
      rw [List.getLast?_cons_cons] at hh
      exact h₃ header' hh

/-! ## The calls -/

/-- The effect of a successful call. -/
inductive Effect (C : Crypto) (auth : Auth) (ledger : Ledger) (s : Storage) : Call → Storage → Prop
    where
  /-- The trust root, set once. -/
  | checkpoint {caller height blockHash bits time periodStartTime} {cp : Checkpoint}
      {root : HeaderEntry} (hnone : s.checkpoint = none) (hhash : cp.blockHash = blockHash)
      (hcp : cp.height = height) (hheight : root.height = height) (hwork : root.chainwork = 0) :
      Effect C auth ledger s (.setCheckpoint caller height blockHash bits time periodStartTime)
        { s with
          checkpoint := some cp
          headers := s.headers.insert blockHash root
          canonical := s.canonical.insert height blockHash
          bestTip := some { hash := blockHash, height, chainwork := 0 } }
  /-- Headers stored, the best tip kept. -/
  | stored {hs : List (BytesN 80)} {config : Config} {cp : Checkpoint} {powLimit : Nat}
      {headers : Store (BytesN 32) HeaderEntry} {hash : BytesN 32} {entry : HeaderEntry}
      {best : BestTip} (hc : s.config = some config) (hcp : s.checkpoint = some cp) (hne : hs ≠ [])
      (hheaders : acceptHeaders C ledger.timestamp powLimit hs s.headers none
        = .ok (headers, some (hash, entry)))
      (hbest : s.bestTip = some best) (hwork : entry.chainwork ≤ best.chainwork) :
      Effect C auth ledger s (.submitHeaders hs) { s with headers := headers }
  /-- Headers stored, the last one the new best tip. -/
  | adopted {hs : List (BytesN 80)} {config : Config} {cp : Checkpoint} {powLimit : Nat}
      {headers : Store (BytesN 32) HeaderEntry} {hash : BytesN 32} {entry : HeaderEntry}
      {best : BestTip} {canonical : Store Nat (BytesN 32)}
      (hc : s.config = some config) (hcp : s.checkpoint = some cp) (hne : hs ≠ [])
      (hheaders : acceptHeaders C ledger.timestamp powLimit hs s.headers none
        = .ok (headers, some (hash, entry)))
      (hbest : s.bestTip = some best) (hwork : best.chainwork < entry.chainwork)
      (hcanonical : rewriteCanonical headers MAX_REORG_DEPTH s.canonical hash entry
        = .ok canonical) :
      Effect C auth ledger s (.submitHeaders hs)
        { s with
          headers := headers
          canonical := canonical
          bestTip := some { hash, height := entry.height, chainwork := entry.chainwork } }
  /-- A consumer registered or removed. -/
  | consumer {caller consumer : Address} {allowed : Bool} :
      Effect C auth ledger s (.setConsumer caller consumer allowed)
        { s with consumers := s.consumers.insert consumer allowed }
  /-- A deposit consumed by a registered consumer, for the first time. -/
  | consume {consumer : Address} {txid : BytesN 32} (hauth : auth consumer = true)
      (hnew : s.consumed.lookup txid = none) :
      Effect C auth ledger s (.consumeDeposit consumer txid)
        { s with consumed := s.consumed.insert txid true }
  /-- A configuration change. -/
  | configure {c : Call} {config config' : Config} (hc : s.config = some config)
      (hcall : ∀ hs, c ≠ .submitHeaders hs) :
      Effect C auth ledger s c { s with config := some config' }

theorem requireAdmin_eq_ok {caller : Address} {config : Config}
    (h : requireAdmin auth s caller = .ok config) : s.config = some config := by
  simp only [requireAdmin, bind_eq_ok, failIf_eq_ok, okOr_eq_ok] at h
  obtain ⟨_, -, config', hc, _, -, h⟩ := h
  cases h
  exact hc

theorem submitHeaders_effect {hs : List (BytesN 80)} {height : Nat}
    (h : submitHeaders C auth ledger s hs = .ok (height, s')) :
    Effect C auth ledger s (.submitHeaders hs) s' := by
  simp only [submitHeaders, bind_eq_ok, failIf_eq_ok, okOr_eq_ok, orErr_eq_ok] at h
  obtain ⟨config, hc, cp, hcp, _, -, _, hne, _, -, powLimit, -, ⟨headers, last⟩, hheaders,
    ⟨hash, entry⟩, hlast, best, hbest, h⟩ := h
  obtain rfl : last = some (hash, entry) := hlast
  unfold adoptTip at h
  split_ifs at h with hwork
  · rw [bind_eq_ok] at h
    obtain ⟨canonical, hcanonical, h⟩ := h
    cases h
    exact .adopted hc hcp hne hheaders hbest hwork hcanonical
  · cases h
    exact .stored hc hcp hne hheaders hbest (not_lt.mp hwork)

/-- A successful call has one of the effects. -/
theorem exec_effect {c : Call} (h : exec C auth ledger s c = .ok s') :
    Effect C auth ledger s c s' := by
  cases c with
  | setCheckpoint caller height blockHash bits time periodStartTime =>
    simp only [exec, setCheckpoint, bind_eq_ok, failIf_eq_ok, orErr_eq_ok] at h
    obtain ⟨config, -, _, hnone, target, -, powLimit, -, _, -, h⟩ := h
    cases h
    rw [Option.isSome_iff_ne_none, not_not] at hnone
    exact .checkpoint hnone rfl rfl rfl rfl
  | setConsumer caller consumer allowed =>
    simp only [exec, setConsumer, bind_eq_ok] at h
    obtain ⟨config, -, h⟩ := h
    cases h
    exact .consumer
  | consumeDeposit consumer txid =>
    simp only [exec, consumeDeposit, requireAuth, bind_eq_ok, failIf_eq_ok, okOr_eq_ok] at h
    obtain ⟨_, hauth, config, -, _, -, _, hnew, h⟩ := h
    cases h
    refine .consume (by simpa using hauth) ?_
    simpa [isConsumed, Option.isSome_iff_ne_none] using hnew
  | setSubmitter caller submitter =>
    simp only [exec, setSubmitter, bind_eq_ok] at h
    obtain ⟨config, hc, h⟩ := h
    cases h
    exact .configure (requireAdmin_eq_ok hc) (by simp)
  | setTtls caller headerTtlLedgers consumedTtlLedgers =>
    simp only [exec, setTtls, bind_eq_ok, failIf_eq_ok] at h
    obtain ⟨config, hc, _, -, h⟩ := h
    cases h
    exact .configure (requireAdmin_eq_ok hc) (by simp)
  | setAdmin caller newAdmin =>
    simp only [exec, setAdmin, bind_eq_ok] at h
    obtain ⟨config, hc, h⟩ := h
    cases h
    exact .configure (requireAdmin_eq_ok hc) (by simp)
  | submitHeaders hs =>
    obtain ⟨⟨height, s₁⟩, hs₁, rfl⟩ := map_eq_ok.mp h
    exact submitHeaders_effect hs₁

/-- The storage an invocation leaves is the storage before it or the effect of its call. -/
theorem invoke_cases (C : Crypto) (auth : Auth) (ledger : Ledger) (s : Storage) (c : Call) :
    invoke C auth ledger s c = s ∨ Effect C auth ledger s c (invoke C auth ledger s c) := by
  unfold invoke
  split
  · next s' h => exact .inr (exec_effect h)
  · exact .inl rfl

/-- What a deployment establishes and every successful call keeps holds of the storage in every
reachable state. -/
theorem storage_of_reachable {I : Storage → Prop} (hinit : ∀ st, Deployed st → I st.storage)
    (hexec : ∀ auth ledger s c s', I s → exec C auth ledger s c = .ok s' → I s') {st : State}
    (h : Runs.Reachable (system C) st) : I st.storage := by
  refine h.invariant (I := fun st => I st.storage) hinit fun st l st' hI _ hs => ?_
  change step C st l = some st' at hs
  cases l with
  | invoke auth c =>
    cases hs
    change I (invoke C auth st.ledger st.storage c)
    unfold invoke
    split
    · next s' h' => exact hexec _ _ _ _ _ hI h'
    · exact hI
  | advance l =>
    simp only [step] at hs
    split_ifs at hs
    cases hs
    exact hI

end Writz.Spv

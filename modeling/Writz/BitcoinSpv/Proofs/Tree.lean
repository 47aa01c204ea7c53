import Writz.BitcoinSpv.Proofs.Chain
import Writz.BitcoinSpv.Proofs.Difficulty
import Writz.BitcoinSpv.Deployment

/-!
# Proofs: the header tree

What `submit_headers` checks of a header given its parent, as a relation of the two; the invariant
that every stored header has it with its stored parent, down to the checkpoint; and what follows for
the whole branch of a header: its targets stay below the limit, its work grows, and it carries the
time of the first block of its difficulty period.
-/

namespace Writz.Spv

open Lineage

/-! ## A header and its parent -/

/-- The bits Bitcoin's rule asks of a header at `height` above `parent`: the parent's own within a
difficulty period, and the retargeted ones at its start. -/
def requiredBits (powLimit : Nat) (parent : HeaderEntry) (parentTarget height : Nat) : Nat :=
  if height % RETARGET_INTERVAL = 0 then
    let timespan := clampTimespan ((parent.time : Int) - parent.periodStartTime)
    targetToBits (min (parentTarget * timespan.toNat / TARGET_TIMESPAN.toNat) powLimit)
  else
    parent.bits

/-- What is checked of an entry `e` stored under `hash`, given its parent's entry. -/
structure Child (C : Crypto) (powLimit : Nat) (parent : HeaderEntry) (hash : BytesN 32)
    (e : HeaderEntry) : Prop where
  header : ∃ raw : BytesN 80, hashHeader C raw = hash ∧ prevHashOf raw = e.prev ∧
    merkleRootOf raw = e.merkleRoot ∧ bitsOf raw = e.bits ∧ timeOf raw = e.time
  height : e.height = parent.height + 1
  bits : expectedBits parent e.height powLimit = .ok e.bits
  work : ∃ target, bitsToTarget e.bits = .ok target ∧ hashAsU256 hash < target ∧
    e.chainwork = parent.chainwork + workFromTarget target
  chainwork_lt : e.chainwork < 2 ^ 256
  periodStartTime : e.periodStartTime =
    if e.height % RETARGET_INTERVAL = 0 then e.time else parent.periodStartTime

variable {C : Crypto}

theorem validateProofOfWork_eq_ok {header : BytesN 80} {u : Unit} :
    validateProofOfWork C header = .ok u ↔ ∃ target, bitsToTarget (bitsOf header) = .ok target ∧
      hashAsU256 (hashHeader C header) < target := by
  unfold validateProofOfWork
  cases bitsToTarget (bitsOf header) with
  | error e => simp [bind, Except.bind]
  | ok target => simp [bind, Except.bind]

/-- A turn of the header loop finds the header stored or stores it as a child of a stored header. -/
theorem acceptHeader_child {now powLimit : Nat} {headers headers' : Store (BytesN 32) HeaderEntry}
    {header : BytesN 80} {hash : BytesN 32} {entry : HeaderEntry}
    (h : acceptHeader C now powLimit headers header = .ok (headers', hash, entry)) :
    headers' = headers ∨ (headers.lookup hash = none ∧ headers' = headers.insert hash entry ∧
      ∃ parent, headers.lookup entry.prev = some parent ∧ Child C powLimit parent hash entry) := by
  unfold acceptHeader at h
  dsimp only at h
  split at h
  · cases h
    exact .inl rfl
  · next hnew =>
    simp only [bind_eq_ok, failIf_eq_ok, okOr_eq_ok, orErr_eq_ok, not_not] at h
    obtain ⟨parent, hparent, _, hpow, height, hheight, expected, hbits, _, rfl, _, -, target, htarget,
      work, hwork, h⟩ := h
    obtain ⟨target', htarget', hhash⟩ := validateProofOfWork_eq_ok.mp hpow
    obtain rfl : target = target' := Except.ok.inj (htarget.symm.trans htarget')
    unfold addU32 at hheight
    unfold u256 at hwork
    split_ifs at hheight hwork with hu32 hu256
    cases hheight
    cases hwork
    cases h
    exact .inr ⟨hnew, rfl, parent, hparent,
      { header := ⟨header, rfl, rfl, rfl, rfl, rfl⟩
        height := rfl
        bits := hbits
        work := ⟨target, htarget, hhash, rfl⟩
        chainwork_lt := hu256
        periodStartTime := rfl }⟩

/-! ## The invariant -/

/-- The stored headers are a tree on the checkpoint. -/
structure Tree (C : Crypto) (headers : Store (BytesN 32) HeaderEntry) (cp : Checkpoint)
    (powLimit : Nat) : Prop where
  root : ∃ r, headers.lookup cp.blockHash = some r ∧ r.height = cp.height ∧
    r.periodStartTime = cp.periodStartTime
  target : ∀ hash e, headers.lookup hash = some e →
    ∃ target, bitsToTarget e.bits = .ok target ∧ target ≤ powLimit
  child : ∀ hash e, headers.lookup hash = some e → hash ≠ cp.blockHash →
    ∃ parent, headers.lookup e.prev = some parent ∧ Child C powLimit parent hash e

/-- The proof-of-work limit is a target, and the stored headers are a tree once the checkpoint is
set. -/
def TreeData (C : Crypto) (s : Storage) : Prop :=
  ∃ config powLimit, s.config = some config ∧ bitsToTarget config.powLimitBits = .ok powLimit ∧
    ∀ cp, s.checkpoint = some cp → Tree C s.headers cp powLimit

section Invariant

variable {auth : Auth} {ledger : Ledger} {s s' : Storage} {cp : Checkpoint} {powLimit : Nat}
  {headers headers' : Store (BytesN 32) HeaderEntry}

/-- A child's target is within the limit if its parent's is. -/
theorem Child.target_le {parent e : HeaderEntry} {hash : BytesN 32} {target parentTarget : Nat}
    (h : Child C powLimit parent hash e) (hlimit : powLimit < 2 ^ 256)
    (hp : bitsToTarget parent.bits = .ok parentTarget) (hle : parentTarget ≤ powLimit)
    (ht : bitsToTarget e.bits = .ok target) : target ≤ powLimit :=
  expectedBits_le hlimit hp hle h.bits ht

theorem Tree.insert (h : Tree C headers cp powLimit) (hlimit : powLimit < 2 ^ 256)
    {parent entry : HeaderEntry} {hash : BytesN 32} (hnew : headers.lookup hash = none)
    (hparent : headers.lookup entry.prev = some parent)
    (hchild : Child C powLimit parent hash entry) :
    Tree C (headers.insert hash entry) cp powLimit := by
  have hext : Extends headers (headers.insert hash entry) := Extends.insert (fun _ _ h => h) hnew
  refine ⟨?_, ?_, ?_⟩
  · obtain ⟨r, hr, hfields⟩ := h.root
    exact ⟨r, hext _ _ hr, hfields⟩
  · intro a e he
    rw [Store.lookup_insert_eq_ite] at he
    split_ifs at he
    · cases he
      obtain ⟨parentTarget, hp, hle⟩ := h.target _ _ hparent
      obtain ⟨target, ht, -⟩ := hchild.work
      exact ⟨target, ht, hchild.target_le hlimit hp hle ht⟩
    · exact h.target a e he
  · intro a e he hne
    rw [Store.lookup_insert_eq_ite] at he
    split_ifs at he with ha
    · cases he
      rw [ha]
      exact ⟨parent, hext _ _ hparent, hchild⟩
    · obtain ⟨p, hp, hc⟩ := h.child a e he hne
      exact ⟨p, hext _ _ hp, hc⟩

theorem acceptHeaders_tree {now : Nat} {hs : List (BytesN 80)}
    {last last' : Option (BytesN 32 × HeaderEntry)} (h : Tree C headers cp powLimit)
    (hlimit : powLimit < 2 ^ 256)
    (ha : acceptHeaders C now powLimit hs headers last = .ok (headers', last')) :
    Tree C headers' cp powLimit := by
  refine acceptHeaders_rule (I := fun headers => Tree C headers cp powLimit) hs ?_ h ha
  intro headers header headers' hash entry _ hI haccept
  obtain rfl | ⟨hnew, rfl, parent, hparent, hchild⟩ := acceptHeader_child haccept
  · exact hI
  · exact hI.insert hlimit hnew hparent hchild

/-- What `submit_headers` does to the stored headers. -/
theorem submitHeaders_headers {hs : List (BytesN 80)} {height : Nat}
    (h : submitHeaders C auth ledger s hs = .ok (height, s')) :
    ∃ config powLimit last, s.config = some config ∧
      bitsToTarget config.powLimitBits = .ok powLimit ∧
      acceptHeaders C ledger.timestamp powLimit hs s.headers none = .ok (s'.headers, last) ∧
      s'.config = s.config ∧ s'.checkpoint = s.checkpoint := by
  simp only [submitHeaders, bind_eq_ok, failIf_eq_ok, okOr_eq_ok, orErr_eq_ok] at h
  obtain ⟨config, hc, cp, -, _, -, _, -, _, -, powLimit, hlimit, ⟨headers, last⟩, hheaders,
    ⟨hash, entry⟩, -, best, -, h⟩ := h
  unfold adoptTip at h
  split_ifs at h
  · rw [bind_eq_ok] at h
    obtain ⟨canonical, -, h⟩ := h
    cases h
    exact ⟨config, powLimit, last, hc, hlimit, hheaders, rfl, rfl⟩
  · cases h
    exact ⟨config, powLimit, last, hc, hlimit, hheaders, rfl, rfl⟩

theorem setCheckpoint_treeData {caller : Address} {height bits time periodStartTime : Nat}
    {blockHash : BytesN 32} (hd : ChainData s)
    (h : setCheckpoint auth ledger s caller height blockHash bits time periodStartTime = .ok s') :
    TreeData C s' := by
  simp only [setCheckpoint, bind_eq_ok, failIf_eq_ok, orErr_eq_ok] at h
  obtain ⟨config, hc, _, hnone, target, htarget, powLimit, hlimit, _, hle, h⟩ := h
  rw [Option.isSome_iff_ne_none, not_not] at hnone
  have hempty : s.headers = ∅ := (hd.unset hnone).1
  cases h
  refine ⟨config, powLimit, requireAdmin_eq_ok hc, hlimit, fun cp hcp => ?_⟩
  cases hcp
  refine ⟨⟨_, by rw [Store.lookup_insert_eq_ite, if_pos rfl], rfl, rfl⟩, fun hash e he => ?_,
    fun hash e he hne => ?_⟩
  · rw [Store.lookup_insert_eq_ite, hempty] at he
    split_ifs at he
    · cases he
      exact ⟨target, htarget, not_lt.mp fun hlt => hle (.inl hlt)⟩
    · simp at he
  · rw [Store.lookup_insert_eq_ite, hempty] at he
    split_ifs at he with ha
    · exact absurd ha hne
    · simp at he

/-- A call keeps the tree. -/
theorem TreeData.exec {c : Call} (hd : ChainData s) (ht : TreeData C s)
    (h : exec C auth ledger s c = .ok s') : TreeData C s' := by
  obtain ⟨config₀, powLimit, hc₀, hlimit, htree⟩ := id ht
  -- the admin calls write a configuration with the same proof-of-work limit
  have hconfig : ∀ {caller : Address} {config : Config}, requireAdmin auth s caller = .ok config →
      bitsToTarget config.powLimitBits = .ok powLimit := by
    intro caller config hadmin
    obtain rfl : config₀ = config := Option.some.inj (hc₀.symm.trans (requireAdmin_eq_ok hadmin))
    exact hlimit
  cases c with
  | setCheckpoint caller height blockHash bits time periodStartTime => exact setCheckpoint_treeData hd h
  | setConsumer caller consumer allowed =>
    simp only [Spv.exec, Spv.setConsumer, bind_eq_ok] at h
    obtain ⟨config, -, h⟩ := h
    cases h
    exact ht
  | consumeDeposit consumer txid =>
    simp only [Spv.exec, Spv.consumeDeposit, requireAuth, bind_eq_ok, failIf_eq_ok, okOr_eq_ok] at h
    obtain ⟨_, -, config, -, _, -, _, -, h⟩ := h
    cases h
    exact ht
  | setSubmitter caller submitter =>
    simp only [Spv.exec, Spv.setSubmitter, bind_eq_ok] at h
    obtain ⟨config, hadmin, h⟩ := h
    cases h
    have hsame := hconfig hadmin
    exact ⟨_, powLimit, rfl, hsame, htree⟩
  | setTtls caller headerTtlLedgers consumedTtlLedgers =>
    simp only [Spv.exec, Spv.setTtls, bind_eq_ok, failIf_eq_ok] at h
    obtain ⟨config, hadmin, _, -, h⟩ := h
    cases h
    have hsame := hconfig hadmin
    exact ⟨_, powLimit, rfl, hsame, htree⟩
  | setAdmin caller newAdmin =>
    simp only [Spv.exec, Spv.setAdmin, bind_eq_ok] at h
    obtain ⟨config, hadmin, h⟩ := h
    cases h
    have hsame := hconfig hadmin
    exact ⟨_, powLimit, rfl, hsame, htree⟩
  | submitHeaders hs =>
    obtain ⟨⟨height, s₁⟩, hs₁, rfl⟩ := map_eq_ok.mp h
    obtain ⟨config, powLimit', last, hc, hlimit', hheaders, hcfg, hcp⟩ := submitHeaders_headers hs₁
    obtain rfl : config₀ = config := Option.some.inj (hc₀.symm.trans hc)
    obtain rfl : powLimit = powLimit' := Except.ok.inj (hlimit.symm.trans hlimit')
    refine ⟨config₀, powLimit, hcfg.trans hc, hlimit, fun cp hcp' => ?_⟩
    exact acceptHeaders_tree (htree cp (hcp.symm.trans hcp')) (bitsToTarget_lt hlimit) hheaders

theorem Deployed.treeData {st : State} (h : Deployed st) : TreeData C st.storage := by
  obtain ⟨admin, powLimitBits, headerTtl, consumedTtl, h⟩ := h
  simp only [construct, bind_eq_ok, failIf_eq_ok] at h
  obtain ⟨powLimit, hlimit, _, -, h⟩ := h
  rw [← Except.ok.inj h]
  refine ⟨_, powLimit, rfl, ?_, fun cp hcp => by cases hcp⟩
  cases hb : bitsToTarget powLimitBits with
  | error e =>
    rw [hb] at hlimit
    cases hlimit
  | ok target =>
    rw [hb] at hlimit
    cases hlimit
    rfl

theorem treeData_of_reachable {st : State} (h : Runs.Reachable (system C) st) :
    ChainData st.storage ∧ TreeData C st.storage := by
  refine storage_of_reachable (I := fun s => ChainData s ∧ TreeData C s)
    (fun st h0 => ⟨h0.chainData, h0.treeData⟩) (fun auth ledger s c s' hI hexec => ?_) h
  exact ⟨(exec_effect hexec).chainData hI.1, hI.2.exec hI.1 hexec⟩

end Invariant

/-! ## The branch of a header -/

section Branch

variable {headers : Store (BytesN 32) HeaderEntry} {cp : Checkpoint} {powLimit : Nat}

/-- Above the checkpoint a header is not the checkpoint. -/
theorem Tree.ne_root (h : Tree C headers cp powLimit) {hash : BytesN 32} {e : HeaderEntry}
    (he : headers.lookup hash = some e) (habove : cp.height < e.height) : hash ≠ cp.blockHash := by
  rintro rfl
  obtain ⟨r, hr, hheight, -⟩ := h.root
  rw [hr] at he
  cases he
  omega

theorem parentIn_eq {hash : BytesN 32} {e : HeaderEntry} (he : headers.lookup hash = some e) :
    parentIn headers hash = some e.prev := by
  rw [parentIn, he]
  rfl

/-- The branch of a header leads to the checkpoint. -/
theorem Tree.reaches (h : Tree C headers cp powLimit) (hl : Linked headers cp) (n : Nat) :
    ∀ {hash : BytesN 32} {e : HeaderEntry}, headers.lookup hash = some e →
      e.height = cp.height + n → up (parentIn headers) n hash = some cp.blockHash := by
  induction n with
  | zero =>
    intro hash e he hheight
    rw [up_zero, hl.height_eq he hheight]
  | succ n ih =>
    intro hash e he hheight
    obtain ⟨p, hp, hc⟩ := h.child hash e he (h.ne_root he (by omega))
    have hup := hc.height
    rw [up_succ (parentIn_eq he)]
    exact ih hp (by omega)

/-- It does not reach the checkpoint before. -/
theorem Tree.not_before (h : Tree C headers cp powLimit) (hl : Linked headers cp) {n : Nat}
    {hash : BytesN 32} {e : HeaderEntry} (he : headers.lookup hash = some e)
    (hn : n < e.height - cp.height) : up (parentIn headers) n hash ≠ some cp.blockHash := by
  intro hup
  obtain ⟨e', he', hheight⟩ := hl.up_height n he (by omega) hup
  exact h.ne_root he' (by omega) rfl

/-- Within a period that starts above the checkpoint, a header carries the time of its first block. -/
theorem Tree.periodStart_above (h : Tree C headers cp powLimit) (n : Nat) :
    ∀ {hash : BytesN 32} {e : HeaderEntry}, headers.lookup hash = some e →
      e.height % RETARGET_INTERVAL = n → cp.height + n < e.height →
        ∃ a x, up (parentIn headers) n hash = some a ∧ headers.lookup a = some x ∧
          x.height = e.height - n ∧ e.periodStartTime = x.time := by
  induction n with
  | zero =>
    intro hash e he hmod habove
    obtain ⟨p, hp, hc⟩ := h.child hash e he (h.ne_root he (by omega))
    have hperiod := hc.periodStartTime
    rw [if_pos hmod] at hperiod
    exact ⟨hash, e, rfl, he, rfl, hperiod⟩
  | succ n ih =>
    intro hash e he hmod habove
    obtain ⟨p, hp, hc⟩ := h.child hash e he (h.ne_root he (by omega))
    have hup := hc.height
    have hperiod := hc.periodStartTime
    rw [if_neg (by omega)] at hperiod
    have hmod' : p.height % RETARGET_INTERVAL = n := by
      unfold RETARGET_INTERVAL at hmod ⊢
      omega
    obtain ⟨a, x, ha, hx, hheight, htime⟩ := ih hp hmod' (by omega)
    refine ⟨a, x, ?_, hx, by omega, hperiod.trans htime⟩
    rw [up_succ (parentIn_eq he)]
    exact ha

/-- Within the checkpoint's period, a header carries the checkpoint's. -/
theorem Tree.periodStart_root (h : Tree C headers cp powLimit) (hl : Linked headers cp) (n : Nat) :
    ∀ {hash : BytesN 32} {e : HeaderEntry}, headers.lookup hash = some e →
      e.height = cp.height + n → e.height - e.height % RETARGET_INTERVAL ≤ cp.height →
        e.periodStartTime = cp.periodStartTime := by
  induction n with
  | zero =>
    intro hash e he hheight _
    obtain rfl := hl.height_eq he hheight
    obtain ⟨r, hr, -, htime⟩ := h.root
    obtain rfl : r = e := Option.some.inj (hr.symm.trans he)
    exact htime
  | succ n ih =>
    intro hash e he hheight hle
    obtain ⟨p, hp, hc⟩ := h.child hash e he (h.ne_root he (by omega))
    have hup := hc.height
    have hperiod := hc.periodStartTime
    rw [if_neg (by omega)] at hperiod
    rw [hperiod]
    refine ih hp (by omega) ?_
    unfold RETARGET_INTERVAL at hle ⊢
    omega

end Branch

/-! ## Every stored header -/

/-- The consensus facts of a stored header, given its parent and its own target. -/
structure FollowsParent (C : Crypto) (powLimit : Nat) (parent : HeaderEntry) (target : Nat)
    (hash : BytesN 32) (e : HeaderEntry) : Prop where
  header : ∃ raw : BytesN 80, hashHeader C raw = hash ∧ prevHashOf raw = e.prev ∧
    merkleRootOf raw = e.merkleRoot ∧ bitsOf raw = e.bits ∧ timeOf raw = e.time
  height : e.height = parent.height + 1
  bits : expectedBits parent e.height powLimit = .ok e.bits
  /-- Where no retarget leaves 256 bits, as on mainnet and signet, the rule is exact. -/
  bits_exact : powLimit * (4 * TARGET_TIMESPAN.toNat) < 2 ^ 256 →
    ∃ parentTarget, bitsToTarget parent.bits = .ok parentTarget ∧
      e.bits = requiredBits powLimit parent parentTarget e.height
  decodes : bitsToTarget e.bits = .ok target
  target_pos : 0 < target
  target_le : target ≤ powLimit
  proofOfWork : hashAsU256 hash < target
  chainwork : e.chainwork = parent.chainwork + 2 ^ 256 / (target + 1)
  chainwork_lt : e.chainwork < 2 ^ 256
  chainwork_gt : parent.chainwork < e.chainwork

theorem clampTimespan_le (t : Int) : (clampTimespan t).toNat ≤ 4 * TARGET_TIMESPAN.toNat := by
  unfold clampTimespan TARGET_TIMESPAN
  omega

/-- Without overflow the code's rule is Bitcoin's. -/
theorem expectedBits_exact {powLimit height bits parentTarget : Nat} {parent : HeaderEntry}
    (hlimit : powLimit * (4 * TARGET_TIMESPAN.toNat) < 2 ^ 256)
    (hp : bitsToTarget parent.bits = .ok parentTarget) (hle : parentTarget ≤ powLimit)
    (h : expectedBits parent height powLimit = .ok bits) :
    bits = requiredBits powLimit parent parentTarget height := by
  unfold expectedBits at h
  unfold requiredBits
  by_cases hboundary : height % RETARGET_INTERVAL = 0
  · rw [if_neg (not_not.mpr hboundary), hp] at h
    rw [if_pos hboundary]
    cases h
    have hspan := clampTimespan_le ((parent.time : Int) - parent.periodStartTime)
    have hprod := (Nat.mul_le_mul hle hspan).trans_lt hlimit
    exact congrArg targetToBits (retarget_eq_min hprod)
  · rw [if_pos hboundary] at h
    rw [if_neg hboundary]
    cases h
    rfl

theorem Tree.followsParent {headers : Store (BytesN 32) HeaderEntry} {cp : Checkpoint}
    {powLimit : Nat} (h : Tree C headers cp powLimit) (hlimit : powLimit < 2 ^ 256)
    {hash : BytesN 32} {e : HeaderEntry} (he : headers.lookup hash = some e)
    (hne : hash ≠ cp.blockHash) :
    ∃ parent target, headers.lookup e.prev = some parent ∧
      FollowsParent C powLimit parent target hash e := by
  obtain ⟨parent, hparent, hc⟩ := h.child hash e he hne
  obtain ⟨parentTarget, hp, hple⟩ := h.target _ _ hparent
  obtain ⟨target, ht, hhash, hwork⟩ := hc.work
  have hle := hc.target_le hlimit hp hple ht
  have hpos := workFromTarget_pos target
  refine ⟨parent, target, hparent,
    { header := hc.header
      height := hc.height
      bits := hc.bits
      bits_exact := fun hsmall => ⟨parentTarget, hp, expectedBits_exact hsmall hp hple hc.bits⟩
      decodes := ht
      target_pos := by omega
      target_le := hle
      proofOfWork := hhash
      chainwork := ?_
      chainwork_lt := hc.chainwork_lt
      chainwork_gt := by omega }⟩
  rw [hwork, workFromTarget_eq (hle.trans_lt hlimit)]

/-- In every reachable state with a checkpoint, each other stored header follows the consensus rules
above its stored parent, carries the start time of its difficulty period, and descends from the
checkpoint height by height. A failing submission changes nothing. -/
theorem header_tree {st : State} {cp : Checkpoint} (h : Runs.Reachable (system C) st)
    (hcp : st.storage.checkpoint = some cp) :
    ∃ config powLimit, st.storage.config = some config ∧
      bitsToTarget config.powLimitBits = .ok powLimit ∧
      (∀ hash e, st.storage.headers.lookup hash = some e → hash ≠ cp.blockHash →
        (∃ parent target, st.storage.headers.lookup e.prev = some parent ∧
          FollowsParent C powLimit parent target hash e) ∧
        (cp.height < e.height - e.height % RETARGET_INTERVAL →
          ∃ a x, up (parentIn st.storage.headers) (e.height % RETARGET_INTERVAL) hash = some a ∧
            st.storage.headers.lookup a = some x ∧
            x.height = e.height - e.height % RETARGET_INTERVAL ∧ e.periodStartTime = x.time) ∧
        (e.height - e.height % RETARGET_INTERVAL ≤ cp.height →
          e.periodStartTime = cp.periodStartTime) ∧
        cp.height < e.height ∧
        up (parentIn st.storage.headers) (e.height - cp.height) hash = some cp.blockHash ∧
        ∀ n < e.height - cp.height, up (parentIn st.storage.headers) n hash ≠ some cp.blockHash) ∧
      ∀ auth hs a, exec C auth st.ledger st.storage (.submitHeaders hs) = .error a →
        (system C).step st (.invoke auth (.submitHeaders hs)) = some st := by
  obtain ⟨hd, config, powLimit, hc, hlimit, htree⟩ := treeData_of_reachable h
  obtain ⟨best, -, hchain⟩ := hd.set cp hcp
  have hl := hchain.linked
  have ht := htree cp hcp
  refine ⟨config, powLimit, hc, hlimit, fun hash e he hne => ?_, fun auth hs a herr => ?_⟩
  · have hle := hl.height_le hash e he
    have hlt : cp.height < e.height := by
      rcases Nat.eq_or_lt_of_le hle with heq | hlt
      · exact absurd (hl.height_eq he heq.symm) hne
      · exact hlt
    refine ⟨ht.followsParent (bitsToTarget_lt hlimit) he hne, fun habove => ?_, fun hroot => ?_, hlt,
      ?_, fun n hn => ht.not_before hl he hn⟩
    · exact ht.periodStart_above _ he rfl (by omega)
    · exact ht.periodStart_root hl (e.height - cp.height) he (by omega) hroot
    · exact ht.reaches hl _ he (by omega)
  · change some { st with storage := invoke C auth st.ledger st.storage (.submitHeaders hs) } = _
    rw [invoke, herr]

/-- Two blocks above the checkpoint, the first of them the last of its period: the second starts a
period with its own time, and its bits stand for a target within the limit. -/
theorem header_tree_retargeted :
    ∃ (st : State) (e : HeaderEntry) (target : Nat),
      st.storage.headers.lookup (hashHeader Demo.crypto Demo.b2) = some e ∧ e.height = 806400 ∧
      e.bits = 0x1e00ddeb ∧ bitsToTarget e.bits = .ok target ∧
      hashAsU256 (hashHeader Demo.crypto Demo.b2) < target ∧ e.periodStartTime = e.time ∧
      up (parentIn st.storage.headers) 2 (hashHeader Demo.crypto Demo.b2)
        = some Demo.checkpointHash := by
  have hrun : ((system Demo.crypto).replay Demo.start
      [Demo.setRoot, Demo.submit [Demo.b1, Demo.b2]]).any (fun st =>
        decide (st.storage.checkpoint.map (fun cp => (cp.height, cp.blockHash))
            = some (806398, Demo.checkpointHash) ∧
          (st.storage.headers.lookup (hashHeader Demo.crypto Demo.b2)).map
            (fun e => (e.height, e.bits)) = some (806400, 0x1e00ddeb) ∧
          hashHeader Demo.crypto Demo.b2 ≠ Demo.checkpointHash)) = true := by decide +kernel
  obtain ⟨st, hst, hP⟩ := (Option.any_eq_true _ _).mp hrun
  obtain ⟨hcp, he, hne⟩ := of_decide_eq_true hP
  obtain ⟨cp, hcp, hcpEq⟩ := Option.map_eq_some_iff.mp hcp
  obtain ⟨e, he, heEq⟩ := Option.map_eq_some_iff.mp he
  obtain ⟨hcpHeight, hcpHash⟩ := Prod.mk.inj hcpEq
  obtain ⟨hheight, hbits⟩ := Prod.mk.inj heEq
  obtain ⟨config, powLimit, -, -, hall, -⟩ :=
    header_tree (Runs.Via.replay (.init Demo.start_deployed) hst) hcp
  obtain ⟨⟨parent, target, -, hf⟩, habove, -, -, hreach, -⟩ :=
    hall _ e he (by rw [hcpHash]; exact hne)
  rw [hheight, hcpHeight, hcpHash] at hreach
  obtain ⟨a, x, ha, hx, -, htime⟩ := habove (by rw [hheight, hcpHeight]; decide)
  rw [hheight] at ha
  cases ha
  obtain rfl : e = x := Option.some.inj (he.symm.trans hx)
  exact ⟨st, e, target, he, hheight, hbits, hf.decodes, hf.proofOfWork, htime, hreach⟩

end Writz.Spv

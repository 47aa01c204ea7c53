import Writz.BitcoinSpv.Proofs.Tree
import Writz.BitcoinSpv.Proofs.Work

/-!
# Proofs: following a chain

The headers of a chain that leaves the best chain at a fork, submitted in order from no later than the
block above the fork: when the last of them has more work than the best tip, it becomes the best tip, and
the canonical index holds the chain up to it.
-/

namespace Writz.Spv

/-! ## A chain and its fork -/

/-- A chain above a fork, with the entry of each block from the fork on: every header is one that the
contract accepts above the block before, at a time from `now` on, and no two blocks have the same hash. -/
structure Branch (C : Crypto) (powLimit now : Nat) (cp : Checkpoint) (block : Nat → BytesN 32)
    (header : Nat → BytesN 80) (entry : Nat → HeaderEntry) (fork tip : Nat) : Prop where
  hash : ∀ h, cp.height < h → h ≤ tip → hashHeader C (header h) = block h
  prev : ∀ h, fork < h → h ≤ tip → prevHashOf (header h) = block (h - 1)
  fields : ∀ h, fork < h → h ≤ tip → (entry h).prev = prevHashOf (header h) ∧
    (entry h).merkleRoot = merkleRootOf (header h) ∧ (entry h).bits = bitsOf (header h) ∧
    (entry h).time = timeOf (header h)
  child : ∀ h, fork < h → h ≤ tip → Child C powLimit (entry (h - 1)) (block h) (entry h)
  time : ∀ h, fork < h → h ≤ tip → timeOf (header h) ≤ saturatingAddU64 now MAX_FUTURE_DRIFT_SECS
  height_le : tip ≤ U32_MAX
  distinct : ∀ h h', cp.height ≤ h → h < h' → h' ≤ tip → block h ≠ block h'

/-- A stored header with the hash of a block above the fork is that block's, as far as it is stored. -/
def Unmistaken (headers : Store (BytesN 32) HeaderEntry) (block : Nat → BytesN 32) (header : Nat → BytesN 80)
    (fork tip : Nat) : Prop :=
  ∀ h e, fork < h → h ≤ tip → headers.lookup (block h) = some e → e.prev = prevHashOf (header h) ∧
    e.merkleRoot = merkleRootOf (header h) ∧ e.bits = bitsOf (header h) ∧ e.time = timeOf (header h)

/-- The best chain is the blocks up to `tip`, and the index holds nothing above. -/
structure Shows (s : Storage) (cp : Checkpoint) (block : Nat → BytesN 32) (tip : Nat) : Prop where
  checkpoint : s.checkpoint = some cp
  above : cp.height ≤ tip
  best : ∃ chainwork, s.bestTip = some { hash := block tip, height := tip, chainwork }
  canonical : ∀ h, cp.height ≤ h → h ≤ tip → s.canonical.lookup h = some (block h)
  clear : ∀ h, tip < h → s.canonical.lookup h = none

/-- Two chains share their blocks from the checkpoint up to the fork, and none above. -/
structure Forks (cp : Checkpoint) (old new : Nat → BytesN 32) (fork tip : Nat) : Prop where
  above : cp.height ≤ fork
  le : fork ≤ tip
  shared : ∀ h, cp.height ≤ h → h ≤ fork → old h = new h
  parted : ∀ h, fork < h → h ≤ tip → old h ≠ new h

variable {C : Crypto} {powLimit now : Nat} {cp : Checkpoint} {block : Nat → BytesN 32}
  {header : Nat → BytesN 80} {entry : Nat → HeaderEntry} {fork tip : Nat}
  {headers : Store (BytesN 32) HeaderEntry}

theorem entry_ext {e e' : HeaderEntry} (hprev : e.prev = e'.prev) (hroot : e.merkleRoot = e'.merkleRoot)
    (hheight : e.height = e'.height) (hbits : e.bits = e'.bits) (htime : e.time = e'.time)
    (hperiod : e.periodStartTime = e'.periodStartTime) (hwork : e.chainwork = e'.chainwork) : e = e' := by
  cases e
  cases e'
  simp only at hprev hroot hheight hbits htime hperiod hwork
  subst hprev hroot hheight hbits htime hperiod hwork
  rfl

/-- A header and its parent's entry say what is stored of it. -/
theorem Child.unique {parent e e' : HeaderEntry} {hash : BytesN 32} (h : Child C powLimit parent hash e)
    (h' : Child C powLimit parent hash e') (hprev : e.prev = e'.prev) (hroot : e.merkleRoot = e'.merkleRoot)
    (hbits : e.bits = e'.bits) (htime : e.time = e'.time) : e = e' := by
  have hheight : e.height = e'.height := h.height.trans h'.height.symm
  have hperiod : e.periodStartTime = e'.periodStartTime := by
    rw [h.periodStartTime, h'.periodStartTime, hheight, htime]
  have hwork : e.chainwork = e'.chainwork := by
    obtain ⟨target, htarget, -, hwork⟩ := h.work
    obtain ⟨target', htarget', -, hwork'⟩ := h'.work
    rw [hbits, htarget'] at htarget
    cases htarget
    rw [hwork, hwork']
  exact entry_ext hprev hroot hheight hbits htime hperiod hwork

namespace Branch

theorem height_eq (hb : Branch C powLimit now cp block header entry fork tip) (hfork : (entry fork).height = fork)
    (k : Nat) : ∀ {h : Nat}, h = fork + k → h ≤ tip → (entry h).height = h := by
  induction k with
  | zero =>
    rintro h rfl _
    exact hfork
  | succ k ih =>
    rintro h rfl hle
    have hparent := ih rfl (by omega)
    rw [(hb.child (fork + (k + 1)) (by omega) hle).height, show fork + (k + 1) - 1 = fork + k by omega, hparent]
    rfl

theorem chainwork_lt (hb : Branch C powLimit now cp block header entry fork tip) (k : Nat) :
    ∀ {h : Nat}, fork ≤ h → h + k + 1 ≤ tip → (entry h).chainwork < (entry (h + k + 1)).chainwork := by
  have hone : ∀ h, fork ≤ h → h + 1 ≤ tip → (entry h).chainwork < (entry (h + 1)).chainwork := by
    intro h hlo hle
    obtain ⟨target, -, -, hwork⟩ := (hb.child (h + 1) (by omega) hle).work
    have hpos := workFromTarget_pos target
    rw [Nat.add_sub_cancel] at hwork
    omega
  induction k with
  | zero =>
    intro h hlo hle
    exact hone h hlo hle
  | succ k ih =>
    intro h hlo hle
    have hfirst := ih hlo (by omega)
    exact hfirst.trans (hone (h + k + 1) (by omega) (by omega))

/-- A block above the fork that is stored is stored with its own entry. -/
theorem entry_eq (hb : Branch C powLimit now cp block header entry fork tip) (ht : Tree C headers cp powLimit)
    (hcp : cp.height ≤ fork) (hroot : block cp.height = cp.blockHash)
    (hseen : Unmistaken headers block header fork tip)
    (hfork : headers.lookup (block fork) = some (entry fork)) (k : Nat) :
    ∀ {h : Nat} {e : HeaderEntry}, h = fork + k → h ≤ tip → headers.lookup (block h) = some e → e = entry h := by
  induction k with
  | zero =>
    rintro h e rfl _ he
    exact Option.some.inj (he.symm.trans hfork)
  | succ k ih =>
    rintro h e rfl hle he
    have hne : block (fork + (k + 1)) ≠ cp.blockHash := by
      rw [← hroot]
      exact (hb.distinct cp.height _ le_rfl (by omega) hle).symm
    have hlt : fork < fork + (k + 1) := by omega
    obtain ⟨hprev, hmerkle, hbits, htime⟩ := hseen _ e hlt hle he
    obtain ⟨parent, hparent, hchild⟩ := ht.child _ e he hne
    rw [hprev, hb.prev _ hlt hle] at hparent
    obtain rfl : parent = entry (fork + (k + 1) - 1) := ih (by omega) (by omega) hparent
    obtain ⟨hprev', hmerkle', hbits', htime'⟩ := hb.fields _ hlt hle
    exact hchild.unique (hb.child _ hlt hle) (hprev.trans hprev'.symm) (hmerkle.trans hmerkle'.symm)
      (hbits.trans hbits'.symm) (htime.trans htime'.symm)

theorem mono_fork (hb : Branch C powLimit now cp block header entry fork tip) {fork' : Nat} (h : fork ≤ fork') :
    Branch C powLimit now cp block header entry fork' tip :=
  ⟨hb.hash, fun n hn => hb.prev n (h.trans_lt hn), fun n hn => hb.fields n (h.trans_lt hn),
    fun n hn => hb.child n (h.trans_lt hn), fun n hn => hb.time n (h.trans_lt hn), hb.height_le, hb.distinct⟩

end Branch

/-! ## The header loop -/

/-- The block at a height is stored, from the fork on with its own entry. -/
def Holds (headers : Store (BytesN 32) HeaderEntry) (block : Nat → BytesN 32) (entry : Nat → HeaderEntry)
    (fork h : Nat) : Prop :=
  ∃ e, headers.lookup (block h) = some e ∧ (fork ≤ h → e = entry h)

theorem Holds.extends {headers' : Store (BytesN 32) HeaderEntry} {h : Nat} (hholds : Holds headers block entry fork h)
    (hext : Extends headers headers') : Holds headers' block entry fork h := by
  obtain ⟨e, he, heq⟩ := hholds
  exact ⟨e, hext _ _ he, heq⟩

/-- Every block above the fork that is stored is stored with its own entry. -/
def Own (headers : Store (BytesN 32) HeaderEntry) (block : Nat → BytesN 32) (entry : Nat → HeaderEntry)
    (fork tip : Nat) : Prop :=
  ∀ h e, fork < h → h ≤ tip → headers.lookup (block h) = some e → e = entry h

/-- A header whose parent is stored with its own entry is accepted. -/
theorem acceptHeader_child_ok (hb : Branch C powLimit now cp block header entry fork tip) {t h : Nat} (ht : now ≤ t)
    (hcp : cp.height ≤ fork) (hlo : fork < h) (hle : h ≤ tip) (hheight : (entry h).height = h)
    (hparent : headers.lookup (block (h - 1)) = some (entry (h - 1))) (hnew : headers.lookup (block h) = none) :
    acceptHeader C t powLimit headers (header h) = .ok (headers.insert (block h) (entry h), block h, entry h) := by
  have hchild := hb.child h hlo hle
  obtain ⟨hprev, hmerkle, hbits, htime⟩ := hb.fields h hlo hle
  obtain ⟨target, htarget, hpow, hwork⟩ := hchild.work
  have hhash := hb.hash h (hcp.trans_lt hlo) hle
  rw [hbits] at htarget
  have hpow' : validateProofOfWork C (header h) = .ok () := by
    rw [validateProofOfWork_eq_ok]
    exact ⟨target, htarget, by rw [hhash]; exact hpow⟩
  have hup : (entry (h - 1)).height + 1 = h := by rw [← hchild.height, hheight]
  have hadd : addU32 (entry (h - 1)).height 1 = some h := by
    rw [addU32, hup, if_pos (hle.trans hb.height_le)]
  have hexpected : expectedBits (entry (h - 1)) h powLimit = .ok (bitsOf (header h)) := by
    have hsame := hchild.bits
    rw [hheight, hbits] at hsame
    exact hsame
  have htime' : ¬ timeOf (header h) > saturatingAddU64 t MAX_FUTURE_DRIFT_SECS := by
    have hmono : saturatingAddU64 now MAX_FUTURE_DRIFT_SECS ≤ saturatingAddU64 t MAX_FUTURE_DRIFT_SECS :=
      min_le_min_right _ (Nat.add_le_add_right ht _)
    exact not_lt.mpr ((hb.time h hlo hle).trans hmono)
  have hu256 : u256 ((entry (h - 1)).chainwork + workFromTarget target)
      = some ((entry (h - 1)).chainwork + workFromTarget target) := by
    rw [u256, ← hwork, if_pos hchild.chainwork_lt]
  have hentry : entry h =
      { prev := prevHashOf (header h)
        merkleRoot := merkleRootOf (header h)
        height := h
        bits := bitsOf (header h)
        time := timeOf (header h)
        periodStartTime :=
          if h % RETARGET_INTERVAL = 0 then timeOf (header h) else (entry (h - 1)).periodStartTime
        chainwork := (entry (h - 1)).chainwork + workFromTarget target } := by
    have hperiod := hchild.periodStartTime
    rw [hheight, htime] at hperiod
    exact entry_ext hprev hmerkle hheight hbits htime hperiod hwork
  unfold acceptHeader
  rw [hhash]
  dsimp only
  rw [hnew]
  simp only [bind_eq_ok, failIf_eq_ok, okOr_eq_ok, orErr_eq_ok]
  refine ⟨entry (h - 1), by rw [hb.prev h hlo hle]; exact hparent, (), hpow', h, hadd, bitsOf (header h), hexpected, (),
    by simp, (), htime', target, htarget, _, hu256, ?_⟩
  rw [hentry]

/-- The headers from a height on, in order. -/
def headersFrom (header : Nat → BytesN 80) (h n : Nat) : List (BytesN 80) := (List.range' h n).map header

/-- The loop over a run of the chain's headers stores each of them with its own entry. -/
theorem acceptHeaders_branch (hb : Branch C powLimit now cp block header entry fork tip) {t low : Nat} (ht : now ≤ t)
    (hcp : cp.height ≤ fork) (hheight : (entry fork).height = fork) (n : Nat) :
    ∀ {h : Nat} {headers : Store (BytesN 32) HeaderEntry} (last : Option (BytesN 32 × HeaderEntry)),
      cp.height < h → low ≤ fork → low ≤ h - 1 → h + n ≤ tip + 1 →
      (∀ m, low ≤ m → m < h → Holds headers block entry fork m) →
      (∀ m, low ≤ m → m ≤ fork → Holds headers block entry fork m) → Own headers block entry fork tip →
      ∃ headers' last', acceptHeaders C t powLimit (headersFrom header h n) headers last = .ok (headers', last') ∧
        Extends headers headers' ∧ Own headers' block entry fork tip ∧
        (∀ m, low ≤ m → m < h + n → Holds headers' block entry fork m) ∧
        (0 < n → ∃ e, last' = some (block (h + n - 1), e) ∧ headers'.lookup (block (h + n - 1)) = some e) := by
  induction n with
  | zero =>
    intro h headers last _ _ _ _ hholds hlow hown
    exact ⟨headers, last, rfl, fun _ _ he => he, hown, hholds, fun h0 => absurd h0 (lt_irrefl 0)⟩
  | succ n ih =>
    intro h headers last hh hlowfork hlowh hle hholds hlow hown
    -- one turn: the header is stored already, or its parent is
    have hturn : ∃ headers₁ e, acceptHeader C t powLimit headers (header h) = .ok (headers₁, block h, e) ∧
        Extends headers headers₁ ∧ Own headers₁ block entry fork tip ∧ headers₁.lookup (block h) = some e ∧
        Holds headers₁ block entry fork h := by
      cases hstored : headers.lookup (block h) with
      | some e =>
        have hacc : acceptHeader C t powLimit headers (header h) = .ok (headers, block h, e) := by
          unfold acceptHeader
          rw [hb.hash h hh (by omega)]
          dsimp only
          rw [hstored]
        have hholds' : Holds headers block entry fork h := by
          rcases Nat.lt_or_ge fork h with hlt | hge
          · exact ⟨e, hstored, fun _ => hown h e hlt (by omega) hstored⟩
          · exact hlow h (by omega) hge
        exact ⟨headers, e, hacc, fun _ _ he => he, hown, hstored, hholds'⟩
      | none =>
        have hlt : fork < h := by
          by_contra hge
          obtain ⟨e, he, -⟩ := hlow h (by omega) (by omega)
          rw [hstored] at he
          cases he
        obtain ⟨p, hp, hpe⟩ := hholds (h - 1) hlowh (by omega)
        rw [hpe (by omega)] at hp
        have hheight' := hb.height_eq hheight (h - fork) (h := h) (by omega) (by omega)
        have hacc := acceptHeader_child_ok hb ht hcp hlt (by omega) hheight' hp hstored
        have hself : (headers.insert (block h) (entry h)).lookup (block h) = some (entry h) := by
          rw [Store.lookup_insert_eq_ite, if_pos rfl]
        refine ⟨_, _, hacc, Extends.insert (fun _ _ he => he) hstored, fun m e hlo hm he => ?_, hself,
          entry h, hself, fun _ => rfl⟩
        rw [Store.lookup_insert_eq_ite] at he
        split_ifs at he with heq
        · cases he
          rcases Nat.lt_trichotomy m h with hmh | rfl | hmh
          · exact absurd heq (hb.distinct m h (by omega) hmh (by omega))
          · rfl
          · exact absurd heq.symm (hb.distinct h m (by omega) hmh hm)
        · exact hown m e hlo hm he
    obtain ⟨headers₁, e, hacc, hext, hown₁, hself, hholds₁⟩ := hturn
    have hholds' : ∀ m, low ≤ m → m < h + 1 → Holds headers₁ block entry fork m := by
      intro m hlo hm
      rcases Nat.lt_succ_iff_lt_or_eq.mp hm with hm | rfl
      · exact (hholds m hlo hm).extends hext
      · exact hholds₁
    obtain ⟨headers', last', hloop, hext', hown', hholds'', hlast⟩ := @ih (h + 1) headers₁ (some (block h, e)) (by omega)
      hlowfork (by omega) (by omega) hholds' (fun m hlo hm => (hlow m hlo hm).extends hext) hown₁
    refine ⟨headers', last', ?_, fun a e he => hext' _ _ (hext _ _ he), hown', fun m hlo hm => hholds'' m hlo (by omega),
      fun _ => ?_⟩
    · rw [headersFrom, List.range'_succ, List.map_cons, acceptHeaders, bind_eq_ok]
      exact ⟨_, hacc, hloop⟩
    · cases n with
      | zero =>
        cases hloop
        exact ⟨e, rfl, hself⟩
      | succ n =>
        obtain ⟨e', he', hl⟩ := hlast (Nat.succ_pos n)
        rw [show h + (n + 1 + 1) - 1 = h + 1 + (n + 1) - 1 by omega]
        exact ⟨e', he', hl⟩

/-! ## The walk -/

/-- The walk from a block above the fork re-points the index down to the fork. -/
theorem rewriteCanonical_branch {n : Nat}
    (hstored : ∀ h, fork ≤ h → h ≤ n → headers.lookup (block h) = some (entry h) ∧ (entry h).height = h)
    (hprev : ∀ h, fork < h → h ≤ n → (entry h).prev = block (h - 1)) (k : Nat) :
    ∀ (left : Nat) {h : Nat} {canonical : Store Nat (BytesN 32)}, h = fork + k → h ≤ n → k ≤ left →
      canonical.lookup fork = some (block fork) →
      (∀ m, fork < m → m ≤ h → canonical.lookup m ≠ some (block m)) →
      ∃ canonical', rewriteCanonical headers left canonical (block h) (entry h) = .ok canonical' ∧
        ∀ m, canonical'.lookup m = if fork < m ∧ m ≤ h then some (block m) else canonical.lookup m := by
  induction k with
  | zero =>
    intro left h canonical hh hn _ hfork _
    obtain rfl : h = fork := hh
    have hheight := (hstored h le_rfl hn).2
    refine ⟨canonical, ?_, fun m => ?_⟩
    · cases left with
      | zero => rw [rewriteCanonical, hheight, if_pos hfork]
      | succ left => rw [rewriteCanonical, hheight, if_pos hfork]
    · rw [if_neg (by omega)]
  | succ k ih =>
    rintro left h canonical rfl hn hleft hfork hstale
    obtain ⟨left, rfl⟩ : ∃ l, left = l + 1 := ⟨left - 1, by omega⟩
    obtain ⟨-, hheight⟩ := hstored (fork + (k + 1)) (by omega) hn
    have hne := hstale (fork + (k + 1)) (by omega) le_rfl
    have hparent := (hstored (fork + k) (by omega) (by omega)).1
    have hback : (entry (fork + (k + 1))).prev = block (fork + k) := by
      rw [hprev (fork + (k + 1)) (by omega) hn]
      rfl
    have hbelow : ∀ m, m < fork + (k + 1) →
        (canonical.insert (fork + (k + 1)) (block (fork + (k + 1)))).lookup m = canonical.lookup m := by
      intro m hm
      rw [Store.lookup_insert_eq_ite, if_neg (by omega)]
    obtain ⟨canonical', hwalk, hlookup⟩ := @ih left (fork + k)
      (canonical.insert (fork + (k + 1)) (block (fork + (k + 1)))) rfl (by omega) (by omega)
      (by rw [hbelow fork (by omega), hfork]) (fun m hlo hm => by rw [hbelow m (by omega)]; exact hstale m hlo (by omega))
    refine ⟨canonical', ?_, fun m => ?_⟩
    · rw [rewriteCanonical, hheight, if_neg hne, bind_eq_ok]
      refine ⟨entry (fork + k), by rw [okOr_eq_ok, hback]; exact hparent, ?_⟩
      rw [hback]
      exact hwalk
    · rw [hlookup m, Store.lookup_insert_eq_ite]
      by_cases hm : m = fork + (k + 1)
      · subst hm
        rw [if_neg (by omega), if_pos rfl, if_pos (by omega)]
      · rw [if_neg hm]
        by_cases hin : fork < m ∧ m ≤ fork + k
        · rw [if_pos hin, if_pos ⟨hin.1, by omega⟩]
        · rw [if_neg hin, if_neg (by omega)]

/-! ## A submission -/

/-- What a submission rests on: the best chain is known, the new chain leaves it at the fork, and what is
stored of the new chain is its own. -/
structure Poised (C : Crypto) (powLimit now : Nat) (cp : Checkpoint) (s : Storage) (old block : Nat → BytesN 32)
    (header : Nat → BytesN 80) (entry : Nat → HeaderEntry) (fork height tip : Nat) : Prop where
  chain : ChainData s
  tree : TreeData C s
  limit : ∃ config, s.config = some config ∧ bitsToTarget config.powLimitBits = .ok powLimit
  shows_old : Shows s cp old height
  forks : Forks cp old block fork height
  branch : Branch C powLimit now cp block header entry fork tip
  stored : s.headers.lookup (block fork) = some (entry fork)
  unmistaken : Unmistaken s.headers block header fork tip

namespace Poised

variable {s : Storage} {old : Nat → BytesN 32} {height : Nat}

/-- The blocks up to the fork are stored at their heights. -/
theorem recorded (h : Poised C powLimit now cp s old block header entry fork height tip) {m : Nat}
    (hlo : cp.height ≤ m) (hm : m ≤ fork) : ∃ e, s.headers.lookup (block m) = some e ∧ e.height = m := by
  obtain ⟨best, -, hchain⟩ := h.chain.set cp h.shows_old.checkpoint
  have hcanonical := h.shows_old.canonical m hlo (hm.trans h.forks.le)
  rw [h.forks.shared m hlo hm] at hcanonical
  exact hchain.recorded m _ hcanonical

theorem root (h : Poised C powLimit now cp s old block header entry fork height tip) :
    block cp.height = cp.blockHash := by
  obtain ⟨best, -, hchain⟩ := h.chain.set cp h.shows_old.checkpoint
  obtain ⟨e, he, hheight⟩ := h.recorded le_rfl h.forks.above
  exact hchain.linked.height_eq he hheight

theorem fork_height (h : Poised C powLimit now cp s old block header entry fork height tip) :
    (entry fork).height = fork := by
  obtain ⟨e, he, hheight⟩ := h.recorded h.forks.above le_rfl
  rw [h.stored] at he
  cases he
  exact hheight

theorem own (h : Poised C powLimit now cp s old block header entry fork height tip) :
    Own s.headers block entry fork tip := by
  obtain ⟨config, powLimit', hconfig, hlimit', htree⟩ := h.tree
  obtain ⟨config', hconfig', hlimit⟩ := h.limit
  obtain rfl : config = config' := Option.some.inj (hconfig.symm.trans hconfig')
  obtain rfl : powLimit' = powLimit := Except.ok.inj (hlimit'.symm.trans hlimit)
  intro m e hlo hm he
  exact h.branch.entry_eq (htree cp h.shows_old.checkpoint) h.forks.above h.root h.unmistaken h.stored (m - fork)
    (by omega) hm he

/-- A submission up to a block above the fork, no lower than the best tip and with more work, moves the best
chain to it. -/
theorem submit (h : Poised C powLimit now cp s old block header entry fork height tip) {auth : Auth} {ledger : Ledger}
    (hauth : ∀ config submitter, s.config = some config → config.submitter = some submitter → auth submitter = true)
    (htime : now ≤ ledger.timestamp) (low top : Nat) (hlow : cp.height < low) (hlow' : low ≤ fork + 1)
    (htop : fork < top) (htop' : top ≤ tip) (hheight : height ≤ top)
    (hlength : top + 1 - low ≤ MAX_HEADERS_PER_SUBMIT)
    (hwork : ∀ best, s.bestTip = some best → best.chainwork < (entry top).chainwork) :
    ∃ s', submitHeaders C auth ledger s (headersFrom header low (top + 1 - low)) = .ok (top, s') ∧
      Poised C powLimit now cp s' block block header entry top top tip ∧
      s'.bestTip = some { hash := block top, height := top, chainwork := (entry top).chainwork } ∧
      s'.config = s.config := by
  obtain ⟨config, hconfig, hlimit⟩ := h.limit
  obtain ⟨chainwork, hbest⟩ := h.shows_old.best
  have hfork := h.fork_height
  have hholds : ∀ m, cp.height ≤ m → m ≤ fork → Holds s.headers block entry fork m := by
    intro m hlo hm
    obtain ⟨e, he, -⟩ := h.recorded hlo hm
    refine ⟨e, he, fun hge => ?_⟩
    obtain rfl : m = fork := le_antisymm hm hge
    rw [h.stored] at he
    exact (Option.some.inj he).symm
  obtain ⟨headers', last, hloop, hext, hown, hall, hlast⟩ := acceptHeaders_branch h.branch htime h.forks.above hfork
    (top + 1 - low) none hlow h.forks.above (by omega) (by omega) (fun m hlo hm => hholds m hlo (by omega))
    hholds h.own
  have hlowtop : low + (top + 1 - low) = top + 1 := by omega
  rw [hlowtop] at hall hlast
  have hstored : ∀ m, fork ≤ m → m ≤ top → headers'.lookup (block m) = some (entry m) ∧ (entry m).height = m := by
    intro m hlo hm
    obtain ⟨e, he, heq⟩ := hall m (h.forks.above.trans hlo) (by omega)
    rw [heq hlo] at he
    exact ⟨he, h.branch.height_eq hfork (m - fork) (by omega) (hm.trans htop')⟩
  obtain ⟨e, rfl, he⟩ := hlast (by omega)
  obtain rfl : e = entry top := Option.some.inj (he.symm.trans (hstored top htop.le le_rfl).1)
  have hindex : s.canonical.lookup fork = some (block fork) := by
    rw [← h.forks.shared fork h.forks.above le_rfl]
    exact h.shows_old.canonical fork h.forks.above h.forks.le
  have hstale : ∀ m, fork < m → m ≤ top → s.canonical.lookup m ≠ some (block m) := by
    intro m hlo hm hsame
    rcases Nat.lt_or_ge height m with hlt | hge
    · rw [h.shows_old.clear m hlt] at hsame
      cases hsame
    · rw [h.shows_old.canonical m (h.forks.above.trans hlo.le) hge] at hsame
      exact h.forks.parted m hlo hge (Option.some.inj hsame)
  have hprev : ∀ m, fork < m → m ≤ top → (entry m).prev = block (m - 1) := by
    intro m hlo hm
    rw [(h.branch.fields m hlo (hm.trans htop')).1, h.branch.prev m hlo (hm.trans htop')]
  obtain ⟨canonical', hwalk, hlookup⟩ := rewriteCanonical_branch hstored hprev (top - fork) MAX_REORG_DEPTH
    (by omega) le_rfl (by unfold MAX_HEADERS_PER_SUBMIT at hlength; unfold MAX_REORG_DEPTH; omega) hindex hstale
  let s' : Storage :=
    { s with
      headers := headers'
      canonical := canonical'
      bestTip := some { hash := block top, height := top, chainwork := (entry top).chainwork } }
  have htopheight := (hstored top htop.le le_rfl).2
  have hne : headersFrom header low (top + 1 - low) ≠ [] := by
    intro hnil
    have hlen := congrArg List.length hnil
    simp only [headersFrom, List.length_map, List.length_range', List.length_nil] at hlen
    omega
  have hlen : (headersFrom header low (top + 1 - low)).length = top + 1 - low := by
    simp [headersFrom]
  have hsubmitter : requireSubmitter auth config = .ok () := by
    unfold requireSubmitter
    cases hs : config.submitter with
    | none => rfl
    | some submitter =>
      have hsigned := hauth config submitter hconfig hs
      simp [requireAuth, hsigned]
  have hadopt : adoptTip { s with headers := headers' } (block top) (entry top)
      { hash := old height, height, chainwork } = .ok (top, s') := by
    unfold adoptTip
    rw [if_pos (hwork _ hbest), bind_eq_ok]
    refine ⟨canonical', ?_, ?_⟩
    · exact hwalk
    · rw [htopheight]
  have hsubmit : submitHeaders C auth ledger s (headersFrom header low (top + 1 - low)) = .ok (top, s') := by
    simp only [submitHeaders, bind_eq_ok, failIf_eq_ok, okOr_eq_ok, orErr_eq_ok]
    exact ⟨config, hconfig, cp, h.shows_old.checkpoint, (), hsubmitter, (), hne, (),
      by rw [hlen]; exact not_lt.mpr hlength, powLimit, hlimit, _, hloop, _, rfl, _, hbest, hadopt⟩
  have hexec : exec C auth ledger s (.submitHeaders (headersFrom header low (top + 1 - low))) = .ok s' := by
    show (submitHeaders C auth ledger s _).map Prod.snd = .ok s'
    rw [hsubmit]
    rfl
  refine ⟨s', hsubmit, ?_, rfl, rfl⟩
  have habove : cp.height ≤ top := h.forks.above.trans htop.le
  exact
    { chain := (exec_effect hexec).chainData h.chain
      tree := h.tree.exec h.chain hexec
      limit := ⟨config, hconfig, hlimit⟩
      shows_old :=
        { checkpoint := h.shows_old.checkpoint
          above := habove
          best := ⟨_, rfl⟩
          canonical := fun m hlo hm => by
            show canonical'.lookup m = some (block m)
            rw [hlookup m]
            rcases Nat.lt_or_ge fork m with hlt | hge
            · rw [if_pos ⟨hlt, hm⟩]
            · rw [if_neg (by omega), ← h.forks.shared m hlo hge]
              exact h.shows_old.canonical m hlo (hge.trans h.forks.le)
          clear := fun m hm => by
            show canonical'.lookup m = none
            rw [hlookup m, if_neg (by omega)]
            exact h.shows_old.clear m (by omega) }
      forks := ⟨habove, le_rfl, fun _ _ _ => rfl, fun m hlo hm => absurd hm (not_le.mpr hlo)⟩
      branch := h.branch.mono_fork htop.le
      stored := (hstored top htop.le le_rfl).1
      unmistaken := fun m e hlo hm he => by
        have heq : e = entry m := hown m e (htop.trans hlo) hm he
        rw [heq]
        exact h.branch.fields m (htop.trans hlo) hm }

end Poised

end Writz.Spv

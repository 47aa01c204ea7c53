import Writz.BitcoinSpv.Deployment
import Writz.BitcoinSpv.Proofs.Follow
import Writz.Node.Digits
import Writz.Relayer.HeaderSync

/-!
# Proofs: a pass of the header sync

A pass follows Bitcoin past a reorg of up to seven blocks: each batch moves the light client's best chain
to the end of the batch, so a pass that stops early has left it on one chain or the other, and the next
pass goes on from there.
-/

namespace Writz.Relayer.HeaderSync

open Node Spv

/-! ## The batches -/

theorem batchesFrom_of_lt {toHeight maxPerSubmit start : Nat} (h : toHeight < start) :
    batchesFrom toHeight maxPerSubmit start = [] := by
  rw [batchesFrom, if_neg (by omega)]

theorem batchesFrom_of_le {toHeight maxPerSubmit start : Nat} (hpos : 0 < maxPerSubmit) (h : start ≤ toHeight) :
    batchesFrom toHeight maxPerSubmit start =
      { fromHeight := start, toHeight := min (start + maxPerSubmit - 1) toHeight }
        :: batchesFrom toHeight maxPerSubmit (start + maxPerSubmit) := by
  rw [batchesFrom, if_pos ⟨hpos, h⟩]

/-! ## The requests -/

section

variable {O : SyncEnvironment} {config : SyncSettings}

/-- No request fails, no fee is above the ceiling, and what is sent lands and is seen. -/
structure SyncEnvironment.Benign (O : SyncEnvironment) (config : SyncSettings) : Prop where
  fails : ∀ k, O.fails k = none
  fee : ∀ k, O.feeStroops k ≤ config.spvMaxFeeStroops
  outcome : ∀ k, O.outcome k = .included true

/-- A condition on the light client alone. -/
def On (I : Storage → Prop) (m : SyncState) : Prop := I m.spv

/-- Where a pass throws: something outside it has failed. -/
def Thrown (O : SyncEnvironment) (config : SyncSettings) (I : Storage → Prop) (m : SyncState) : Prop :=
  ¬ O.Benign config ∧ I m.spv

theorem request_triple (I : Storage → Prop) :
    Program.Triple (On I) (request O) (fun _ => On I) (Thrown O config I) := by
  intro m hm
  unfold request
  cases hfails : O.fails m.requests with
  | none => exact hm
  | some message =>
    refine ⟨fun hbenign => ?_, hm⟩
    rw [hbenign.fails] at hfails
    cases hfails

/-- What Esplora serves as the header of a height. -/
def headerText (O : SyncEnvironment) (height : Nat) : Text := trim (O.blockHeader (O.blockHashAtHeight height))

theorem getHeaders_triple (I : Storage → Prop) (deps : HeaderSyncDeps SyncState)
    (hdeps : deps.getHeaderHex = getHeaderHex O) (n : Nat) : ∀ height : Nat,
      Program.Triple (On I) (getHeaders deps height n)
        (fun texts m => texts = (List.range' height n).map (headerText O) ∧ On I m) (Thrown O config I) := by
  induction n with
  | zero =>
    intro height
    exact Program.Triple.pure fun m hm => ⟨rfl, hm⟩
  | succ n ih =>
    intro height
    have hheader : Program.Triple (On I) (deps.getHeaderHex height) (fun text m => text = headerText O height ∧ On I m)
        (Thrown O config I) := by
      rw [hdeps]
      refine (request_triple I).bind fun _ => (request_triple I).bind fun _ => ?_
      exact Program.Triple.pure fun m hm => ⟨rfl, hm⟩
    refine hheader.bind fun text => ?_
    intro m hm
    obtain ⟨rfl, hm⟩ := hm
    have hrest : Program.Triple (On I) (getHeaders deps (height + 1) n >>= fun headers => pure (headerText O height :: headers))
        (fun texts m => texts = (List.range' height (n + 1)).map (headerText O) ∧ On I m) (Thrown O config I) := by
      refine (ih (height + 1)).bind fun texts => Program.Triple.pure ?_
      rintro m ⟨rfl, hm⟩
      exact ⟨by rw [List.range'_succ, List.map_cons], hm⟩
    exact hrest m hm

/-- A submission that the contract accepts at every moment: it lands, or the light client is as before. -/
theorem submit_triple {I J : Storage → Prop} {texts : List Text} {headers : List (BytesN 80)}
    (htexts : headerArguments texts = .ok headers)
    (hsubmit : ∀ s k, I s → ∃ height s', Spv.submitHeaders O.crypto O.auth (O.ledger k) s headers = .ok (height, s') ∧ J s') :
    Program.Triple (On I) (submitHeadersOnChain O config texts) (fun _ => On J) (Thrown O config fun s => I s ∨ J s) := by
  have hthrown : ∀ m, Thrown O config I m → Thrown O config (fun s => I s ∨ J s) m := fun m hm => ⟨hm.1, .inl hm.2⟩
  unfold submitHeadersOnChain
  rw [htexts]
  refine Program.Triple.bind (Q := fun hs m => hs = headers ∧ On I m) (fun m hm => ⟨rfl, hm⟩) fun hs => ?_
  intro m hm
  obtain ⟨rfl, hm⟩ := hm
  refine Program.Triple.bind (P := On I) (Q := fun _ => On I)
    ((request_triple I).conseq (fun _ hm => hm) (fun _ _ hm => hm) hthrown) (fun k => ?_) m hm
  intro m hm
  obtain ⟨height, s', hs', -⟩ := hsubmit m.spv k hm
  have hfee : Program.Triple (On I) (Program.ofExcept (assertWithinFeeCeiling (O.feeStroops k) config.spvMaxFeeStroops))
      (fun _ => On I) (Thrown O config fun s => I s ∨ J s) := by
    intro m hm
    unfold Program.ofExcept assertWithinFeeCeiling failIf
    split_ifs with hover
    · exact ⟨fun hbenign => absurd (hbenign.fee k) (not_le.mpr hover), .inl hm⟩
    · exact hm
  have hland : ∀ k', Program.Triple (On I) (land O k' hs) (fun _ => On J) (Thrown O config fun s => I s ∨ J s) := by
    intro k' m hm
    obtain ⟨height, s', hs', hJ⟩ := hsubmit m.spv k' hm
    unfold land
    rw [hs']
    rcases hout : O.outcome k' with _ | seen
    · refine ⟨fun hbenign => ?_, .inl hm⟩
      rw [hbenign.outcome] at hout
      cases hout
    · cases seen with
      | true => exact hJ
      | false =>
        refine ⟨fun hbenign => ?_, .inr hJ⟩
        rw [hbenign.outcome] at hout
        cases hout
  have hsend : Program.Triple (On I)
      (Program.ofExcept (assertWithinFeeCeiling (O.feeStroops k) config.spvMaxFeeStroops) >>= fun _ =>
        request O >>= fun k' => land O k' hs) (fun _ => On J) (Thrown O config fun s => I s ∨ J s) :=
    hfee.bind fun _ => ((request_triple I).conseq (fun _ hm => hm) (fun _ _ hm => hm) hthrown).bind hland
  have hrun := hsend m hm
  -- the simulation succeeds, and leaves the state as it is
  have hsim : (Program.get >>= fun (m : SyncState) => (Program.ofExcept
      ((Spv.submitHeaders O.crypto O.auth (O.ledger k) m.spv hs).mapError SyncError.simulation) : Program SyncState SyncError _)) m
      = (.ok (height, s'), m) := by
    rw [Program.get_bind, hs']
    rfl
  rw [← Program.bind_assoc, Program.bind_of_ok hsim]
  exact hrun

/-! ## The batches of a pass -/

/-- Esplora serves a chain: the hash of its tip, and the headers above the checkpoint. -/
structure Serves (O : SyncEnvironment) (cp : Checkpoint) (block : Nat → BytesN 32) (header : Nat → BytesN 80) : Prop where
  hash : toLowerCase (trim (O.blockHashAtHeight O.tipHeight)) = internalHashToDisplayHex (block O.tipHeight).1
  header : ∀ h, cp.height < h → h ≤ O.tipHeight → Hex.decode (headerText O h) = some (header h).1

variable {cp : Checkpoint} {powLimit now : Nat} {block : Nat → BytesN 32} {header : Nat → BytesN 80}
  {entry : Nat → HeaderEntry}

theorem Serves.headerArguments (hserves : Serves O cp block header) (n : Nat) : ∀ {h : Nat}, cp.height < h →
    h + n ≤ O.tipHeight + 1 →
      HeaderSync.headerArguments ((List.range' h n).map (headerText O)) = .ok (headersFrom header h n) := by
  induction n with
  | zero =>
    intro h _ _
    rfl
  | succ n ih =>
    intro h hlo hle
    have hbytes : fromHex (headerText O h) = (header h).1 :=
      fromHex_of_decode (hserves.header h hlo (by omega))
    have hlength : (fromHex (headerText O h)).length = 80 := by rw [hbytes, (header h).2]
    have hheader : (⟨fromHex (headerText O h), hlength⟩ : BytesN 80) = header h := Subtype.ext hbytes
    rw [List.range'_succ, List.map_cons, HeaderSync.headerArguments, ih (by omega) (by omega)]
    show (if h' : (fromHex (headerText O h)).length = 80 then
      (.ok (⟨fromHex (headerText O h), h'⟩ :: headersFrom header (h + 1) n) : Except SyncError _) else .error .argument)
        = _
    rw [dif_pos hlength, hheader, headersFrom, headersFrom, List.range'_succ, List.map_cons]

/-- The light client is on the chain up to a height, and the relayer may submit to it. -/
structure At (O : SyncEnvironment) (powLimit now : Nat) (cp : Checkpoint) (block : Nat → BytesN 32)
    (header : Nat → BytesN 80) (entry : Nat → HeaderEntry) (height : Nat) (s : Storage) : Prop where
  poised : Poised O.crypto powLimit now cp s block block header entry height height O.tipHeight
  best : s.bestTip = some { hash := block height, height, chainwork := (entry height).chainwork }
  auth : ∀ config submitter, s.config = some config → config.submitter = some submitter → O.auth submitter = true

/-- Each batch of a pass past the first extends the best chain. -/
theorem At.submit (htime : ∀ k, now ≤ (O.ledger k).timestamp) {height top : Nat} {s : Storage}
    (h : At O powLimit now cp block header entry height s) (hlo : height < top) (hle : top ≤ O.tipHeight)
    (hsize : top ≤ height + MAX_HEADERS_PER_SUBMIT) (k : Nat) :
    ∃ result s', Spv.submitHeaders O.crypto O.auth (O.ledger k) s (headersFrom header (height + 1) (top - height))
        = .ok (result, s') ∧ At O powLimit now cp block header entry top s' := by
  have habove := h.poised.forks.above
  have hwork : ∀ best, s.bestTip = some best → best.chainwork < (entry top).chainwork := by
    intro best hbest
    rw [h.best] at hbest
    cases hbest
    have hlt := h.poised.branch.chainwork_lt (top - height - 1) (h := height) le_rfl (by omega)
    rwa [show height + (top - height - 1) + 1 = top by omega] at hlt
  obtain ⟨s', hs', hpoised, hbest, hconfig⟩ := h.poised.submit h.auth (htime k) (height + 1) top (by omega) le_rfl hlo hle
    hlo.le (by unfold MAX_HEADERS_PER_SUBMIT at hsize; unfold Spv.MAX_HEADERS_PER_SUBMIT; omega) hwork
  rw [show top + 1 - (height + 1) = top - height by omega] at hs'
  refine ⟨top, s', hs', hpoised, hbest, ?_⟩
  rw [hconfig]
  exact h.auth

/-- How far a pass has got where it stops. -/
def Reached (O : SyncEnvironment) (powLimit now : Nat) (cp : Checkpoint) (block : Nat → BytesN 32)
    (header : Nat → BytesN 80) (entry : Nat → HeaderEntry) (low : Nat) (s : Storage) : Prop :=
  ∃ height, low ≤ height ∧ height ≤ O.tipHeight ∧ At O powLimit now cp block header entry height s

/-- The submitting part of a pass. -/
def passDeps (O : SyncEnvironment) (config : SyncSettings) : HeaderSyncDeps SyncState where
  getHeaderHex := getHeaderHex O
  submitHeaders := submitHeadersOnChain O config

/-- A batch, from its headers to its submission. -/
theorem batch_triple (config : SyncSettings) (hserves : Serves O cp block header) {I J : Storage → Prop} {low top : Nat} (hlow : cp.height < low)
    (htop : top ≤ O.tipHeight) (hle : low ≤ top + 1)
    (hsubmit : ∀ s k, I s → ∃ result s', Spv.submitHeaders O.crypto O.auth (O.ledger k) s
      (headersFrom header low (top + 1 - low)) = .ok (result, s') ∧ J s') :
    Program.Triple (On I) (getHeaders (passDeps O config) low (top + 1 - low) >>= (passDeps O config).submitHeaders)
      (fun _ => On J) (Thrown O config fun s => I s ∨ J s) := by
  have hthrown : ∀ m, Thrown O config I m → Thrown O config (fun s => I s ∨ J s) m := fun m hm => ⟨hm.1, .inl hm.2⟩
  have hheaders := (getHeaders_triple I (passDeps O config) rfl (top + 1 - low) low).conseq
    (fun _ hm => hm) (fun _ _ hm => hm) hthrown
  refine hheaders.bind fun texts => ?_
  rintro m ⟨rfl, hm⟩
  exact submit_triple (hserves.headerArguments (top + 1 - low) hlow (by omega)) hsubmit m hm

/-- The batches from the block after the best tip on. -/
theorem rest_triple (config : SyncSettings) (hserves : Serves O cp block header) (htime : ∀ k, now ≤ (O.ledger k).timestamp) (low n : Nat) :
    ∀ (height : Nat) (last : Option Nat), low ≤ height → height + n = O.tipHeight →
      Program.Triple (On (At O powLimit now cp block header entry height))
        (submitBatches (passDeps O config) (batchesFrom O.tipHeight MAX_HEADERS_PER_SUBMIT (height + 1)) last)
        (fun _ => On (At O powLimit now cp block header entry O.tipHeight))
        (Thrown O config (Reached O powLimit now cp block header entry low)) := by
  induction n using Nat.strong_induction_on with
  | _ n ih =>
    intro height last hlow hn
    rcases Nat.eq_zero_or_pos n with rfl | hpos
    · rw [batchesFrom_of_lt (by omega)]
      intro m hm
      rw [show height = O.tipHeight by omega] at hm
      exact hm
    · have hsixteen : MAX_HEADERS_PER_SUBMIT = 16 := rfl
      obtain ⟨top, htop⟩ : ∃ top, top = min (height + 16) O.tipHeight := ⟨_, rfl⟩
      have hbatch : batchesFrom O.tipHeight MAX_HEADERS_PER_SUBMIT (height + 1) =
          { fromHeight := height + 1, toHeight := top } :: batchesFrom O.tipHeight MAX_HEADERS_PER_SUBMIT (height + 16 + 1) := by
        rw [batchesFrom_of_le (by omega) (by omega), htop, hsixteen, show height + 1 + 16 - 1 = height + 16 by omega,
          show height + 1 + 16 = height + 16 + 1 by omega]
      have hnext : batchesFrom O.tipHeight MAX_HEADERS_PER_SUBMIT (height + 16 + 1)
          = batchesFrom O.tipHeight MAX_HEADERS_PER_SUBMIT (top + 1) := by
        rcases Nat.lt_or_ge O.tipHeight (height + 16) with hlt | hge
        · rw [batchesFrom_of_lt (by omega), batchesFrom_of_lt (by omega)]
        · rw [show top = height + 16 by omega]
      rw [hbatch, hnext]
      intro m hm
      have habove := hm.poised.forks.above
      have hsubmit : ∀ s k, At O powLimit now cp block header entry height s → ∃ result s',
          Spv.submitHeaders O.crypto O.auth (O.ledger k) s (headersFrom header (height + 1) (top + 1 - (height + 1)))
            = .ok (result, s') ∧ At O powLimit now cp block header entry top s' := by
        intro s k hs
        rw [show top + 1 - (height + 1) = top - height by omega]
        exact hs.submit htime (by omega) (by omega) (by omega) k
      have hfirst := batch_triple config hserves (by omega) (by omega) (by omega) hsubmit
      have hreached : ∀ m, Thrown O config (fun s => At O powLimit now cp block header entry height s ∨
          At O powLimit now cp block header entry top s) m →
          Thrown O config (Reached O powLimit now cp block header entry low) m := by
        rintro m ⟨hbenign, hat | hat⟩
        · exact ⟨hbenign, height, hlow, by omega, hat⟩
        · exact ⟨hbenign, top, by omega, by omega, hat⟩
      have hall := (hfirst.conseq (fun _ hm => hm) (fun _ _ hm => hm) hreached).bind fun _ =>
        ih (O.tipHeight - top) (by omega) top (some top) (by omega) (by omega)
      have hrun := hall m hm
      rw [Program.bind_assoc] at hrun
      exact hrun

/-! ## A pass -/

/-- What a pass starts from, and what Bitcoin's chain is by then: its fork with the light client's best chain is
at most seven blocks down, and where there is one, the first batch has more work than the best tip. -/
structure Pass (O : SyncEnvironment) (config : SyncSettings) (s : Storage) (powLimit now : Nat) (cp : Checkpoint)
    (old block : Nat → BytesN 32) (header : Nat → BytesN 80) (entry : Nat → HeaderEntry) (fork height : Nat) : Prop where
  reachable : ∃ ledger, Runs.Reachable (Spv.system O.crypto) ⟨s, ledger⟩
  limit : ∃ c, s.config = some c ∧ bitsToTarget c.powLimitBits = .ok powLimit
  auth : ∀ c submitter, s.config = some c → c.submitter = some submitter → O.auth submitter = true
  from_checkpoint : config.spvSyncFromHeight = cp.height + 1
  shows_old : Shows s cp old height
  forks : Forks cp old block fork height
  depth : height ≤ fork + 7
  length : height ≤ O.tipHeight
  branch : Branch O.crypto powLimit now cp block header entry fork O.tipHeight
  stored : s.headers.lookup (block fork) = some (entry fork)
  unmistaken : Unmistaken s.headers block header fork O.tipHeight
  heavier : fork < height → ∀ best, s.bestTip = some best →
    best.chainwork < (entry (min (syncStartHeight config.spvSyncFromHeight (some height) + 15) O.tipHeight)).chainwork
  serves : Serves O cp block header
  time : ∀ k, now ≤ (O.ledger k).timestamp

namespace Pass

variable {s : Storage} {old : Nat → BytesN 32} {fork height : Nat}

theorem poised (h : Pass O config s powLimit now cp old block header entry fork height) :
    Poised O.crypto powLimit now cp s old block header entry fork height O.tipHeight := by
  obtain ⟨ledger, hreach⟩ := h.reachable
  obtain ⟨hchain, htree⟩ := treeData_of_reachable hreach
  exact ⟨hchain, htree, h.limit, h.shows_old, h.forks, h.branch, h.stored, h.unmistaken⟩

theorem toLowerCase_display (bs : Bytes) :
    toLowerCase (internalHashToDisplayHex bs) = internalHashToDisplayHex bs :=
  Hex.encode_of_decode (Hex.decode_encode bs.reverse)

theorem display_injective {a b : BytesN 32} (h : internalHashToDisplayHex a.1 = internalHashToDisplayHex b.1) : a = b :=
  Subtype.ext (List.reverse_injective (Hex.encode_injective h))

/-- A pass has something to store unless the two tips are one block. -/
theorem hasNewHeaders_iff (h : Pass O config s powLimit now cp old block header entry fork height) :
    hasNewHeaders { height := O.tipHeight, hash := trim (O.blockHashAtHeight O.tipHeight) }
      (some { height, hash := internalHashToDisplayHex (old height).1 }) = true ↔ fork < O.tipHeight := by
  have hfork := h.forks.le
  have hlength := h.length
  unfold hasNewHeaders
  dsimp only
  rcases Nat.lt_or_ge height O.tipHeight with hlt | hge
  · rw [if_pos hlt]
    simp only [true_iff]
    omega
  · obtain rfl : height = O.tipHeight := le_antisymm hlength hge
    rw [if_neg (lt_irrefl _), if_neg (lt_irrefl _), h.serves.hash, toLowerCase_display, decide_eq_true_eq]
    constructor
    · intro hne
      by_contra hge
      obtain rfl : fork = O.tipHeight := by omega
      exact hne (by rw [h.forks.shared _ h.forks.above le_rfl])
    · intro hlt heq
      exact h.forks.parted _ hlt le_rfl (display_injective heq).symm

/-- Where the two tips are one block, the best chain is Bitcoin's. -/
theorem shows_of_fork (h : Pass O config s powLimit now cp old block header entry fork height) (hfork : O.tipHeight ≤ fork) :
    Shows s cp block O.tipHeight := by
  have hle := h.forks.le
  have hlength := h.length
  obtain rfl : fork = O.tipHeight := by omega
  obtain rfl : height = O.tipHeight := by omega
  obtain ⟨chainwork, hbest⟩ := h.shows_old.best
  have hshared := h.forks.shared
  refine ⟨h.shows_old.checkpoint, h.shows_old.above, ⟨chainwork, ?_⟩, fun m hlo hm => ?_, h.shows_old.clear⟩
  · rw [hbest, hshared _ h.forks.above le_rfl]
  · rw [h.shows_old.canonical m hlo hm, hshared m hlo hm]

/-- The first batch of a pass takes the light client past the fork. -/
theorem first (h : Pass O config s powLimit now cp old block header entry fork height) (hnew : fork < O.tipHeight)
    {low top : Nat} (hlow : low = syncStartHeight config.spvSyncFromHeight (some height))
    (htop : top = min (low + 15) O.tipHeight) (k : Nat) :
    ∃ result s', Spv.submitHeaders O.crypto O.auth (O.ledger k) s (headersFrom header low (top + 1 - low)) = .ok (result, s') ∧
      At O powLimit now cp block header entry top s' := by
  have hdepth := h.depth
  have hlength := h.length
  have habove := h.forks.above
  have hle := h.forks.le
  have hlow' : low = max (cp.height + 1) (height - 6) := by rw [hlow, h.from_checkpoint]; rfl
  have hwork : ∀ best, s.bestTip = some best → best.chainwork < (entry top).chainwork := by
    intro best hbest
    rcases Nat.lt_or_ge fork height with hlt | hge
    · have hheavier := h.heavier hlt best hbest
      rwa [← hlow, ← htop] at hheavier
    · -- the fork is the best tip
      obtain rfl : height = fork := le_antisymm hge hle
      obtain ⟨best', hbest', hchain⟩ := h.poised.chain.set cp h.shows_old.checkpoint
      obtain rfl : best = best' := Option.some.inj (hbest.symm.trans hbest')
      obtain ⟨e, he, -, hework⟩ := hchain.tip
      obtain ⟨chainwork, hshown⟩ := h.shows_old.best
      rw [hbest] at hshown
      cases hshown
      rw [show old height = block height from h.forks.shared height habove le_rfl, h.stored] at he
      cases he
      have hlt := h.branch.chainwork_lt (top - height - 1) (h := height) le_rfl (by omega)
      rw [show height + (top - height - 1) + 1 = top by omega] at hlt
      exact hework ▸ hlt
  obtain ⟨s', hs', hpoised, hbest, hconfig⟩ := h.poised.submit h.auth (h.time k) low top (by omega) (by omega) (by omega)
    (by omega) (by omega) (by unfold Spv.MAX_HEADERS_PER_SUBMIT; omega) hwork
  refine ⟨top, s', hs', hpoised, hbest, ?_⟩
  rw [hconfig]
  exact h.auth

/-- The submitting part of a pass. -/
theorem sync_triple (h : Pass O config s powLimit now cp old block header entry fork height) (hnew : fork < O.tipHeight) :
    Program.Triple (On fun s' => s' = s)
      (syncHeaders (passDeps O config) (syncStartHeight config.spvSyncFromHeight (some height)) O.tipHeight MAX_HEADERS_PER_SUBMIT)
      (fun _ => On (At O powLimit now cp block header entry O.tipHeight))
      (Thrown O config fun s' => s' = s ∨ Reached O powLimit now cp block header entry height s') := by
  obtain ⟨low, hlow⟩ : ∃ low, low = syncStartHeight config.spvSyncFromHeight (some height) := ⟨_, rfl⟩
  obtain ⟨top, htop⟩ : ∃ top, top = min (low + 15) O.tipHeight := ⟨_, rfl⟩
  have hsixteen : MAX_HEADERS_PER_SUBMIT = 16 := rfl
  have hdepth := h.depth
  have hlength := h.length
  have habove := h.forks.above
  have hle := h.forks.le
  have hlow' : low = max (cp.height + 1) (height - 6) := by rw [hlow, h.from_checkpoint]; rfl
  have hplan : planHeaderBatches low O.tipHeight MAX_HEADERS_PER_SUBMIT = .ok
      ({ fromHeight := low, toHeight := top } :: batchesFrom O.tipHeight MAX_HEADERS_PER_SUBMIT (top + 1)) := by
    have hnext : batchesFrom O.tipHeight MAX_HEADERS_PER_SUBMIT (low + 16)
        = batchesFrom O.tipHeight MAX_HEADERS_PER_SUBMIT (top + 1) := by
      rcases Nat.lt_or_ge O.tipHeight (low + 15) with hlt | hge
      · rw [batchesFrom_of_lt (by omega), batchesFrom_of_lt (by omega)]
      · rw [show top + 1 = low + 16 by omega]
    unfold planHeaderBatches
    rw [bind_eq_ok]
    refine ⟨(), rfl, ?_⟩
    rw [batchesFrom_of_le (by omega) (by omega), ← hnext, hsixteen, show low + 16 - 1 = low + 15 by omega, ← htop]
  have hsubmit : ∀ s' k, s' = s → ∃ result s'',
      Spv.submitHeaders O.crypto O.auth (O.ledger k) s' (headersFrom header low (top + 1 - low)) = .ok (result, s'') ∧
        At O powLimit now cp block header entry top s'' := by
    rintro s' k rfl
    exact h.first hnew hlow htop k
  have hfirst := batch_triple config h.serves (by omega) (by omega) (by omega) hsubmit
  have hrest : Program.Triple (On (At O powLimit now cp block header entry top))
      (submitBatches (passDeps O config) (batchesFrom O.tipHeight MAX_HEADERS_PER_SUBMIT (top + 1)) (some top))
      (fun _ => On (At O powLimit now cp block header entry O.tipHeight))
      (Thrown O config (Reached O powLimit now cp block header entry height)) :=
    rest_triple config h.serves h.time height (O.tipHeight - top) top (some top) (by omega) (by omega)
  have hreached : ∀ m, Thrown O config (fun s' => s' = s ∨ At O powLimit now cp block header entry top s') m →
      Thrown O config (fun s' => s' = s ∨ Reached O powLimit now cp block header entry height s') m := by
    rintro m ⟨hbenign, hsame | hat⟩
    · exact ⟨hbenign, .inl hsame⟩
    · exact ⟨hbenign, .inr ⟨top, by omega, by omega, hat⟩⟩
  have hall := (hfirst.conseq (fun _ hm => hm) (fun _ _ hm => hm) hreached).bind fun _ =>
    hrest.conseq (fun _ hm => hm) (fun _ _ hm => hm) fun m hm => ⟨hm.1, .inr hm.2⟩
  intro m hm
  have hrun := hall m hm
  rw [Program.bind_assoc] at hrun
  rw [← hlow]
  unfold syncHeaders
  rw [hplan]
  exact hrun

theorem tick_triple (h : Pass O config s powLimit now cp old block header entry fork height) :
    Program.Triple (On fun s' => s' = s) (tick O config) (fun _ => On fun s' => Shows s' cp block O.tipHeight)
      (Thrown O config fun s' => s' = s ∨ Reached O powLimit now cp block header entry height s') := by
  have hthrown : ∀ m, Thrown O config (fun s' => s' = s) m →
      Thrown O config (fun s' => s' = s ∨ Reached O powLimit now cp block header entry height s') m :=
    fun m hm => ⟨hm.1, .inl hm.2⟩
  have hasked : Program.Triple (On fun s' => s' = s) (request O) (fun _ => On fun s' => s' = s)
      (Thrown O config fun s' => s' = s) := request_triple _
  have hrequest := hasked.conseq (fun _ hm => hm) (fun _ _ hm => hm) hthrown
  obtain ⟨chainwork, hbest⟩ := h.shows_old.best
  have hread : Program.Triple (On fun s' => s' = s) (readContractTip O)
      (fun tip m => tip = some { height, hash := internalHashToDisplayHex (old height).1 } ∧ On (fun s' => s' = s) m)
      (Thrown O config fun s' => s' = s ∨ Reached O powLimit now cp block header entry height s') := by
    refine hrequest.bind fun _ => Program.Triple.get.bind fun m' => Program.Triple.pure ?_
    rintro m ⟨rfl, hm⟩
    have hspv : m'.spv = s := hm
    refine ⟨?_, hm⟩
    rw [hspv, hbest]
    rfl
  refine hrequest.bind fun _ => hrequest.bind fun _ => hread.bind fun tip => ?_
  rintro m ⟨rfl, hm⟩
  by_cases hnew : fork < O.tipHeight
  · rw [if_pos (h.hasNewHeaders_iff.mpr hnew)]
    refine (h.sync_triple hnew).conseq (fun _ hm => hm) (fun _ m hat => ?_) (fun _ hm => hm) m hm
    exact hat.poised.shows_old
  · rw [if_neg (fun hhas => hnew (h.hasNewHeaders_iff.mp hhas))]
    have hspv : m.spv = s := hm
    show Shows m.spv cp block O.tipHeight
    rw [hspv]
    exact h.shows_of_fork (not_lt.mp hnew)

end Pass

end

/-! ## A reorg -/

namespace Demo

open Spv.Demo

def b2Hash : BytesN 32 := bytesN 32 0xd4227330d2f89cd05901969739eed954f519807319cf3471aa7f11be70000000

/-- The second branch of the small light client, on its checkpoint. -/
def block (h : Nat) : BytesN 32 :=
  if h ≤ 806398 then checkpointHash else if h = 806399 then prevHashOf b2 else b2Hash

def header (h : Nat) : BytesN 80 := if h ≤ 806399 then b1 else b2

/-- The first branch. -/
def old (h : Nat) : BytesN 32 :=
  if h ≤ 806398 then checkpointHash else if h = 806399 then prevHashOf a2 else prevHashOf a3

theorem hashes : hashHeader crypto b1 = block 806399 ∧ hashHeader crypto b2 = block 806400 := by
  decide +kernel

theorem hash_b1 : hashHeader crypto b1 = block 806399 := And.left hashes

theorem hash_b2 : hashHeader crypto b2 = block 806400 := And.right hashes

def rootEntry : HeaderEntry where
  prev := bytesN 32 0
  merkleRoot := bytesN 32 0
  height := 806398
  bits := POW_LIMIT_BITS
  time := 1749000000
  periodStartTime := 1748700000
  chainwork := 0

def entryOf (header : BytesN 80) (height periodStartTime chainwork : Nat) : HeaderEntry where
  prev := prevHashOf header
  merkleRoot := merkleRootOf header
  height
  bits := bitsOf header
  time := timeOf header
  periodStartTime
  chainwork

def entry (h : Nat) : HeaderEntry :=
  if h ≤ 806398 then rootEntry
  else if h = 806399 then entryOf b1 806399 1748700000 4838420 else entryOf b2 806400 1749001200 24192270

def powLimit : Nat := 23931797032512946448355080119003371062739634849393183336097152401145856

/-- Esplora on the second branch. -/
def environment : SyncEnvironment where
  crypto
  auth
  tipHeight := 806400
  blockHashAtHeight h := internalHashToDisplayHex (block h).1
  blockHeader hash := Hex.encode (if hash = internalHashToDisplayHex (block 806399).1 then b1.1 else b2.1)
  fails _ := none
  ledger _ := start.ledger
  feeStroops _ := 0
  outcome _ := .included true

def settings : SyncSettings where
  spvSyncFromHeight := 806399
  spvMaxFeeStroops := 0

/-- The light client on the first branch. -/
def follows (s : Storage) : Bool :=
  decide (s.config = start.storage.config) &&
    decide (s.checkpoint = rooted.storage.checkpoint) &&
    decide (s.bestTip = some { hash := old 806400, height := 806400, chainwork := 12579933 }) &&
    [806398, 806399, 806400].all (fun h => decide (s.canonical.lookup h = some (old h))) &&
    decide (∀ h ∈ s.canonical.keys, h ≤ 806400) &&
    decide (s.headers.lookup checkpointHash = some rootEntry) &&
    decide (s.headers.lookup (block 806399) = none) && decide (s.headers.lookup (block 806400) = none)

theorem child_b1 : Child crypto powLimit rootEntry (block 806399) (entry 806399) where
  header := ⟨b1, hash_b1, rfl, rfl, rfl, rfl⟩
  height := rfl
  bits := by decide
  work := ⟨powLimit, by decide⟩
  chainwork_lt := by decide
  periodStartTime := by decide

theorem child_b2 : Child crypto powLimit (entry 806399) (block 806400) (entry 806400) where
  header := ⟨b2, hash_b2, rfl, rfl, rfl, rfl⟩
  height := rfl
  bits := by decide
  work := ⟨5982896601982402333495421070737000930468749264800595559468660944797696, by decide⟩
  chainwork_lt := by decide
  periodStartTime := by decide

theorem heights {h : Nat} (hlo : 806398 < h) (hle : h ≤ 806400) : h = 806399 ∨ h = 806400 := by omega

theorem branch {cp : Checkpoint} (hcp : rooted.storage.checkpoint = some cp) :
    Branch crypto powLimit 1750000000 cp block header entry 806398 806400 := by
  have hheight : cp.height = 806398 := by
    cases hcp
    rfl
  refine ⟨fun h hlo hle => ?_, fun h hlo hle => ?_, fun h hlo hle => ?_, fun h hlo hle => ?_, fun h hlo hle => ?_,
    by decide, fun h h' hlo hlt hle => ?_⟩
  · rw [hheight] at hlo
    rcases heights hlo hle with rfl | rfl
    · exact hash_b1
    · exact hash_b2
  · rcases heights hlo hle with rfl | rfl <;> decide
  · rcases heights hlo hle with rfl | rfl <;> exact ⟨rfl, rfl, rfl, rfl⟩
  · rcases heights hlo hle with rfl | rfl
    · exact child_b1
    · exact child_b2
  · rcases heights hlo hle with rfl | rfl <;> decide
  · rw [hheight] at hlo
    obtain ⟨rfl, rfl⟩ | ⟨rfl, rfl⟩ | ⟨rfl, rfl⟩ :
        h = 806398 ∧ h' = 806399 ∨ h = 806398 ∧ h' = 806400 ∨ h = 806399 ∧ h' = 806400 := by omega
    all_goals decide

theorem pass {s : Storage} {ledger : Ledger} (hreach : Runs.Reachable (Spv.system crypto) ⟨s, ledger⟩)
    (hs : follows s = true) {cp : Checkpoint} (hcp : rooted.storage.checkpoint = some cp) :
    Pass environment settings s powLimit 1750000000 cp old block header entry 806398 806400 := by
  simp only [follows, Bool.and_eq_true, List.all_eq_true, decide_eq_true_eq] at hs
  obtain ⟨⟨⟨⟨⟨⟨⟨hconfig, hcheckpoint⟩, hbest⟩, hcanonical⟩, hkeys⟩, hroot⟩, hb1⟩, hb2⟩ := hs
  have hheight : cp.height = 806398 := by
    cases hcp
    rfl
  refine
    { reachable := ⟨ledger, hreach⟩
      limit := ⟨_, hconfig, by decide⟩
      auth := fun _ _ _ _ => rfl
      from_checkpoint := by rw [hheight]; rfl
      shows_old := ⟨hcheckpoint.trans hcp, by omega, ⟨_, hbest⟩, fun h hlo hle => ?_, fun h hlt => ?_⟩
      forks := ⟨by omega, by decide, fun h hlo hle => ?_, fun h hlo hle => ?_⟩
      depth := by decide
      length := by decide
      branch := branch hcp
      stored := hroot
      unmistaken := fun h e hlo hle he => ?_
      heavier := fun _ best hb => ?_
      serves := ⟨by decide, fun h hlo hle => ?_⟩
      time := fun _ => le_rfl }
  · rw [hheight] at hlo
    obtain rfl | rfl | rfl : h = 806398 ∨ h = 806399 ∨ h = 806400 := by omega
    all_goals exact hcanonical _ (by decide)
  · cases hlookup : s.canonical.lookup h with
    | none => rfl
    | some a =>
      have hmem : h ∈ s.canonical.keys := Finmap.mem_keys.mpr (Finmap.mem_of_lookup_eq_some hlookup)
      have hle := hkeys h hmem
      omega
  · rw [old, block, if_pos hle, if_pos hle]
  · rcases heights hlo hle with rfl | rfl <;> decide
  · rcases heights hlo hle with rfl | rfl
    · rw [hb1] at he
      cases he
    · rw [hb2] at he
      cases he
  · rw [hbest] at hb
    cases hb
    decide
  · rw [hheight] at hlo
    have hserved : headerText environment h = Hex.encode (header h).1 := by
      rcases heights hlo hle with rfl | rfl
      · exact trim_encode b1.1
      · change trim (Hex.encode (if _ = _ then b1.1 else b2.1)) = _
        rw [if_neg (by decide)]
        exact trim_encode b2.1
    rw [hserved, Hex.decode_encode]

end Demo

end Writz.Relayer.HeaderSync

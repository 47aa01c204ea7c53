import Writz.Relayer.Deployment
import Writz.Relayer.Proofs.Handler
import Writz.Relayer.Proofs.Rebuild

/-!
# Proofs: what the relayer signs for

As long as every position that a rebuild queues is closed, the queue holds closed positions only, and
so the protocol's key is used for closed positions only.
-/

namespace Writz.Relayer

open Node
open Program (Triple)

variable {τ ρ : Type} {H : Lend.Host τ ρ} {O : Outside H} {m m' : Machine}

/-! ## The invariant -/

/-- The queue is closed, and every deed was for a position that was closed by then. -/
structure Machine.Sound (O : Outside H) (m : Machine) : Prop where
  queue : m.QueueClosed O
  deeds : ∀ c ∈ m.cosigned, O.statusAt c.request (Hex.encode c.txid) = some .Closed

/-- Some positions are closed by now. -/
structure Machine.Owes (O : Outside H) (txids : List Text) (m : Machine) : Prop extends m.Sound O where
  closed : ∀ txid ∈ txids, O.statusAt m.requests txid = some .Closed

variable {txids : List Text} {α β : Type}

theorem Machine.Sound.owes (h : m.Sound O) : m.Owes O [] :=
  ⟨h, fun _ htxid => absurd htxid List.not_mem_nil⟩

theorem Machine.QueueClosed.later (h : m.QueueClosed O) (hreleases : m'.releases = m.releases)
    (hrequests : m.requests ≤ m'.requests) : m'.QueueClosed O := by
  intro row hrow hcontract
  rw [hreleases] at hrow
  exact O.statusAt_le hrequests (h row hrow hcontract) (by decide)

theorem Machine.Owes.later (h : m.Owes O txids) (hr : m.Reads m') : m'.Owes O txids where
  queue := h.queue.later hr.releases hr.requests
  deeds c hc := h.deeds c (hr.cosigned ▸ hc)
  closed txid htxid := O.statusAt_le hr.requests (h.closed txid htxid) (by decide)

/-- A program that keeps the invariant, however it ends. -/
abbrev KeepsOwed (O : Outside H) (txids : List Text) (p : Async α) : Prop :=
  Triple (Machine.Owes O txids) p (fun _ => Machine.Owes O txids) (Machine.Owes O txids)

theorem keptByReading_owes : KeptByReading (Machine.Owes O txids) := fun _ _ hs hr => hs.later hr

theorem OnlyReads.keepsOwed {p : Async α} (hp : OnlyReads p) : KeepsOwed O txids p :=
  hp.keeps keptByReading_owes

/-! ## The handler -/

theorem statusAt_encode (h : History H) (k : Nat) (txid : Text) :
    h.statusAt k (Hex.encode (fromHex txid)) = h.statusAt k txid := by
  unfold History.statusAt
  rw [fromHex_of_decode (Hex.decode_encode (fromHex txid))]

theorem keepsOwed_cosign {txid : Text} (htxid : txid ∈ txids) (deed : Deed) :
    KeepsOwed O txids (cosign O (fromHex txid) deed) := by
  unfold cosign
  refine Triple.bind (Q := fun _ => Machine.Owes O txids) (Triple.modify fun s hs => ?_) fun _ =>
    (OnlyReads.request.bind fun _ => .pure _).keepsOwed
  refine ⟨⟨hs.queue, fun c hc => ?_⟩, hs.closed⟩
  rcases List.mem_cons.mp hc with rfl | hc
  · rw [statusAt_encode]
    exact hs.closed txid htxid
  · exact hs.deeds c hc

theorem keepsOwed_handleRepayFull (deps : HandlerDeps) {txid : Text} (htxid : txid ∈ txids) :
    KeepsOwed O txids (handleRepayFull O deps (fromHex txid)) :=
  keeps_handleRepayFull keptByReading_owes (keepsOwed_cosign htxid) deps

/-! ## The sweep -/

/-- Rows of the same positions, or fewer. -/
theorem Machine.Owes.requeue (h : m.Owes O txids) {releases : ReleaseStore}
    (hrows : ∀ row ∈ releases.pending, ∃ row' ∈ m.releases.pending,
      row.contractId = row'.contractId ∧ row.txid = row'.txid) :
    Machine.Owes O txids { m with releases } := by
  refine ⟨⟨fun row hrow hcontract => ?_, h.deeds⟩, h.closed⟩
  obtain ⟨row', hrow', hcontract', htxid⟩ := hrows row hrow
  rw [htxid]
  exact h.queue row' hrow' (hcontract' ▸ hcontract)

theorem keepsOwed_publishRow (deps : HandlerDeps) {row : PendingRelease} (hrow : row.txid ∈ txids) :
    KeepsOwed O txids (publishRow O deps row) := by
  unfold publishRow
  refine (keeps_withPromptRetry (keepsOwed_handleRepayFull deps hrow) _).bind fun _ => ?_
  refine (onlyReads_isReleasePublished _).keepsOwed.bind fun published => ?_
  refine keeps_throwIf.bind fun _ => OnlyReads.disk.keepsOwed.bind fun _ => ?_
  exact Triple.modify fun s hs =>
    hs.requeue fun row' hrow' => ⟨row', (List.mem_filter.mp hrow').1, rfl, rfl⟩

theorem keepsOwed_markFailed (row : PendingRelease) (e : Failure) :
    KeepsOwed O txids (markFailed O row e) := by
  unfold markFailed
  refine onlyReads_now.keepsOwed.bind fun t => ?_
  refine OnlyReads.disk.keepsOwed.bind fun _ => Triple.modify fun s hs => hs.requeue fun row' hrow' => ?_
  obtain ⟨row₀, hrow₀, rfl⟩ := List.mem_map.mp hrow'
  refine ⟨row₀, hrow₀, ?_⟩
  split_ifs
  · exact ⟨rfl, rfl⟩
  · exact ⟨rfl, rfl⟩

theorem ReleaseStore.of_mem_due {store : ReleaseStore} {contractId : Text} {t limit : Nat}
    {row : PendingRelease} (h : row ∈ store.due contractId t limit) :
    row ∈ store.pending ∧ row.contractId = contractId := by
  have hsorted := List.mem_of_mem_take h
  obtain ⟨hpending, hdue⟩ := List.mem_filter.mp ((List.mem_insertionSort _).mp hsorted)
  simp only [Bool.and_eq_true, decide_eq_true_iff] at hdue
  exact ⟨hpending, hdue.1.1⟩

/-- A sweep uses the key for rows of the queue only. -/
theorem keepsSound_runReleaseSweep (deps : HandlerDeps) :
    KeepsOwed O [] (runReleaseSweep O deps) := by
  unfold runReleaseSweep
  refine onlyReads_now.keepsOwed.bind fun t => ?_
  refine OnlyReads.disk.keepsOwed.bind fun _ => Triple.get.bind fun s => ?_
  rintro s' ⟨rfl, hs⟩
  have hclosed : ∀ txid ∈ (s.releases.due O.contractId t DUE_LIMIT).map PendingRelease.txid,
      O.statusAt s.requests txid = some .Closed := by
    intro txid htxid
    obtain ⟨row, hrow, rfl⟩ := List.mem_map.mp htxid
    obtain ⟨hpending, hcontract⟩ := ReleaseStore.of_mem_due hrow
    exact hs.queue row hpending hcontract
  have hloop : KeepsOwed O ((s.releases.due O.contractId t DUE_LIMIT).map PendingRelease.txid)
      (Program.forEach (fun row => tryCatch (publishRow O deps row) (markFailed O row))
        (s.releases.due O.contractId t DUE_LIMIT)) :=
    Triple.forEach fun row hrow => Triple.tryCatch
      (keepsOwed_publishRow deps (List.mem_map_of_mem hrow)) (keepsOwed_markFailed row)
  exact (hloop.conseq (fun _ h => h) (fun _ _ h => h.toSound.owes) fun _ h => h.toSound.owes) s
    ⟨hs.toSound, hclosed⟩

/-! ## The queue -/

/-- A recorded batch adds rows for its txids only. -/
theorem ReleaseStore.of_mem_recordBatch {store store' : ReleaseStore} {contractId cursor : Text} {t : Nat}
    {batch : List Text} (hr : store.recordBatch contractId batch cursor t = .ok store')
    {row : PendingRelease} (hrow : row ∈ store'.pending) :
    row ∈ store.pending ∨ row.contractId = contractId ∧ row.txid ∈ batch := by
  obtain ⟨_, -, hr⟩ := bind_eq_ok.mp hr
  cases hr
  have hfold : ∀ (batch : List Text) (pending : List PendingRelease),
      row ∈ batch.foldl (ReleaseStore.insert contractId t) pending →
        row ∈ pending ∨ row.contractId = contractId ∧ row.txid ∈ batch := by
    intro batch
    induction batch with
    | nil => exact fun _ h => .inl h
    | cons txid batch ih =>
      intro pending h
      rcases ih _ h with h | h
      · unfold ReleaseStore.insert at h
        split_ifs at h
        · exact .inl h
        · rcases List.mem_append.mp h with h | h
          · exact .inl h
          · rw [List.mem_singleton.mp h]
            exact .inr ⟨rfl, List.mem_cons_self⟩
      · exact .inr ⟨h.1, List.mem_cons_of_mem _ h.2⟩
  exact hfold batch store.pending hrow

/-- A batch of closed positions. -/
theorem Machine.Sound.recordBatch (h : m.Sound O) (hrequests : m.requests ≤ m'.requests)
    (hcosigned : m'.cosigned = m.cosigned) {batch : List Text} {cursor : Text} {t : Nat}
    (hbatch : m.releases.recordBatch O.contractId batch cursor t = .ok m'.releases)
    (hclosed : ∀ txid ∈ batch, O.statusAt m'.requests txid = some .Closed) : m'.Sound O where
  queue row hrow hcontract := by
    rcases ReleaseStore.of_mem_recordBatch hbatch hrow with hold | hnew
    · exact O.statusAt_le hrequests (h.queue row hold hcontract) (by decide)
    · exact hclosed row.txid hnew.2
  deeds c hc := h.deeds c (hcosigned ▸ hc)

/-- The positions of the `repay_full` events that RPC serves are closed. -/
theorem closed_of_repaid {k : Nat} {ask : EventsRequest} {txid : Text} (h : txid ∈ repaidAt O k ask) :
    O.statusAt k txid = some .Closed := by
  obtain ⟨e, he, htxid⟩ := List.mem_filterMap.mp h
  rw [O.ordered.events k ask] at he
  have he := (List.mem_filter.mp he).1
  cases hevent : e.event with
  | repayFull key repayer script =>
    rw [hevent] at htxid
    obtain rfl := Option.some.inj htxid
    refine O.closed_of_repaidTxid he ?_
    rw [hevent]
    exact decide_eq_true rfl
  | _ =>
    rw [hevent] at htxid
    cases htxid

theorem keepsSound_runPollCycle (deployLedger : Option Nat) :
    KeepsOwed O [] (runPollCycle O deployLedger) := by
  intro s hs
  have hpolled := runPollCycle_polled (O := O) (m := s) deployLedger s rfl
  rcases hr : runPollCycle O deployLedger s with ⟨_ | _, s'⟩
  · rw [hr] at hpolled
    exact hs.later hpolled
  · rw [hr] at hpolled
    obtain ⟨hlt, hcosigned, ask, t, -, hbatch⟩ := hpolled
    refine (hs.toSound.recordBatch hlt.le hcosigned hbatch fun txid htxid => ?_).owes
    exact O.statusAt_le hlt.le (closed_of_repaid htxid) (by decide)

/-! ## Rebuilds -/

theorem Machine.Sound.keeps (h : m.Sound O) (hk : m.Keeps m') : m'.Sound O where
  queue := h.queue.later hk.releases hk.requests.ge
  deeds c hc := h.deeds c (hk.cosigned ▸ hc)

/-- A rebuild that throws leaves the queue alone. -/
theorem rebuildInTemp_throws (deps : RebuildDeps) :
    Triple (Machine.Owes O []) (rebuildInTemp O deps) (fun _ _ => True) (Machine.Owes O []) := by
  unfold rebuildInTemp
  refine (onlyReads_openTemp _).keepsOwed.bind fun temp => ?_
  refine (onlyReads_catchUp _ _ temp).keepsOwed.bind fun temp => ?_
  refine (onlyReads_verifyRounds _ _ temp).keepsOwed.bind fun checked => ?_
  split_ifs
  · exact Triple.pure fun _ _ => trivial
  · refine Triple.bind (Q := fun _ _ => True) ?_ fun _ => Triple.pure fun _ _ => trivial
    intro s hs
    have hthrows : Triple s.Keeps (swapIn O checked.store checked.missingReleases) (fun _ _ => True)
      s.Keeps := swapIn_throws
    have hswap := hthrows s ⟨rfl, rfl, rfl⟩
    rcases hr : swapIn O checked.store checked.missingReleases s with ⟨_ | _, s'⟩
    · rw [hr] at hswap
      exact (hs.toSound.keeps hswap).owes
    · trivial

/-- Where only closed positions are missing, a rebuild keeps the queue closed. -/
theorem keepsSound_rebuildInTemp {deps : RebuildDeps} {P : Machine → Prop}
    (hmissing : ∀ m report m', P m → rebuildInTemp O deps m = (.ok report, m') →
      ∀ txid ∈ report.missingReleases, O.statusAt m'.requests txid = some .Closed) :
    Triple (fun s => s.Owes O [] ∧ P s) (rebuildInTemp O deps) (fun _ => Machine.Owes O [])
      (Machine.Owes O []) := by
  rintro s ⟨hs, hP⟩
  have hthrows := rebuildInTemp_throws deps s hs
  rcases hr : rebuildInTemp O deps s with ⟨_ | report, s'⟩
  · rw [hr] at hthrows
    exact hthrows
  · have hclosed := hmissing s report s' hP hr
    obtain ⟨temp, m₁, temp', m₂, checked, m₃, htemp, hcatch, hverify, heq, -, hm₃, hdry, hswap⟩ :=
      rebuildInTemp_eq_ok hr
    have hreads := (((onlyReads_openTemp _).of_eq htemp).trans
      ((onlyReads_catchUp _ _ _).of_eq hcatch)).trans ((onlyReads_verifyRounds _ _ _).of_eq hverify)
    have hs₃ := hs.later hreads
    cases hdeps : deps.dryRun with
    | true =>
      rw [hdry hdeps]
      exact hs₃
    | false =>
      have hswapped := hswap hdeps
      obtain ⟨cursor, t, -, hbatch⟩ := hswapped.releases
      rw [heq] at hclosed
      exact (hs₃.toSound.recordBatch hswapped.requests.ge hswapped.cosigned hbatch hclosed).owes

/-- What is known of an earlier request stays known. -/
theorem OnlyReads.keepsAfter {p : Async α} (hp : OnlyReads p) {k : Nat} {c : Prop} :
    Triple (fun s => s.Owes O txids ∧ k < s.requests ∧ c) p
      (fun _ s => s.Owes O txids ∧ k < s.requests ∧ c) (Machine.Owes O txids) := by
  rintro s ⟨hs, hk, hc⟩
  have hr := hp s
  rcases hp' : p s with ⟨_ | a, s'⟩
  · rw [hp'] at hr
    exact hs.later hr
  · rw [hp'] at hr
    exact ⟨hs.later hr, hk.trans_le hr.requests, hc⟩

/-- The same of the whole rebuild. -/
theorem keepsSound_rebuildLendState {deps : RebuildDeps} {k : Nat}
    (hmissing : ∀ m report m', k < m.requests →
      checkRange deps (O.ledgerRange k).1 (O.ledgerRange k).2 = .ok () →
        rebuildInTemp O deps m = (.ok report, m') →
          ∀ txid ∈ report.missingReleases, O.statusAt m'.requests txid = some .Closed) :
    Triple (fun s => s.Owes O [] ∧ s.requests = k) (rebuildLendState O deps)
      (fun _ => Machine.Owes O []) (Machine.Owes O []) := by
  unfold rebuildLendState
  refine Triple.bind (Q := fun k' s => s.Owes O [] ∧ k' = k ∧ k < s.requests) ?_ fun k' => ?_
  · rintro s ⟨hs, rfl⟩
    simp only [request]
    cases O.fails s.requests with
    | some message => exact hs.later ⟨Nat.le_succ _, rfl, rfl, rfl⟩
    | none => exact ⟨hs.later ⟨Nat.le_succ _, rfl, rfl, rfl⟩, rfl, Nat.lt_succ_self _⟩
  · have hfinally : KeepsOwed O [] (do disk O; disk O : Async Unit) :=
      (OnlyReads.disk.bind fun _ => .disk).keepsOwed
    refine Triple.bind (Q := fun _ s => s.Owes O [] ∧ k < s.requests ∧
      checkRange deps (O.ledgerRange k).1 (O.ledgerRange k).2 = .ok ()) ?_ fun _ => ?_
    · rintro s ⟨hs, rfl, hk⟩
      rcases hcheck : checkRange deps (O.ledgerRange k').1 (O.ledgerRange k').2 with _ | _
      · simpa [ofResult, Program.ofExcept, hcheck, Except.mapError] using hs
      · simpa [ofResult, Program.ofExcept, hcheck, Except.mapError] using ⟨hs, hk⟩
    · refine OnlyReads.disk.keepsAfter.bind fun _ => OnlyReads.disk.keepsAfter.bind fun _ => ?_
      refine OnlyReads.disk.keepsAfter.bind fun _ => ?_
      refine Triple.tryFinally ?_ (fun _ => hfinally) hfinally
      refine keepsSound_rebuildInTemp ?_
      rintro m report m' ⟨hk, hcheck⟩
      exact hmissing m report m' hk hcheck

section File

variable {deps : RelayerDeps} {text : Text} {file : ParsedArchive} {d : RebuildDeps}
  {report : RebuildReport}

/-- A rebuild from an accepted file that swaps: what it queues, and when all of that is closed. -/
theorem rebuildLendState_queues (hsteady : O.Steady)
    (haccepted : parseArchive deps.decode text (deps.target O) = .ok file)
    (hd : d.archive = some file.source) (hr : rebuildLendState O d m = (.ok report, m'))
    (hswapped : report.swapped = true) :
    (∃ cursor t,
      m.releases.recordBatch O.contractId report.missingReleases cursor t = .ok m'.releases) ∧
      ∃ asked : Text → Nat, (∀ txid, m.requests ≤ asked txid ∧ asked txid < m'.requests) ∧
        (∀ txid, txid ∈ report.missingReleases ↔ Repaid (replayedRows O file (m'.requests - 1)) txid ∧
          O.releasedAt (asked txid) txid = false) ∧
        ((∀ txid ∈ report.missingReleases, O.statusAt (m'.requests - 1) txid = some .Closed) ↔
          ∀ txid, Reopened (replayedRows O file (m'.requests - 1)) txid →
            O.releasedAt (asked txid) txid = true) := by
  obtain ⟨m₁, m₂, hreads₁, hm₁, hcheck, hrebuild, hreads₂, hm'⟩ := rebuildLendState_eq_ok hr
  obtain ⟨asked, hasked, hlisted, hclosed⟩ := rebuildInTemp_missing hsteady
    (parseArchive_accepted haccepted) rfl hd hreads₁.requests (checkRange_eq_ok hd hcheck) hrebuild
  rw [← hm'] at hasked hlisted hclosed
  obtain ⟨checked, m₃, m₄, h⟩ :=
    rebuildInTemp_rebuilt hsteady (parseArchive_accepted haccepted) rfl hd hrebuild
  have hdry : d.dryRun = false := by simpa [hswapped] using h.swapped_eq
  obtain ⟨cursor, t, -, hbatch⟩ := (h.swapped hdry).releases
  rw [h.reads₃.releases, hreads₁.releases, ← h.missing, ← hreads₂.releases] at hbatch
  refine ⟨⟨cursor, t, hbatch⟩, asked, fun txid => ?_, hlisted, ?_⟩
  · have h := hasked txid
    exact ⟨hreads₁.requests.trans h.1, h.2⟩
  · constructor
    · intro hall txid hreopened
      by_contra hnot
      have hmem := (hlisted txid).mpr ⟨hreopened.repaid, Bool.eq_false_of_not_eq_true hnot⟩
      exact (hclosed txid hmem).mp (hall txid hmem) hreopened
    · intro hreleased txid hmem
      refine (hclosed txid hmem).mpr fun hreopened => ?_
      have hnot := ((hlisted txid).mp hmem).2
      rw [hreleased txid hreopened] at hnot
      cases hnot

/-- Of an operation: where a file is replayed, and RPC continues it, no position without a release is
opened or liquidated after its last `repay_full` row. -/
def Operation.NotReopened (O : Outside H) (deps : RelayerDeps) (m : Machine) : Operation → Prop
  | .rebuildFromFile text _ => ∀ file, parseArchive deps.decode text (deps.target O) = .ok file →
      ∀ k, m.requests ≤ k → ∀ txid, Reopened (replayedRows O file k) txid →
        O.releasedAt m.requests txid = true
  | _ => True

theorem keepsSound_rebuildFromFile (hsteady : O.Steady) {dryRun : Bool}
    (hp : (Operation.rebuildFromFile text dryRun).NotReopened O deps m) :
    Triple (fun s => s.Owes O [] ∧ s.requests = m.requests) (rebuildFromFile O deps text dryRun)
      (fun _ => Machine.Owes O []) (Machine.Owes O []) := by
  unfold rebuildFromFile
  rcases hparse : parseArchive deps.decode text (deps.target O) with rejected | file
  · exact Triple.pure fun _ hs => hs.1
  · refine Triple.bind (Q := fun _ => Machine.Owes O []) ?_ fun report => Triple.pure fun _ hs => hs
    refine keepsSound_rebuildLendState fun s report s' hlt hcheck hrebuild txid hmem => ?_
    obtain ⟨asked, hasked, hlisted, hclosed⟩ :=
      rebuildInTemp_missing hsteady (parseArchive_accepted hparse) rfl rfl hlt.le
        (checkRange_eq_ok rfl hcheck) hrebuild
    obtain ⟨hlow, hhigh⟩ := hasked txid
    refine O.statusAt_le (Nat.sub_le _ 1) ((hclosed txid hmem).mpr fun hreopened => ?_) (by decide)
    have hreleased := hp file hparse _ (by omega) txid hreopened
    have hstill := O.releasedAt_le (show m.requests ≤ asked txid by omega) hreleased
    rw [((hlisted txid).mp hmem).2] at hstill
    cases hstill

end File

/-! ## Runs -/

/-- One operation keeps the queue closed, and uses the protocol's key for closed positions only. -/
theorem sound_step (hsteady : O.Steady) {deps : RelayerDeps} {op : Operation} (h : m.Sound O) (hp : op.NotReopened O deps m) :
    (runOperation O deps op m).2.Sound O := by
  cases op with
  | poll deployLedger => exact ((keepsSound_runPollCycle deployLedger).final h.owes).toSound
  | sweep => exact ((keepsSound_runReleaseSweep deps.handler).final h.owes).toSound
  | rebuildFromFile text dryRun =>
    have hall := (keepsSound_rebuildFromFile hsteady hp).bind fun _ =>
      Triple.pure (Q := fun _ => Machine.Owes O []) (a := ()) fun _ hs => hs
    exact (hall.final ⟨h.owes, rfl⟩).toSound
  | rebuildFromRpc deployLedger dryRun =>
    have hkeeps : Triple (fun s => s.Owes O [] ∧ s.requests = m.requests)
        (rebuildLendState O { deployLedger, archive := none, dryRun })
        (fun _ => Machine.Owes O []) (Machine.Owes O []) :=
      keepsSound_rebuildLendState fun _ _ _ _ _ hrebuild => rebuildInTemp_fromRpc hrebuild
    have hall := hkeeps.bind fun _ =>
      Triple.pure (Q := fun _ => Machine.Owes O []) (a := ()) fun _ hs => hs
    exact (hall.final ⟨h.owes, rfl⟩).toSound

theorem sound_of_via (hsteady : O.Steady) {deps : RelayerDeps}
    (h : Runs.Via (system O deps) (fun m op => op.NotReopened O deps m) m) : m.Sound O := by
  refine h.invariant (I := Machine.Sound O) ?_ ?_
  · rintro m ⟨hnone, hqueue⟩
    refine ⟨hqueue, fun c hc => ?_⟩
    rw [hnone] at hc
    cases hc
  · rintro m op m' hs hp hstep
    cases hstep
    exact sound_step hsteady hs hp

namespace Demo

/-- The events of the open loan, and two that never happened: its repayment, and its deposit again. -/
def reopenedFile : Text :=
  fileOf (logAfter openLoan ++ logFrom 1003
    ((worldAfter Lend.Demo.repaidLoan).events.drop 3 ++ (worldAfter openLoan).events.take 1))

/-- Every event of the repaid loan. -/
def completeFile : Text := fileOf (logAfter Lend.Demo.repaidLoan)

end Demo

end Writz.Relayer

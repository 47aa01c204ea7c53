import Writz.Relayer.Deployment
import Writz.Relayer.Proofs.Completeness
import Writz.Relayer.Proofs.Handler
import Writz.Relayer.RepayWatcher.System

/-!
# Proofs: the repay watcher loses no repayment

A poll records the `repay_full` events of a page together with its cursor, and a sweep removes a row
only when it has seen the release.
-/

namespace Writz.Relayer

open Node
open Program (Triple)

variable {τ ρ : Type} {H : Lend.Host τ ρ} {O : Outside H} {m m' : Machine}

/-! ## The sweep -/

/-- The contract has answered that it holds a release, at a request from one on and before another. -/
def Answered (O : Outside H) (start stop : Nat) (txid : Text) : Prop :=
  ∃ k, start ≤ k ∧ k < stop ∧ O.fails k = none ∧ O.releasedAt k txid = true

/-- Every row has a row of the same position still, or its release has been seen. -/
def KeepsRows (O : Outside H) (m m' : Machine) : Prop :=
  ∀ row ∈ m.releases.pending,
    (∃ row' ∈ m'.releases.pending, row'.contractId = row.contractId ∧ row'.txid = row.txid) ∨
      Answered O m.requests m'.requests row.txid

/-- What a sweep has done by some point. -/
structure Swept (O : Outside H) (m m' : Machine) : Prop where
  requests : m.requests ≤ m'.requests
  cursor : m'.releases.cursor = m.releases.cursor
  keeps : KeepsRows O m m'
  rows : ∀ row' ∈ m'.releases.pending, ∃ row ∈ m.releases.pending,
    row'.contractId = row.contractId ∧ row'.txid = row.txid

theorem Swept.refl : Swept O m m :=
  ⟨le_rfl, rfl, fun row hrow => .inl ⟨row, hrow, rfl, rfl⟩, fun row hrow => ⟨row, hrow, rfl, rfl⟩⟩

theorem Answered.mono {start stop stop' : Nat} {txid : Text} (h : Answered O start stop txid)
    (hle : stop ≤ stop') : Answered O start stop' txid := by
  obtain ⟨k, hk, hk', hanswer⟩ := h
  exact ⟨k, hk, hk'.trans_le hle, hanswer⟩

theorem Swept.later {s s' : Machine} (h : Swept O m s) (hrequests : s.requests ≤ s'.requests)
    (hreleases : s'.releases = s.releases) : Swept O m s' where
  requests := h.requests.trans hrequests
  cursor := by rw [hreleases, h.cursor]
  keeps row hrow := by
    rw [hreleases]
    exact (h.keeps row hrow).imp_right fun hanswered => hanswered.mono hrequests
  rows := by
    rw [hreleases]
    exact h.rows

theorem keptByReading_swept : KeptByReading (Swept O m) :=
  fun _ _ hs hr => hs.later hr.requests hr.releases

theorem swept_cosign (txid : Bytes) (deed : Deed) :
    Triple (Swept O m) (cosign O txid deed) (fun _ => Swept O m) (Swept O m) := by
  unfold cosign
  refine Triple.bind (Q := fun _ => Swept O m) (Triple.modify fun s hs => hs.later le_rfl rfl) fun _ => ?_
  exact (OnlyReads.request.bind fun _ => .pure _).keeps keptByReading_swept

/-- The row goes only where the release has been seen. -/
theorem swept_publishRow (deps : HandlerDeps) (row : PendingRelease) :
    Triple (Swept O m) (publishRow O deps row) (fun _ => Swept O m) (Swept O m) := by
  unfold publishRow
  refine Triple.bind (keeps_withPromptRetry
    (keeps_handleRepayFull keptByReading_swept (swept_cosign _) deps) _) fun _ => ?_
  refine Triple.bind (Q := fun published s => Swept O m s ∧
    (published = true → Answered O m.requests s.requests row.txid)) ?_ fun published => ?_
  · intro s hs
    have hreads := onlyReads_isReleasePublished (O := O) (fromHex row.txid) s
    rcases hr : isReleasePublished O (fromHex row.txid) s with ⟨_ | published, s'⟩
    · rw [hr] at hreads
      exact keptByReading_swept s s' hs hreads
    · rw [hr] at hreads
      obtain ⟨hpublished, hs', hanswers⟩ := hasRelease_eq_ok hr
      refine ⟨keptByReading_swept s s' hs hreads, fun htrue => ⟨s.requests, hs.requests, ?_, hanswers, ?_⟩⟩
      · rw [hs']
        exact Nat.lt_succ_self _
      · rw [← hpublished, htrue]
  · refine Triple.bind (Q := fun _ s => Swept O m s ∧ Answered O m.requests s.requests row.txid) ?_
      fun _ => ?_
    · refine (Triple.throwIf fun s hs => hs.1).conseq (fun _ h => h) (fun _ s hs => ?_) fun _ h => h
      exact ⟨hs.2.1, hs.2.2 (Bool.eq_true_of_not_eq_false hs.1)⟩
    · have hkept : KeptByReading fun s => Swept O m s ∧ Answered O m.requests s.requests row.txid :=
        fun s s' hs hr => ⟨keptByReading_swept s s' hs.1 hr, hs.2.mono hr.requests⟩
      refine ((OnlyReads.disk.keeps hkept).conseq (fun _ h => h) (fun _ _ h => h) fun _ h => h.1).bind
        fun _ => Triple.modify fun s ⟨hs, hanswered⟩ => ⟨hs.requests, hs.cursor, ?_, ?_⟩
      · intro row₀ hrow₀
        rcases hs.keeps row₀ hrow₀ with ⟨row', hrow', hcontract, htxid⟩ | hseen
        · by_cases hfor : row'.isFor O.contractId row.txid = true
          · simp only [PendingRelease.isFor, Bool.and_eq_true, decide_eq_true_iff] at hfor
            rw [← htxid, hfor.2]
            exact .inr hanswered
          · exact .inl ⟨row', List.mem_filter.mpr ⟨hrow', by simpa using hfor⟩, hcontract, htxid⟩
        · exact .inr hseen
      · exact fun row' hrow' => hs.rows row' (List.mem_filter.mp hrow').1

theorem swept_markFailed (row : PendingRelease) (e : Failure) :
    Triple (Swept O m) (markFailed O row e) (fun _ => Swept O m) (Swept O m) := by
  unfold markFailed
  refine (onlyReads_now.keeps keptByReading_swept).bind fun t => ?_
  refine (OnlyReads.disk.keeps keptByReading_swept).bind fun _ => Triple.modify fun s hs => ?_
  have hsame : ∀ row' : PendingRelease, ∀ error next,
      (if row'.isFor O.contractId row.txid then row'.failed error next else row').contractId
        = row'.contractId ∧
      (if row'.isFor O.contractId row.txid then row'.failed error next else row').txid = row'.txid := by
    intro row' error next
    split_ifs
    · exact ⟨rfl, rfl⟩
    · exact ⟨rfl, rfl⟩
  refine ⟨hs.requests, hs.cursor, fun row₀ hrow₀ => ?_, fun row' hrow' => ?_⟩
  · refine (hs.keeps row₀ hrow₀).imp_left fun ⟨row', hrow', hcontract, htxid⟩ => ?_
    refine ⟨_, List.mem_map_of_mem hrow', ?_, ?_⟩
    · rw [(hsame row' _ _).1, hcontract]
    · rw [(hsame row' _ _).2, htxid]
  · obtain ⟨row₁, hrow₁, rfl⟩ := List.mem_map.mp hrow'
    obtain ⟨row₀, hrow₀, hcontract, htxid⟩ := hs.rows row₁ hrow₁
    exact ⟨row₀, hrow₀, (hsame row₁ _ _).1.trans hcontract, (hsame row₁ _ _).2.trans htxid⟩

theorem swept_runReleaseSweep (deps : HandlerDeps) : Swept O m (runReleaseSweep O deps m).2 := by
  have hsweep : Triple (Swept O m) (runReleaseSweep O deps) (fun _ => Swept O m) (Swept O m) := by
    unfold runReleaseSweep
    refine (onlyReads_now.keeps keptByReading_swept).bind fun t => ?_
    refine (OnlyReads.disk.keeps keptByReading_swept).bind fun _ => ?_
    refine (OnlyReads.get.keeps keptByReading_swept).bind fun s => ?_
    exact Triple.forEach fun row _ => Triple.tryCatch (swept_publishRow deps row) (swept_markFailed row)
  exact hsweep.final .refl

/-! ## The invariant -/

/-- Every `repay_full` event up to the cursor has its row, or its release is on the contract; and every
row has its event. -/
structure Watched (O : Outside H) (m : Machine) : Prop where
  owed : ∀ k, ∀ e ∈ (O.chain k).log, ∀ key : BytesN 32, e.event.repays key = true →
    ∀ cursor, m.releases.cursor = some cursor → textLt cursor e.id = false →
      (∃ row ∈ m.releases.pending,
        row.contractId = O.contractId ∧ row.txid = Hex.encode key.1) ∨
        O.releasedAt m.requests (Hex.encode key.1) = true
  rows : ∀ row ∈ m.releases.pending, row.contractId = O.contractId ∧
    ∃ e ∈ (O.chain m.requests).log, ∃ key : BytesN 32, e.event.repays key = true ∧
      row.txid = Hex.encode key.1

theorem Watched.swept (h : Watched O m) (hs : Swept O m m') : Watched O m' where
  owed k e he key hrepays cursor hcursor hupTo := by
    rw [hs.cursor] at hcursor
    rcases h.owed k e he key hrepays cursor hcursor hupTo with ⟨row, hrow, hcontract, htxid⟩ | hreleased
    · rcases hs.keeps row hrow with ⟨row', hrow', hcontract', htxid'⟩ | ⟨j, -, hj, -, hanswer⟩
      · exact .inl ⟨row', hrow', hcontract'.trans hcontract, htxid'.trans htxid⟩
      · rw [htxid] at hanswer
        exact .inr (O.releasedAt_le hj.le hanswer)
    · exact .inr (O.releasedAt_le hs.requests hreleased)
  rows row hrow := by
    obtain ⟨row₀, hrow₀, hcontract, htxid⟩ := hs.rows row hrow
    obtain ⟨hcontract₀, e, he, key, hrepays, htxid₀⟩ := h.rows row₀ hrow₀
    exact ⟨hcontract.trans hcontract₀, e, (O.log_le hs.requests).subset he, key, hrepays,
      htxid.trans htxid₀⟩

/-- An event whose position a poll finds. -/
theorem mem_repaidAt {k : Nat} {ask : EventsRequest} {txid : Text} : txid ∈ repaidAt O k ask ↔
    ∃ e ∈ (O.page k ask).events, ∃ key : BytesN 32, e.event.repays key = true ∧
      txid = Hex.encode key.1 := by
  unfold repaidAt
  rw [List.mem_filterMap]
  refine exists_congr fun e => and_congr_right fun _ => ?_
  cases e.event with
  | repayFull t r s =>
    constructor
    · intro h
      exact ⟨t, decide_eq_true rfl, (Option.some.inj h).symm⟩
    · rintro ⟨key, hrepays, rfl⟩
      obtain rfl : t = key := of_decide_eq_true hrepays
      rfl
  | _ =>
    constructor
    · intro h
      cases h
    · rintro ⟨key, hrepays, -⟩
      cases hrepays

theorem Watched.polled (h : Watched O m) {deployLedger : Nat}
    (hdeploy : ∀ k, ∀ e ∈ (O.chain k).log, deployLedger ≤ e.ledger)
    (hp : Polled O (some deployLedger) m m') : Watched O m' := by
  obtain ⟨hlt, -, ask, t, hask, hbatch⟩ := hp
  obtain ⟨hold, hnew⟩ := ReleaseStore.mem_recordBatch hbatch
  refine ⟨fun k e he key hrepays cursor hcursor hupTo => ?_, fun row hrow => ?_⟩
  · obtain rfl := Option.some.inj ((recordBatch_cursor hbatch).symm.trans hcursor)
    -- the event is on the chain, as no later one comes up to the cursor
    have hserved : e ∈ (O.chain m.requests).log := by
      by_contra hnot
      have hlater := O.ordered.later m.requests ask k e he hnot
      rw [hupTo] at hlater
      cases hlater
    by_cases hcovers : ask.covers e = true
    · have hpage : e ∈ (O.page m.requests ask).events := by
        rw [O.ordered.events]
        exact List.mem_filter.mpr ⟨hserved, by rw [hcovers, hupTo]; rfl⟩
      obtain ⟨row, hrow, hfor⟩ := hnew _ (mem_repaidAt.mpr ⟨e, hpage, key, hrepays, rfl⟩)
      simp only [PendingRelease.isFor, Bool.and_eq_true, decide_eq_true_iff] at hfor
      exact .inl ⟨row, hrow, hfor⟩
    · -- it was recorded before
      cases hstored : m.releases.cursor with
      | none =>
        rw [hstored] at hask
        cases hask
        exact absurd (decide_eq_true (hdeploy k e he)) hcovers
      | some cursor =>
        rw [hstored] at hask
        cases hask
        have hbefore := Bool.eq_false_of_not_eq_true hcovers
        rcases h.owed k e he key hrepays cursor hstored hbefore with ⟨row, hrow, hfor⟩ | hreleased
        · exact .inl ⟨row, hold row hrow, hfor⟩
        · exact .inr (O.releasedAt_le hlt.le hreleased)
  · rcases ReleaseStore.of_mem_recordBatch hbatch hrow with hrow | ⟨hcontract, htxid⟩
    · obtain ⟨hcontract, e, he, hevent⟩ := h.rows row hrow
      exact ⟨hcontract, e, (O.log_le hlt.le).subset he, hevent⟩
    · obtain ⟨e, he, hevent⟩ := mem_repaidAt.mp htxid
      rw [O.ordered.events] at he
      exact ⟨hcontract, e, (O.log_le hlt.le).subset (List.mem_filter.mp he).1, hevent⟩

/-! ## The steps -/

/-- One step, to its end or to where it throws. -/
theorem watched_runWatcherStep (deps : HandlerDeps) {deployLedger : Nat}
    (hdeploy : ∀ k, ∀ e ∈ (O.chain k).log, deployLedger ≤ e.ledger) (h : Watched O m)
    (step : WatcherStep) :
    Watched O (runWatcherStep O deps deployLedger step m).2 ∧
      KeepsRows O m (runWatcherStep O deps deployLedger step m).2 := by
  cases step with
  | poll =>
    have hpolled := runPollCycle_polled (O := O) (m := m) (some deployLedger) m rfl
    simp only [runWatcherStep]
    rcases hr : runPollCycle O (some deployLedger) m with ⟨_ | _, m'⟩
    · rw [hr] at hpolled
      have hswept : Swept O m m' := Swept.refl.later hpolled.requests hpolled.releases
      exact ⟨h.swept hswept, hswept.keeps⟩
    · rw [hr] at hpolled
      refine ⟨h.polled hdeploy hpolled, fun row hrow => .inl ⟨row, ?_, rfl, rfl⟩⟩
      obtain ⟨-, -, ask, t, -, hbatch⟩ := hpolled
      exact (ReleaseStore.mem_recordBatch hbatch).1 row hrow
  | sweep =>
    have hswept := swept_runReleaseSweep (O := O) (m := m) deps
    exact ⟨h.swept hswept, hswept.keeps⟩

/-- A crash changes nothing of what the contract is and answers. -/
theorem watched_crashing {n : Nat} : Watched (O.crashing n) m ↔ Watched O m :=
  ⟨fun h => ⟨h.owed, h.rows⟩, fun h => ⟨h.owed, h.rows⟩⟩

theorem watched_step (deps : HandlerDeps) {deployLedger : Nat}
    (hdeploy : ∀ k, ∀ e ∈ (O.chain k).log, deployLedger ≤ e.ledger) (h : Watched O m)
    {label : WatcherLabel} (hs : (watcher O deps deployLedger).step m label = some m') :
    Watched O m' ∧ KeepsRows O m m' := by
  cases label with
  | run step =>
    obtain rfl := Option.some.inj hs
    exact watched_runWatcherStep deps hdeploy h step
  | crash step operations =>
    obtain rfl := Option.some.inj hs
    obtain ⟨hwatched, hkeeps⟩ := watched_runWatcherStep (O := O.crashing (m.operations + operations))
      deps hdeploy (watched_crashing.mpr h) step
    exact ⟨watched_crashing.mp hwatched, hkeeps⟩

theorem watched_of_reachable (deps : HandlerDeps) {deployLedger : Nat}
    (hdeploy : ∀ k, ∀ e ∈ (O.chain k).log, deployLedger ≤ e.ledger)
    (h : Runs.Reachable (watcher O deps deployLedger) m) : Watched O m := by
  refine Runs.Via.invariant (fun m hm => ?_) (fun _ _ _ hm _ hs => (watched_step deps hdeploy hm hs).1) h
  have hempty : m.releases = .empty := hm
  refine ⟨fun k e he key hrepays cursor hcursor => ?_, fun row hrow => ?_⟩
  · rw [hempty] at hcursor
    cases hcursor
  · rw [hempty] at hrow
    cases hrow

/-- At every moment of a run of the watcher each `repay_full` event up to the stored cursor has its row
or its release, and each row its event; and a row leaves the table only when the contract has answered,
in that step, that it holds the release. -/
theorem watcher_loses_nothing (O : Outside H) (deps : HandlerDeps) (deployLedger : Nat)
    (hdeploy : ∀ k, ∀ e ∈ (O.chain k).log, deployLedger ≤ e.ledger) (m : Machine)
    (h : Runs.Reachable (watcher O deps deployLedger) m) :
    (∀ k, ∀ e ∈ (O.chain k).log, ∀ key : BytesN 32, e.event.repays key = true →
      ∀ cursor, m.releases.cursor = some cursor → textLt cursor e.id = false →
        (∃ row ∈ m.releases.pending, row.contractId = O.contractId ∧ row.txid = Hex.encode key.1) ∨
          O.releasedAt m.requests (Hex.encode key.1) = true) ∧
      (∀ row ∈ m.releases.pending, row.contractId = O.contractId ∧
        ∃ e ∈ (O.chain m.requests).log, ∃ key : BytesN 32, e.event.repays key = true ∧
          row.txid = Hex.encode key.1) ∧
      ∀ label m', (watcher O deps deployLedger).step m label = some m' →
        ∀ row ∈ m.releases.pending,
          (∃ row' ∈ m'.releases.pending, row'.contractId = row.contractId ∧ row'.txid = row.txid) ∨
            ∃ k, m.requests ≤ k ∧ k < m'.requests ∧ O.fails k = none ∧
              O.releasedAt k row.txid = true := by
  have hwatched := watched_of_reachable deps hdeploy h
  exact ⟨hwatched.owed, hwatched.rows, fun label m' hs => (watched_step deps hdeploy hwatched hs).2⟩

/-- The machine after a poll of Alice's repayment. -/
def Demo.polled : Machine :=
  (runWatcherStep Demo.repaidOutside Demo.handler Demo.START_LEDGER .poll Demo.machine).2

theorem Demo.polled_run : Demo.polled.releases.pending.map PendingRelease.txid = [Demo.aliceTxid] ∧
    Demo.repaidOutside.releasedAt Demo.polled.requests Demo.aliceTxid = false := by
  decide +kernel

theorem Demo.polled_reachable :
    Runs.Reachable (watcher Demo.repaidOutside Demo.handler Demo.START_LEDGER) Demo.polled := by
  have hstart : Runs.Reachable (watcher Demo.repaidOutside Demo.handler Demo.START_LEDGER)
      Demo.machine := .init rfl
  exact hstart.step (a := .run .poll) trivial rfl

theorem Demo.outside_ledger {steps : List Lend.Demo.Step}
    {h : Demo.wellFormed (Demo.logAfter steps) = true} (k : Nat) (e : ChainEvent)
    (he : e ∈ ((Demo.outside steps h).chain k).log) : Demo.START_LEDGER ≤ e.ledger :=
  Demo.logAfter_ledger he

/-- After the poll her repayment has its row. -/
theorem watcher_loses_nothing_vector : ∃ row ∈ Demo.polled.releases.pending,
    row.contractId = Demo.repaidOutside.contractId ∧ row.txid = Demo.aliceTxid := by
  obtain ⟨-, hrows, -⟩ := watcher_loses_nothing Demo.repaidOutside Demo.handler Demo.START_LEDGER
    Demo.outside_ledger Demo.polled Demo.polled_reachable
  have hmem : Demo.aliceTxid ∈ Demo.polled.releases.pending.map PendingRelease.txid := by
    rw [Demo.polled_run.1]
    exact List.mem_singleton_self _
  obtain ⟨row, hrow, htxid⟩ := List.mem_map.mp hmem
  exact ⟨row, hrow, (hrows row hrow).1, htxid⟩

end Writz.Relayer

import Writz.Relayer.Deployment
import Writz.Relayer.Proofs.Swap

/-!
# Proofs: a failed rebuild changes nothing

It does so where nothing fails between the removal of the archive's log and the end, or where what such
a failure leaves is what there was.
-/

namespace Writz.Relayer

open Node

variable {O : Environment} {deps : RebuildDeps} {checked : Checked} {m m' m₁ : Machine}

/-- A rebuild that rejects leaves both databases as they were, as they read back; one that swaps has
replaced both. -/
structure AllOrNothing (O : Environment) (deps : RebuildDeps) (m : Machine) : Prop where
  rejected : ∀ e m', rebuildLendState O deps m = (.error e, m') →
    m'.archive.contents = m.archive.contents ∧ m'.releases = m.releases
  swapped : ∀ report m', rebuildLendState O deps m = (.ok report, m') → report.swapped = true →
    ∃ checked m₁ cursor t, rebuildChecks O deps m = (.ok checked, m₁) ∧
      report = checked.report O deps.dryRun ∧ checked.store.cursor = some cursor ∧
      m'.archive = { file := some checked.store, wal := none } ∧
      m.releases.recordBatch O.contractId checked.missingReleases cursor t = .ok m'.releases

/-- Where a file operation of a swap fails, or one of the two after it, what is left is what there
was. -/
structure SwapHarmless (O : Environment) (checked : Checked) (m : Machine) : Prop where
  /-- Without its log, the archive is the same. -/
  logLost : (∀ i < 2, O.Works m i) → ¬ O.Works m 2 ∨ ¬ O.Works m 3 →
    m.archive.file.getD .empty = m.archive.contents
  /-- The new archive is the old one. -/
  archiveReplaced : (∀ i < 4, O.Works m i) → ¬ (∀ i < 8, O.Works m i) →
    checked.store = m.archive.contents
  /-- The queue has nothing new. -/
  queueWritten : (∀ i < 6, O.Works m i) → ¬ (∀ i < 8, O.Works m i) →
    ∀ cursor, checked.store.cursor = some cursor → m.releases.recordBatch O.contractId
      checked.missingReleases cursor (O.now (m.operations + 5)) = .ok m.releases

/-- A swap whose failures are harmless leaves what there was, where the rebuild rejects. -/
theorem SwapHarmless.rejected (h : SwapHarmless O checked m) {cursor : Text}
    (hcursor : checked.store.cursor = some cursor) {r : Except Failure Unit}
    (hends : SwapEnds O checked.store cursor checked.missingReleases m (r, m'))
    (hfails : ¬ (r.isOk = true ∧ O.Works m' 0 ∧ O.Works m' 1)) :
    m'.archive.contents = m.archive.contents ∧ m'.releases = m.releases := by
  cases hends with
  | kept e n hstep => exact ⟨rfl, rfl⟩
  | logLost e n hworks hstep => exact ⟨h.logLost hworks hstep, rfl⟩
  | archiveOnly e n hworks hstep =>
    refine ⟨h.archiveReplaced hworks fun hall => ?_, rfl⟩
    exact hstep.elim (fun h₄ => h₄ (hall 4 (by omega))) fun h₅ => h₅ (hall 5 (by omega))
  | both releases hworks hbatch =>
    have hnot : ¬ ∀ i < 8, O.Works m i := fun hall =>
      hfails ⟨rfl, hall 6 (by omega), hall 7 (by omega)⟩
    have hsame := h.queueWritten hworks hnot cursor hcursor
    rw [hbatch] at hsame
    exact ⟨h.archiveReplaced (fun i hi => hworks i (by omega)) hnot, Except.ok.inj hsame⟩

/-- A swap that leaves what there was, where the rebuild rejects, is one whose failures are harmless. -/
theorem swapHarmless_of_rejected {cursor : Text} (hcursor : checked.store.cursor = some cursor)
    {r : Except Failure Unit}
    (hends : SwapEnds O checked.store cursor checked.missingReleases m (r, m'))
    (hkept : ¬ (r.isOk = true ∧ O.Works m' 0 ∧ O.Works m' 1) →
      m'.archive.contents = m.archive.contents ∧ m'.releases = m.releases) :
    SwapHarmless O checked m := by
  cases hends with
  | kept e n hstep =>
    have hnot : ¬ ∀ i < 2, O.Works m i := fun hall =>
      hstep.elim (fun h₀ => h₀ (hall 0 (by omega))) fun h₁ => h₁ (hall 1 (by omega))
    exact ⟨fun hworks => absurd hworks hnot,
      fun hworks => absurd (fun i hi => hworks i (by omega)) hnot,
      fun hworks => absurd (fun i hi => hworks i (by omega)) hnot⟩
  | logLost e n hworks hstep =>
    have hnot : ¬ ∀ i < 4, O.Works m i := fun hall =>
      hstep.elim (fun h₂ => h₂ (hall 2 (by omega))) fun h₃ => h₃ (hall 3 (by omega))
    obtain ⟨harchive, -⟩ := hkept fun h => absurd h.1 Bool.false_ne_true
    exact ⟨fun _ _ => harchive, fun hworks => absurd hworks hnot,
      fun hworks => absurd (fun i hi => hworks i (by omega)) hnot⟩
  | archiveOnly e n hworks hstep =>
    have hnot : ¬ ∀ i < 6, O.Works m i := fun hall =>
      hstep.elim (fun h₄ => h₄ (hall 4 (by omega))) fun h₅ => h₅ (hall 5 (by omega))
    obtain ⟨harchive, -⟩ := hkept fun h => absurd h.1 Bool.false_ne_true
    refine ⟨fun _ hfails => ?_, fun _ _ => harchive, fun hworks => absurd hworks hnot⟩
    exact hfails.elim (absurd (hworks 2 (by omega))) (absurd (hworks 3 (by omega)))
  | both releases hworks hbatch =>
    have hboth : ¬ (∀ i < 8, O.Works m i) →
        ¬ (O.Works { m with operations := m.operations + 6 } 0 ∧
          O.Works { m with operations := m.operations + 6 } 1) := by
      rintro hnot ⟨h₆, h₇⟩
      refine hnot fun i hi => ?_
      rcases Nat.lt_or_ge i 6 with hlt | hge
      · exact hworks i hlt
      · obtain rfl | rfl : i = 6 ∨ i = 7 := by omega
        · exact h₆
        · exact h₇
    refine ⟨fun _ hfails => ?_, fun _ hnot => ?_, fun _ hnot cursor' hcursor' => ?_⟩
    · exact hfails.elim (absurd (hworks 2 (by omega))) (absurd (hworks 3 (by omega)))
    · exact (hkept fun h => hboth hnot h.2).1
    · obtain rfl : cursor = cursor' := Option.some.inj (hcursor.symm.trans hcursor')
      have hreleases : releases = m.releases := (hkept fun h => hboth hnot h.2).2
      exact hreleases ▸ hbatch

theorem Machine.Reads.contents (h : m.Reads m') : m'.archive.contents = m.archive.contents :=
  congrArg ArchiveFiles.contents h.archive

theorem allOrNothing_of_error {e : Failure} (hr : rebuildLendState O deps m = (.error e, m'))
    (harchive : m'.archive.contents = m.archive.contents) (hreleases : m'.releases = m.releases) :
    AllOrNothing O deps m where
  rejected e' m'' hr' := by
    rw [hr] at hr'
    cases hr'
    exact ⟨harchive, hreleases⟩
  swapped report m'' hr' := by
    rw [hr] at hr'
    cases hr'

theorem allOrNothing_of_ok {report : RebuildReport} (hr : rebuildLendState O deps m = (.ok report, m'))
    (hswapped : report.swapped = true → ∃ checked m₁ cursor t,
      rebuildChecks O deps m = (.ok checked, m₁) ∧ report = checked.report O deps.dryRun ∧
      checked.store.cursor = some cursor ∧
      m'.archive = { file := some checked.store, wal := none } ∧
      m.releases.recordBatch O.contractId checked.missingReleases cursor t = .ok m'.releases) :
    AllOrNothing O deps m where
  rejected e m'' hr' := by
    rw [hr] at hr'
    cases hr'
  swapped report' m'' hr' := by
    rw [hr] at hr'
    cases hr'
    exact hswapped

/-- A rebuild that never swaps changes nothing. -/
theorem allOrNothing_of_dryRun (hdry : deps.dryRun = true)
    (hchecks : rebuildChecks O deps m = (.ok checked, m₁)) : AllOrNothing O deps m := by
  obtain ⟨m', hm', hok, herror⟩ := rebuild_of_checked hchecks (finishRebuild_of_dryRun hdry)
  have hreads := ((onlyReads_rebuildChecks deps).of_eq hchecks).trans hm'
  by_cases hworks : O.Works m₁ 0 ∧ O.Works m₁ 1
  · exact allOrNothing_of_ok (hok hworks) nofun
  · obtain ⟨e, he⟩ := herror hworks
    exact allOrNothing_of_error he hreads.contents hreads.releases

theorem allOrNothing_of_swap (hdry : deps.dryRun = false)
    (hchecks : rebuildChecks O deps m = (.ok checked, m₁)) (hharmless : SwapHarmless O checked m₁) :
    AllOrNothing O deps m := by
  have hreads := (onlyReads_rebuildChecks deps).of_eq hchecks
  obtain ⟨cursor, r, m₂, m', hcursor, hends, hm', hok, herror⟩ := rebuild_of_swap hchecks hdry
  by_cases hworks : r.isOk = true ∧ O.Works m₂ 0 ∧ O.Works m₂ 1
  · obtain ⟨harchive, hbatch⟩ := hends.of_ok hworks.1
    rw [hreads.releases, ← hm'.releases] at hbatch
    refine allOrNothing_of_ok (hok hworks) fun _ => ?_
    refine ⟨checked, m₁, cursor, _, hchecks, ?_, hcursor, hm'.archive.trans harchive, hbatch⟩
    rw [hdry]
  · obtain ⟨e, he⟩ := herror hworks
    obtain ⟨harchive, hreleases⟩ := hharmless.rejected hcursor hends hworks
    exact allOrNothing_of_error he ((hm'.contents.trans harchive).trans hreads.contents)
      ((hm'.releases.trans hreleases).trans hreads.releases)

/-- A failed rebuild changes nothing, and a successful one replaces both databases, exactly where a
failure in its swap is harmless. -/
theorem rebuild_all_or_nothing_iff (O : Environment) (deps : RebuildDeps) (m : Machine) :
    AllOrNothing O deps m ↔ (deps.dryRun = false → ∀ checked m₁,
      rebuildChecks O deps m = (.ok checked, m₁) → SwapHarmless O checked m₁) := by
  constructor
  · intro h hdry checked m₁ hchecks
    have hreads := (onlyReads_rebuildChecks deps).of_eq hchecks
    obtain ⟨cursor, r, m₂, m', hcursor, hends, hm', -, herror⟩ := rebuild_of_swap hchecks hdry
    refine swapHarmless_of_rejected hcursor hends fun hfails => ?_
    obtain ⟨e, he⟩ := herror hfails
    obtain ⟨harchive, hreleases⟩ := h.rejected e m' he
    rw [hm'.contents, ← hreads.contents] at harchive
    rw [hm'.releases, ← hreads.releases] at hreleases
    exact ⟨harchive, hreleases⟩
  · intro h
    rcases hchecks : rebuildChecks O deps m with ⟨e | checked, m₁⟩
    · obtain ⟨e', m', he', hreads⟩ := rebuild_of_rejected hchecks
      exact allOrNothing_of_error he' hreads.contents hreads.releases
    · cases hdry : deps.dryRun with
      | true => exact allOrNothing_of_dryRun hdry hchecks
      | false => exact allOrNothing_of_swap hdry hchecks (h hdry checked m₁ hchecks)

/-! ## A half-done swap -/

/-- The queue's database cannot be opened while a rebuild swaps. -/
def Demo.queueLocked : Environment :=
  { repaidOutside.toEnvironment with
    diskFails := fun k => if k = 10 then some "database is locked".toList else none }

def Demo.fromRpc : RebuildDeps where
  deployLedger := START_LEDGER
  archive := none
  dryRun := false

/-- The rebuild rejects, and leaves an archive with a repayment that is nowhere in the queue. -/
theorem rebuild_half_done :
    (∃ e m', rebuildLendState Demo.queueLocked Demo.fromRpc Demo.machine = (.error e, m') ∧
      (∃ row ∈ m'.archive.contents.rows, row.name = "repay_full".toList ∧ row.subject = Demo.aliceTxid) ∧
      m'.releases.pending = []) ∧
      ¬ AllOrNothing Demo.queueLocked Demo.fromRpc Demo.machine := by
  have hrun : (match rebuildLendState Demo.queueLocked Demo.fromRpc Demo.machine with
      | (.error _, m') => decide ((∃ row ∈ m'.archive.contents.rows,
          row.name = "repay_full".toList ∧ row.subject = Demo.aliceTxid) ∧ m'.releases.pending = [])
      | (.ok _, _) => false) = true := by decide +kernel
  rcases hr : rebuildLendState Demo.queueLocked Demo.fromRpc Demo.machine with ⟨e | report, m'⟩
  · rw [hr] at hrun
    obtain ⟨⟨row, hrow, hrepaid⟩, hqueue⟩ := of_decide_eq_true hrun
    refine ⟨⟨e, m', rfl, ⟨row, hrow, hrepaid⟩, hqueue⟩, fun h => ?_⟩
    -- there was no archive before
    rw [(h.rejected e m' hr).1] at hrow
    cases hrow
  · rw [hr] at hrun
    cases hrun

end Writz.Relayer

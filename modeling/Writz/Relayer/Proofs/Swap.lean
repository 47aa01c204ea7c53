import Writz.Relayer.LendEvents.System
import Writz.Relayer.Proofs.Archive

/-!
# Proofs: what a failed rebuild leaves

The checks of a rebuild only read. Its swap is a row of file operations, over the archive and then over
the queue: what is left where it stops depends on the first one that fails.
-/

namespace Writz.Relayer

open Node

variable {O : Environment} {m m' : Machine}

/-! ## The swap -/

/-- Whether one of the next file operations works, counted from zero. -/
def Environment.Works (O : Environment) (m : Machine) (i : Nat) : Prop :=
  O.diskFails (m.operations + i) = none

theorem disk_of_works (h : O.Works m 0) :
    disk O m = (.ok (), { m with operations := m.operations + 1 }) :=
  disk_eq_ok.mpr ⟨h, rfl⟩

theorem disk_of_not_works (h : ¬ O.Works m 0) :
    ∃ e, disk O m = (.error e, { m with operations := m.operations + 1 }) := by
  obtain ⟨message, hmessage⟩ := Option.ne_none_iff_exists'.mp h
  refine ⟨.error message, ?_⟩
  rw [Nat.add_zero] at hmessage
  simp only [disk, hmessage]

/-- How a swap ends. -/
inductive SwapEnds (O : Environment) (store : LendEventStore) (cursor : Text) (missing : List Text)
    (m : Machine) : Except Failure Unit × Machine → Prop
  /-- The export fails, or the removal of the log. -/
  | kept (e : Failure) (n : Nat) (hfails : ¬ O.Works m 0 ∨ ¬ O.Works m 1) :
    SwapEnds O store cursor missing m (.error e, { m with operations := n })
  /-- The removal of the log's index fails, or the renaming. -/
  | logLost (e : Failure) (n : Nat) (hworks : ∀ i < 2, O.Works m i)
      (hfails : ¬ O.Works m 2 ∨ ¬ O.Works m 3) :
    SwapEnds O store cursor missing m
      (.error e, { m with operations := n, archive := { m.archive with wal := none } })
  /-- Opening the queue fails, or writing to it. -/
  | archiveOnly (e : Failure) (n : Nat) (hworks : ∀ i < 4, O.Works m i)
      (hfails : ¬ O.Works m 4 ∨ ¬ O.Works m 5) :
    SwapEnds O store cursor missing m
      (.error e, { m with operations := n, archive := { file := some store, wal := none } })
  | both (releases : ReleaseStore) (hworks : ∀ i < 6, O.Works m i)
      (hbatch : m.releases.recordBatch O.contractId missing cursor (O.now (m.operations + 5))
        = .ok releases) :
    SwapEnds O store cursor missing m
      (.ok (), { m with
        operations := m.operations + 6, archive := { file := some store, wal := none }, releases })

/-- A file operation before more of a program: it fails, or the program goes on. -/
theorem bind_disk {α : Type} {f : Unit → Async α} {P : Except Failure α × Machine → Prop}
    (hfails : ¬ O.Works m 0 → ∀ e, P (.error e, { m with operations := m.operations + 1 }))
    (hworks : O.Works m 0 → P (f () { m with operations := m.operations + 1 })) :
    P ((disk O >>= f) m) := by
  by_cases h : O.Works m 0
  · rw [Program.bind_of_ok (disk_of_works h)]
    exact hworks h
  · obtain ⟨e, he⟩ := disk_of_not_works h
    rw [Program.bind_of_error he]
    exact hfails h e

theorem swapIn_ends {store : LendEventStore} {cursor : Text} (hcursor : store.cursor = some cursor)
    (hvalid : isValidCursor cursor = true) (missing : List Text) (m : Machine) :
    SwapEnds O store cursor missing m (swapIn O store missing m) := by
  have hbatch : ∃ releases, m.releases.recordBatch O.contractId missing cursor
      (O.now (m.operations + 5)) = .ok releases := by
    unfold ReleaseStore.recordBatch assertValidCursor
    rw [hvalid]
    exact ⟨_, rfl⟩
  obtain ⟨releases, hbatch⟩ := hbatch
  unfold swapIn
  rw [hcursor]
  change SwapEnds O store cursor missing m (Program.bind _ _ m)
  refine bind_disk (fun h e => .kept e _ (.inl h)) fun h₀ => ?_
  refine bind_disk (fun h e => .kept e _ (.inr h)) fun h₁ => ?_
  have works₂ : ∀ i < 2, O.Works m i
    | 0, _ => h₀
    | 1, _ => h₁
  rw [Program.modify_bind]
  refine bind_disk (fun h e => .logLost e _ works₂ (.inl h)) fun h₂ => ?_
  refine bind_disk (fun h e => .logLost e _ works₂ (.inr h)) fun h₃ => ?_
  have works₄ : ∀ i < 4, O.Works m i
    | 0, _ => h₀
    | 1, _ => h₁
    | 2, _ => h₂
    | 3, _ => h₃
  rw [Program.modify_bind]
  refine bind_disk (fun h e => .archiveOnly e _ works₄ (.inl h)) fun h₄ => ?_
  rw [Program.bind_of_ok (now_eq_ok.mpr ⟨rfl, rfl⟩)]
  refine bind_disk (fun h e => .archiveOnly e _ works₄ (.inr h)) fun h₅ => ?_
  have works₆ : ∀ i < 6, O.Works m i
    | 0, _ => h₀
    | 1, _ => h₁
    | 2, _ => h₂
    | 3, _ => h₃
    | 4, _ => h₄
    | 5, _ => h₅
  rw [Program.get_bind, Program.bind_of_ok (ofResult_eq_ok.mpr ⟨hbatch, rfl⟩)]
  exact .both releases works₆ hbatch

theorem SwapEnds.of_ok {store : LendEventStore} {cursor : Text} {missing : List Text}
    {r : Except Failure Unit} (h : SwapEnds O store cursor missing m (r, m')) (hr : r.isOk = true) :
    m'.archive = { file := some store, wal := none } ∧
      m.releases.recordBatch O.contractId missing cursor (O.now (m.operations + 5))
        = .ok m'.releases := by
  cases h with
  | both releases hworks hbatch => exact ⟨rfl, hbatch⟩
  | _ => cases hr

/-! ## The checks -/

/-- A rebuild before its temporary database. -/
def beforeTemp (O : Environment) (deps : RebuildDeps) : Async Unit := do
  let k ← request O
  let (oldest, latest) := O.ledgerRange k
  ofResult (checkRange deps oldest latest)
  disk O
  disk O
  disk O

/-- The checks in the temporary database. -/
def checkInTemp (O : Environment) (deps : RebuildDeps) : Async Checked := do
  let temp ← openTemp O deps.archive
  let temp ← catchUp O deps.deployLedger MAX_CYCLES temp
  verifyRounds O deps.deployLedger (MAX_VERIFY_ROUNDS - 1) temp

/-- A rebuild up to its swap. -/
def rebuildChecks (O : Environment) (deps : RebuildDeps) : Async Checked :=
  beforeTemp O deps >>= fun _ => checkInTemp O deps

def Checked.report (O : Environment) (dryRun : Bool) (checked : Checked) : RebuildReport where
  events := (checked.store.list O.contractId).length
  positions := checked.state.positions.length
  suppliers := checked.state.scaledBySupplier.length
  totalScaled := checked.state.totalScaled
  repaidInFull := checked.state.repaidInFull.length
  missingReleases := checked.missingReleases
  swapped := !dryRun

/-- A rebuild from its swap on. -/
def finishRebuild (O : Environment) (deps : RebuildDeps) (checked : Checked) : Async RebuildReport :=
  if deps.dryRun then
    pure (checked.report O deps.dryRun)
  else do
    swapIn O checked.store checked.missingReleases
    pure (checked.report O deps.dryRun)

/-- Removes the temporary database. -/
def cleanUp (O : Environment) : Async Unit := do
  disk O
  disk O

theorem rebuildLendState_eq (O : Environment) (deps : RebuildDeps) :
    rebuildLendState O deps = beforeTemp O deps >>= fun _ =>
      (checkInTemp O deps >>= finishRebuild O deps).tryFinally (cleanUp O) := by
  unfold rebuildLendState beforeTemp checkInTemp rebuildInTemp
  simp only [Program.bind_assoc]
  rfl

theorem onlyReads_beforeTemp (deps : RebuildDeps) : OnlyReads (beforeTemp O deps) :=
  OnlyReads.request.bind fun _ => (OnlyReads.ofResult _).bind fun _ => OnlyReads.disk.bind fun _ =>
    OnlyReads.disk.bind fun _ => OnlyReads.disk

theorem onlyReads_checkInTemp (deps : RebuildDeps) : OnlyReads (checkInTemp O deps) :=
  (onlyReads_openTemp _).bind fun _ => (onlyReads_catchUp _ _ _).bind fun _ =>
    onlyReads_verifyRounds _ _ _

theorem onlyReads_rebuildChecks (deps : RebuildDeps) : OnlyReads (rebuildChecks O deps) :=
  (onlyReads_beforeTemp deps).bind fun _ => onlyReads_checkInTemp deps

theorem onlyReads_cleanUp : OnlyReads (cleanUp O) := OnlyReads.disk.bind fun _ => OnlyReads.disk

/-- It works where both of its operations do. -/
theorem cleanUp_ok_iff : (∃ m', cleanUp O m = (.ok (), m')) ↔ O.Works m 0 ∧ O.Works m 1 := by
  simp only [cleanUp, Program.bind_eq_ok, disk_eq_ok]
  constructor
  · rintro ⟨_, _, _, ⟨h₀, rfl⟩, h₁, -⟩
    exact ⟨h₀, h₁⟩
  · rintro ⟨h₀, h₁⟩
    exact ⟨_, (), _, ⟨h₀, rfl⟩, h₁, rfl⟩

/-- What the removal of the temporary database makes of a result. -/
theorem tryFinally_cleanUp {α : Type} {p : Async α} {r : Except Failure α} {m₁ : Machine}
    (hp : p m = (r, m₁)) : ∃ m', m₁.Reads m' ∧
      (O.Works m₁ 0 ∧ O.Works m₁ 1 → p.tryFinally (cleanUp O) m = (r, m')) ∧
      (¬ (O.Works m₁ 0 ∧ O.Works m₁ 1) → ∃ e, p.tryFinally (cleanUp O) m = (.error e, m')) := by
  rcases hclean : cleanUp O m₁ with ⟨e | _, m'⟩
  · refine ⟨m', onlyReads_cleanUp.of_eq hclean, fun hworks => ?_, fun _ => ?_⟩
    · obtain ⟨m'', hok⟩ := cleanUp_ok_iff.mpr hworks
      rw [hclean] at hok
      cases hok
    · exact ⟨e, Program.tryFinally_of_error hp hclean⟩
  · refine ⟨m', onlyReads_cleanUp.of_eq hclean, fun _ => Program.tryFinally_of_ok hp hclean, ?_⟩
    exact fun hnot => absurd (cleanUp_ok_iff.mp ⟨m', hclean⟩) hnot

/-! ## The cursor of what is checked -/

/-- A database that has read a page. -/
def LendEventStore.HasCursor (store : LendEventStore) : Prop :=
  ∃ cursor, store.cursor = some cursor ∧ isValidCursor cursor = true

theorem readPage_hasCursor {deployLedger : Option Nat} {store store' : LendEventStore} {more : Bool}
    (hr : readPage O deployLedger store m = (.ok (store', more), m')) : store'.HasCursor := by
  simp only [readPage, Program.bind_eq_ok, Program.pure_eq_ok, ofResult_eq_ok] at hr
  obtain ⟨_, _, -, _, _, -, _, _, -, _, _, ⟨hcommit, -⟩, hpair, -⟩ := hr
  obtain ⟨hvalid, rfl⟩ := commit_eq_ok.mp hcommit
  obtain ⟨rfl, -⟩ := Prod.mk.inj hpair
  exact ⟨_, rfl, hvalid⟩

theorem readPages_hasCursor {deployLedger : Option Nat} {pages : Nat} :
    ∀ {store store' : LendEventStore} {reached : Bool} {m m' : Machine},
      readPages O deployLedger (pages + 1) store m = (.ok (store', reached), m') →
        store'.HasCursor := by
  induction pages with
  | zero =>
    intro store store' reached m m' hr
    rw [readPages, Program.bind_eq_ok] at hr
    obtain ⟨⟨store₁, more⟩, m₁, hpage, hr⟩ := hr
    have h₁ := readPage_hasCursor hpage
    cases more <;> obtain ⟨hpair, -⟩ := Program.pure_eq_ok.mp hr <;>
      obtain ⟨rfl, -⟩ := Prod.mk.inj hpair <;> exact h₁
  | succ pages ih =>
    intro store store' reached m m' hr
    rw [readPages, Program.bind_eq_ok] at hr
    obtain ⟨⟨store₁, more⟩, m₁, hpage, hr⟩ := hr
    cases more with
    | false =>
      obtain ⟨hpair, -⟩ := Program.pure_eq_ok.mp hr
      obtain ⟨rfl, -⟩ := Prod.mk.inj hpair
      exact readPage_hasCursor hpage
    | true => exact ih hr

theorem catchUp_hasCursor {deploy cycles : Nat} :
    ∀ {store store' : LendEventStore} {m m' : Machine},
      catchUp O deploy cycles store m = (.ok store', m') → store'.HasCursor := by
  induction cycles with
  | zero => exact fun hr => absurd (fail_eq_ok.mp hr) not_false
  | succ cycles ih =>
    intro store store' m m' hr
    rw [catchUp, Program.bind_eq_ok] at hr
    obtain ⟨⟨store₁, reached⟩, m₁, hcycle, hr⟩ := hr
    cases reached with
    | true =>
      obtain ⟨rfl, -⟩ := Program.pure_eq_ok.mp hr
      exact readPages_hasCursor hcycle
    | false => exact ih hr

/-- A round of the checks: the last one, or one that meets new events. -/
theorem verifyRounds_step {deploy rounds : Nat} {store : LendEventStore} {checked : Checked}
    (hr : verifyRounds O deploy rounds store m = (.ok checked, m')) :
    ∃ state result m₂ store' m₃, replay (store.list O.contractId) = .ok state ∧
      verifyAgainstChain O state m = (.ok result, m₂) ∧
      catchUp O deploy MAX_CYCLES store m₂ = (.ok store', m₃) ∧
      ((∃ rounds', rounds = rounds' + 1 ∧ verifyRounds O deploy rounds' store' m₃ = (.ok checked, m')) ∨
        ((store'.list O.contractId).length = (store.list O.contractId).length ∧ result.mismatch = none ∧
          checked = { store := store', state, missingReleases := result.missingReleases } ∧ m' = m₃)) := by
  rw [verifyRounds] at hr
  simp only [Program.bind_eq_ok, ofResult_eq_ok] at hr
  obtain ⟨state, _, ⟨hreplay, rfl⟩, result, m₂, hverify, store', m₃, hcatch, hr⟩ := hr
  refine ⟨state, result, m₂, store', m₃, hreplay, hverify, hcatch, ?_⟩
  split_ifs at hr with hne
  · cases rounds with
    | zero => exact absurd (fail_eq_ok.mp hr) not_false
    | succ rounds => exact .inl ⟨rounds, rfl, hr⟩
  · cases hmismatch : result.mismatch with
    | some mismatch =>
      rw [hmismatch] at hr
      exact absurd (Program.throw_eq_ok.mp hr) not_false
    | none =>
      rw [hmismatch] at hr
      obtain ⟨rfl, rfl⟩ := Program.pure_eq_ok.mp hr
      exact .inr ⟨not_not.mp hne, rfl, rfl, rfl⟩

theorem verifyRounds_hasCursor {deploy rounds : Nat} {checked : Checked} :
    ∀ {store : LendEventStore} {m m' : Machine},
      verifyRounds O deploy rounds store m = (.ok checked, m') → checked.store.HasCursor := by
  induction rounds with
  | zero =>
    intro store m m' hr
    obtain ⟨state, result, m₂, store', m₃, -, -, hcatch, hlast⟩ := verifyRounds_step hr
    rcases hlast with ⟨rounds', hrounds, -⟩ | ⟨-, -, rfl, -⟩
    · exact absurd hrounds (Nat.succ_ne_zero rounds').symm
    · exact catchUp_hasCursor hcatch
  | succ rounds ih =>
    intro store m m' hr
    obtain ⟨state, result, m₂, store', m₃, -, -, hcatch, hlast⟩ := verifyRounds_step hr
    rcases hlast with ⟨rounds', hrounds, hrest⟩ | ⟨-, -, rfl, -⟩
    · obtain rfl := Nat.succ.inj hrounds
      exact ih hrest
    · exact catchUp_hasCursor hcatch

theorem rebuildChecks_hasCursor {deps : RebuildDeps} {checked : Checked}
    (hr : rebuildChecks O deps m = (.ok checked, m')) : checked.store.HasCursor := by
  simp only [rebuildChecks, checkInTemp, Program.bind_eq_ok] at hr
  obtain ⟨_, _, -, _, _, -, _, _, -, hverify⟩ := hr
  exact verifyRounds_hasCursor hverify

/-! ## The whole rebuild -/

section Whole

variable {deps : RebuildDeps} {checked : Checked} {m₁ : Machine}

/-- Where the checks reject, the rebuild does, and nothing has changed. -/
theorem rebuild_of_rejected {e : Failure} (hchecks : rebuildChecks O deps m = (.error e, m₁)) :
    ∃ e' m', rebuildLendState O deps m = (.error e', m') ∧ m.Reads m' := by
  rw [rebuildLendState_eq]
  unfold rebuildChecks at hchecks
  rcases hbefore : beforeTemp O deps m with ⟨e' | _, m₂⟩
  · exact ⟨e', m₂, Program.bind_of_error hbefore, (onlyReads_beforeTemp deps).of_eq hbefore⟩
  · rw [Program.bind_of_ok hbefore] at hchecks ⊢
    have hreads := ((onlyReads_beforeTemp deps).of_eq hbefore).trans
      ((onlyReads_checkInTemp deps).of_eq hchecks)
    obtain ⟨m', hm', hok, herror⟩ :=
      tryFinally_cleanUp (Program.bind_of_error (f := finishRebuild O deps) hchecks)
    by_cases hworks : O.Works m₁ 0 ∧ O.Works m₁ 1
    · exact ⟨e, m', hok hworks, hreads.trans hm'⟩
    · obtain ⟨e', he'⟩ := herror hworks
      exact ⟨e', m', he', hreads.trans hm'⟩

/-- Past the checks a rebuild is its end, and the removal of the temporary database. -/
theorem rebuild_of_checked (hchecks : rebuildChecks O deps m = (.ok checked, m₁))
    {r : Except Failure RebuildReport} {m₂ : Machine}
    (hfinish : finishRebuild O deps checked m₁ = (r, m₂)) : ∃ m', m₂.Reads m' ∧
      (O.Works m₂ 0 ∧ O.Works m₂ 1 → rebuildLendState O deps m = (r, m')) ∧
      (¬ (O.Works m₂ 0 ∧ O.Works m₂ 1) → ∃ e, rebuildLendState O deps m = (.error e, m')) := by
  rw [rebuildLendState_eq]
  obtain ⟨_, m₀, hbefore, hcheck⟩ := Program.bind_eq_ok.mp hchecks
  rw [Program.bind_of_ok hbefore]
  exact tryFinally_cleanUp ((Program.bind_of_ok hcheck).trans hfinish)

theorem finishRebuild_of_dryRun (hdry : deps.dryRun = true) :
    finishRebuild O deps checked m = (.ok (checked.report O true), m) := by
  unfold finishRebuild
  rw [hdry, if_pos rfl]
  rfl

theorem finishRebuild_of_error (hdry : deps.dryRun = false) {e : Failure}
    (hswap : swapIn O checked.store checked.missingReleases m = (.error e, m₁)) :
    finishRebuild O deps checked m = (.error e, m₁) := by
  unfold finishRebuild
  rw [hdry, if_neg Bool.false_ne_true, Program.bind_of_error hswap]

theorem finishRebuild_of_ok (hdry : deps.dryRun = false)
    (hswap : swapIn O checked.store checked.missingReleases m = (.ok (), m₁)) :
    finishRebuild O deps checked m = (.ok (checked.report O false), m₁) := by
  unfold finishRebuild
  rw [hdry, if_neg Bool.false_ne_true, Program.bind_of_ok hswap]
  rfl

/-- A run that swaps, up to the removal of the temporary database. -/
theorem rebuild_of_swap (hchecks : rebuildChecks O deps m = (.ok checked, m₁))
    (hdry : deps.dryRun = false) : ∃ cursor r m₂ m', checked.store.cursor = some cursor ∧
      SwapEnds O checked.store cursor checked.missingReleases m₁ (r, m₂) ∧ m₂.Reads m' ∧
      (r.isOk = true ∧ O.Works m₂ 0 ∧ O.Works m₂ 1 →
        rebuildLendState O deps m = (.ok (checked.report O false), m')) ∧
      (¬ (r.isOk = true ∧ O.Works m₂ 0 ∧ O.Works m₂ 1) →
        ∃ e, rebuildLendState O deps m = (.error e, m')) := by
  obtain ⟨cursor, hcursor, hvalid⟩ := rebuildChecks_hasCursor hchecks
  have hends := swapIn_ends (O := O) hcursor hvalid checked.missingReleases m₁
  rcases hswap : swapIn O checked.store checked.missingReleases m₁ with ⟨e | _, m₂⟩
  · rw [hswap] at hends
    obtain ⟨m', hreads, hok, herror⟩ := rebuild_of_checked hchecks (finishRebuild_of_error hdry hswap)
    refine ⟨cursor, _, m₂, m', hcursor, hends, hreads, fun h => absurd h.1 Bool.false_ne_true, fun _ => ?_⟩
    by_cases hworks : O.Works m₂ 0 ∧ O.Works m₂ 1
    · exact ⟨e, hok hworks⟩
    · exact herror hworks
  · rw [hswap] at hends
    obtain ⟨m', hreads, hok, herror⟩ := rebuild_of_checked hchecks (finishRebuild_of_ok hdry hswap)
    exact ⟨cursor, _, m₂, m', hcursor, hends, hreads, fun h => hok h.2,
      fun h => herror fun hworks => h ⟨rfl, hworks⟩⟩

end Whole

end Writz.Relayer

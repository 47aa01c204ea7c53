import Writz.Relayer.Proofs.ArchiveFile
import Writz.Relayer.Proofs.Replay
import Writz.Relayer.Proofs.Swap

/-!
# Proofs: what a rebuild puts in the queue

A rebuild from a file replays the file's rows and those of the events since. What it compares with the
contract is each position's last status; what it queues are the positions with a `repay_full` row and
no release.
-/

namespace Writz.Relayer

open Node
open Lend (PositionStatus)

variable {τ ρ : Type} {H : Lend.Host τ ρ} {O : Outside H} {m m' : Machine}

/-! ## The checks -/

theorem positionStatus_eq_ok {txid : Text} {status : Option PositionStatus}
    (hr : positionStatus O txid m = (.ok status, m')) :
    status = O.statusAt m.requests txid ∧ m'.requests = m.requests + 1 := by
  simp only [positionStatus, getPosition, Program.bind_eq_ok, txidArgument_eq_ok, request_eq_ok,
    Program.pure_eq_ok] at hr
  obtain ⟨position, _, ⟨key, _, ⟨hkey, rfl⟩, _, _, ⟨-, rfl, rfl⟩, rfl, rfl⟩, rfl, rfl⟩ := hr
  refine ⟨?_, rfl⟩
  rw [History.statusAt, hkey, Option.bind_some, O.position_eq]

theorem hasRelease_eq_ok {txid : Text} {released : Bool}
    (hr : hasRelease O txid m = (.ok released, m')) :
    released = O.releasedAt m.requests txid ∧ m'.requests = m.requests + 1 ∧
      O.fails m.requests = none := by
  simp only [hasRelease, getReleasePsbt, Program.bind_eq_ok, txidArgument_eq_ok, request_eq_ok,
    Program.pure_eq_ok] at hr
  obtain ⟨psbt, _, ⟨key, _, ⟨hkey, rfl⟩, _, _, ⟨hanswers, rfl, rfl⟩, rfl, rfl⟩, rfl, rfl⟩ := hr
  refine ⟨?_, rfl, hanswers⟩
  rw [History.releasedAt, hkey, Option.any_some, O.releasePsbt_eq]

/-- Every position had the expected status when it was asked for. -/
theorem verifyPositions_eq_ok {positions : JsMap Text PositionStatus} :
    ∀ {m m' : Machine}, verifyPositions O positions m = (.ok none, m') →
      ∀ entry ∈ positions, ∃ k, m.requests ≤ k ∧ k < m'.requests ∧
        O.statusAt k entry.1 = some entry.2 := by
  induction positions with
  | nil => exact fun _ entry hentry => absurd hentry List.not_mem_nil
  | cons entry positions ih =>
    intro m m' hr entry' hentry'
    rw [verifyPositions, Program.bind_eq_ok] at hr
    obtain ⟨status, m₁, hstatus, hr⟩ := hr
    obtain ⟨rfl, hm₁⟩ := positionStatus_eq_ok hstatus
    split_ifs at hr with hne
    · exact absurd (Program.pure_eq_ok.mp hr).1 (by simp)
    · have hm' := ((onlyReads_verifyPositions positions).of_eq hr).requests
      rcases List.mem_cons.mp hentry' with rfl | hentry'
      · exact ⟨m.requests, le_rfl, by omega, not_not.mp hne⟩
      · obtain ⟨k, hk, hk', hs⟩ := ih hr entry' hentry'
        exact ⟨k, by omega, hk', hs⟩

/-- The listed ones are those that had no release when they were first asked for. -/
theorem withoutRelease_eq_ok {txids : List Text} :
    ∀ {m m' : Machine} {missing : List Text}, withoutRelease O txids m = (.ok missing, m') →
      (∀ txid ∈ missing, txid ∈ txids) ∧ ∀ txid ∈ txids, ∃ k, m.requests ≤ k ∧ k < m'.requests ∧
        (txid ∈ missing ↔ O.releasedAt k txid = false) := by
  induction txids with
  | nil =>
    intro m m' missing hr
    obtain ⟨rfl, -⟩ := Program.pure_eq_ok.mp hr
    exact ⟨fun _ h => h, fun _ h => absurd h List.not_mem_nil⟩
  | cons t txids ih =>
    intro m m' missing hr
    simp only [withoutRelease, Program.bind_eq_ok, Program.pure_eq_ok] at hr
    obtain ⟨released, m₁, hreleased, rest, m₂, hrest, hmissing, rfl⟩ := hr
    obtain ⟨rfl, hm₁, -⟩ := hasRelease_eq_ok hreleased
    obtain ⟨hsub, hall⟩ := ih hrest
    have hm₂ := ((onlyReads_withoutRelease txids).of_eq hrest).requests
    have hrest_sub : ∀ txid ∈ rest, txid ∈ missing := by
      intro txid htxid
      rw [← hmissing]
      split_ifs
      · exact htxid
      · exact List.mem_cons_of_mem _ htxid
    have hmissing_sub : ∀ txid ∈ missing, txid ≠ t → txid ∈ rest := by
      intro txid htxid hne
      rw [← hmissing] at htxid
      split_ifs at htxid
      · exact htxid
      · exact (List.mem_cons.mp htxid).resolve_left hne
    refine ⟨fun txid htxid => ?_, fun txid htxid => ?_⟩
    · by_cases ht : txid = t
      · exact ht ▸ List.mem_cons_self
      · exact List.mem_cons_of_mem _ (hsub txid (hmissing_sub txid htxid ht))
    · by_cases ht : txid = t
      · subst ht
        refine ⟨m.requests, le_rfl, by omega, ?_⟩
        rw [← hmissing]
        cases hk : O.releasedAt m.requests txid with
        | false => simp
        | true =>
          -- released by now, so it is not listed when it is asked for again
          simp only [if_true, Bool.true_eq_false, iff_false]
          intro hagain
          obtain ⟨k, hk₁, -, hlisted⟩ := hall txid (hsub txid hagain)
          have hstill := O.releasedAt_le (show m.requests ≤ k by omega) hk
          rw [hlisted.mp hagain] at hstill
          cases hstill
      · obtain ⟨k, hk, hk', hlisted⟩ := hall txid ((List.mem_cons.mp htxid).resolve_left ht)
        refine ⟨k, by omega, hk', ?_⟩
        rw [← hlisted]
        exact ⟨fun h => hmissing_sub txid h ht, hrest_sub txid⟩

theorem verifyAgainstChain_eq_ok {state : ReplayedState} {missing : List Text}
    (hr : verifyAgainstChain O state m = (.ok { mismatch := none, missingReleases := missing }, m')) :
    (∀ entry ∈ state.positions, ∃ k, m.requests ≤ k ∧ k < m'.requests ∧
        O.statusAt k entry.1 = some entry.2) ∧
      (∀ txid ∈ missing, txid ∈ state.repaidInFull) ∧
      ∀ txid ∈ state.repaidInFull, ∃ k, m.requests ≤ k ∧ k < m'.requests ∧
        (txid ∈ missing ↔ O.releasedAt k txid = false) := by
  rw [verifyAgainstChain, Program.bind_eq_ok] at hr
  obtain ⟨position, m₁, hposition, hr⟩ := hr
  split_ifs at hr with hsome
  · have hnone := congrArg VerifyResult.mismatch (Program.pure_eq_ok.mp hr).1
    dsimp only at hnone
    rw [hnone] at hsome
    cases hsome
  obtain rfl : position = none := by simpa using hsome
  obtain ⟨supplier, m₂, hsupplier, hr⟩ := Program.bind_eq_ok.mp hr
  split_ifs at hr with hsome'
  · have hnone := congrArg VerifyResult.mismatch (Program.pure_eq_ok.mp hr).1
    dsimp only at hnone
    rw [hnone] at hsome'
    cases hsome'
  obtain ⟨total, m₃, htotal, hr⟩ := Program.bind_eq_ok.mp hr
  split_ifs at hr with hne
  · exact absurd (congrArg VerifyResult.mismatch (Program.pure_eq_ok.mp hr).1) (by simp)
  obtain ⟨missing', m₄, hmissing, hr⟩ := Program.bind_eq_ok.mp hr
  obtain ⟨hresult, rfl⟩ := Program.pure_eq_ok.mp hr
  obtain rfl : missing' = missing := congrArg VerifyResult.missingReleases hresult
  have h₁ := ((onlyReads_verifyPositions _).of_eq hposition).requests
  have h₂ := ((onlyReads_verifySuppliers _).of_eq hsupplier).requests
  have h₃ := (OnlyReads.getTotalScaledSupply.of_eq htotal).requests
  have h₄ := ((onlyReads_withoutRelease _).of_eq hmissing).requests
  obtain ⟨hsub, hall⟩ := withoutRelease_eq_ok hmissing
  refine ⟨fun entry hentry => ?_, hsub, fun txid htxid => ?_⟩
  · obtain ⟨k, hk, hk', hs⟩ := verifyPositions_eq_ok hposition entry hentry
    exact ⟨k, hk, by omega, hs⟩
  · obtain ⟨k, hk, hk', hlisted⟩ := hall txid htxid
    exact ⟨k, by omega, hk', hlisted⟩

/-! ## The quiet window -/

section Quiet

variable {base : List LendEventRow} {start : Text}

theorem Archived.list_eq {store : LendEventStore} {cursor : Text} {k : Nat}
    (hcontract : ∀ row ∈ base, row.contractId = O.contractId)
    (h : Archived O base start k store cursor) : store.list O.contractId = store.rows := by
  refine List.filter_eq_self.mpr fun row hrow => decide_eq_true ?_
  rw [h.rows] at hrow
  rcases List.mem_append.mp hrow with hrow | hrow
  · exact hcontract row hrow
  · obtain ⟨e, -, -, hcontract'⟩ := mem_eventRows hrow
    exact hcontract'

/-- The database at the end, where no archived event has arrived since a request. -/
structure Quiet (O : Outside H) (base : List LendEventRow) (start : Text) (since : Nat)
    (store : LendEventStore) (m' : Machine) : Prop where
  rows : store.rows = base ++ served O start (m'.requests - 1)
  nothing : ∀ e ∈ (O.chain (m'.requests - 1)).log, textLt start e.id = true →
    (eventColumns e.event).isSome = true → e ∈ (O.chain since).log

/-- Where reading to the tip leaves as many rows as there were, nothing has arrived. -/
theorem CaughtUp.quiet (hbase : ∀ row ∈ base, textLt start row.id = false)
    {store store' : LendEventStore} {cursor : Text} {since : Nat}
    (hstore : Archived O base start since store cursor) (hsince : since ≤ m.requests)
    (h : CaughtUp O base start m m' store store' true)
    (hlength : store'.rows.length = store.rows.length) : Quiet O base start since store' m' := by
  obtain ⟨hlt, hrows⟩ := h.tip rfl
  refine ⟨hrows, fun e he hafter hcolumns => ?_⟩
  obtain ⟨columns, hcolumns⟩ := Option.isSome_iff_exists.mp hcolumns
  have hsame : store.rows = store'.rows := h.grows.eq_of_length hlength.symm
  -- its row is in the table now, so it was before
  have hrow : decodeLendEvent O.encodeRawXdr e O.contractId = some
      { id := e.id, contractId := O.contractId, ledger := e.ledger, txHash := e.txHash
        name := eventName e.event, subject := columns.1, data := columns.2
        rawXdr := O.encodeRawXdr e.event } := by
    rw [decodeLendEvent, hcolumns, Option.map_some]
  have hmem : _ ∈ base ++ served O start (m'.requests - 1) :=
    List.mem_append_right base (List.mem_filterMap.mpr ⟨e, List.mem_filter.mpr ⟨he, hafter⟩, hrow⟩)
  rw [← hrows, ← hsame, hstore.rows] at hmem
  rcases List.mem_append.mp hmem with hold | hold
  · rw [hbase _ hold] at hafter
    cases hafter
  · obtain ⟨e', he', hid, -⟩ := mem_eventRows hold
    have he' := (List.mem_filter.mp he').1
    have hlog := (O.log_le (show since ≤ m'.requests - 1 by omega)).subset he'
    rwa [O.id_inj he hlog hid]

/-- What the checks of the last round met. -/
structure Verified (O : Outside H) (base : List LendEventRow) (start : Text) (m : Machine)
    (checked : Checked) (m' : Machine) : Prop where
  replayed : checked.state.Of checked.store.rows
  round : ∃ m₁ m₂ : Machine, m.requests ≤ m₁.requests ∧ m₂.requests < m'.requests ∧
    verifyAgainstChain O checked.state m₁
      = (.ok { mismatch := none, missingReleases := checked.missingReleases }, m₂) ∧
    Quiet O base start m₁.requests checked.store m'
  archived : ∃ cursor, Archived O base start m'.requests checked.store cursor

/-- One round with no new row. -/
theorem verified_of_round (hbase : ∀ row ∈ base, textLt start row.id = false)
    (hcontract : ∀ row ∈ base, row.contractId = O.contractId) {store store' : LendEventStore}
    {cursor : Text} (h : Archived O base start m.requests store cursor) {state : ReplayedState}
    (hreplay : replay (store.list O.contractId) = .ok state) {missing : List Text} {m₂ : Machine}
    (hverify : verifyAgainstChain O state m = (.ok { mismatch := none, missingReleases := missing }, m₂))
    (hcatch : CaughtUp O base start m₂ m' store store' true)
    (hlength : (store'.list O.contractId).length = (store.list O.contractId).length) :
    Verified O base start m { store := store', state, missingReleases := missing } m' := by
  obtain ⟨cursor', h'⟩ := hcatch.archived
  rw [h.list_eq hcontract, h'.list_eq hcontract] at hlength
  rw [h.list_eq hcontract] at hreplay
  have hreads := ((onlyReads_verifyAgainstChain state).of_eq hverify).requests
  have hsame : store.rows = store'.rows := hcatch.grows.eq_of_length hlength.symm
  refine ⟨hsame ▸ replay_of hreplay, ⟨m, m₂, le_rfl, (hcatch.tip rfl).1, hverify, ?_⟩, cursor', h'⟩
  exact hcatch.quiet hbase h hreads hlength

theorem verifyRounds_eq_ok (hsteady : O.Steady) (hbase : ∀ row ∈ base, textLt start row.id = false)
    (hcontract : ∀ row ∈ base, row.contractId = O.contractId) {deploy rounds : Nat} {checked : Checked} :
    ∀ {store : LendEventStore} {cursor : Text} {m m' : Machine},
      Archived O base start m.requests store cursor →
        verifyRounds O deploy rounds store m = (.ok checked, m') →
          Verified O base start m checked m' := by
  induction rounds with
  | zero =>
    intro store cursor m m' h hr
    obtain ⟨state, ⟨mismatch, missing⟩, m₂, store', m₃, hreplay, hverify, hcatch, hlast⟩ :=
      verifyRounds_step hr
    have hreads := ((onlyReads_verifyAgainstChain state).of_eq hverify).requests
    have hcaught := catchUp_archived hsteady hbase (h.mono hreads) hcatch
    rcases hlast with ⟨rounds', hrounds, -⟩ | ⟨hlength, rfl, rfl, rfl⟩
    · exact absurd hrounds (Nat.succ_ne_zero rounds').symm
    · exact verified_of_round hbase hcontract h hreplay hverify hcaught hlength
  | succ rounds ih =>
    intro store cursor m m' h hr
    obtain ⟨state, ⟨mismatch, missing⟩, m₂, store', m₃, hreplay, hverify, hcatch, hlast⟩ :=
      verifyRounds_step hr
    have hreads := ((onlyReads_verifyAgainstChain state).of_eq hverify).requests
    have hcaught := catchUp_archived hsteady hbase (h.mono hreads) hcatch
    rcases hlast with ⟨rounds', hrounds, hrest⟩ | ⟨hlength, rfl, rfl, rfl⟩
    · obtain rfl := Nat.succ.inj hrounds
      obtain ⟨cursor', h'⟩ := hcaught.archived
      obtain ⟨hreplayed, ⟨m₁, m₄, hm₁, hround⟩, harchived⟩ := ih h' hrest
      have hlater := hcaught.tip rfl
      exact ⟨hreplayed, ⟨m₁, m₄, by omega, hround⟩, harchived⟩
    · exact verified_of_round hbase hcontract h hreplay hverify hcaught hlength

/-- A position's closing is told, so in the quiet window it has the status it was asked for. -/
theorem Quiet.closed_iff {store : LendEventStore} {since k : Nat} {status : PositionStatus} {txid : Text}
    (h : Quiet O base start since store m')
    (hnew : ∀ e ∈ (O.chain (m'.requests - 1)).log, e ∉ (O.chain since).log → textLt start e.id = true)
    (hsince : since ≤ k) (hk : k < m'.requests) (hs : O.statusAt k txid = some status) :
    O.statusAt (m'.requests - 1) txid = some .Closed ↔ status = .Closed := by
  have hlast : k ≤ m'.requests - 1 := by omega
  constructor
  · intro hclosed
    obtain ⟨key, hkey, -⟩ := Option.bind_eq_some_iff.mp hclosed
    obtain ⟨e, he, hrepays⟩ := (O.isClosed_iff_told (m'.requests - 1) key).mp
      ((O.isClosed_iff_statusAt hkey).mpr hclosed)
    have hcolumns : (eventColumns e.event).isSome = true := by
      cases hevent : e.event with
      | repayFull t r s => rfl
      | _ =>
        rw [hevent] at hrepays
        cases hrepays
    have hold : e ∈ (O.chain since).log := by
      by_contra hnot
      exact hnot (h.nothing e he (hnew e he hnot) hcolumns)
    have htold := (O.isClosed_iff_told k key).mpr ⟨e, (O.log_le hsince).subset hold, hrepays⟩
    rw [(O.isClosed_iff_statusAt hkey).mp htold] at hs
    exact (Option.some.inj hs).symm
  · rintro rfl
    exact O.statusAt_le hlast hs (by decide)

/-- What the rows say of a queued position decides whether it is closed. -/
theorem Verified.missing {checked : Checked} (h : Verified O base start m checked m')
    (hnew : ∀ k, m.requests ≤ k → ∀ e ∈ (O.chain (m'.requests - 1)).log, e ∉ (O.chain k).log →
      textLt start e.id = true) :
    ∃ asked : Text → Nat, (∀ txid, m.requests ≤ asked txid ∧ asked txid < m'.requests) ∧
      (∀ txid, txid ∈ checked.missingReleases ↔
        Repaid (base ++ served O start (m'.requests - 1)) txid ∧ O.releasedAt (asked txid) txid = false) ∧
      ∀ txid ∈ checked.missingReleases, O.statusAt (m'.requests - 1) txid = some .Closed ↔
        ¬ Reopened (base ++ served O start (m'.requests - 1)) txid := by
  obtain ⟨hreplayed, ⟨m₁, m₂, hm₁, hm₂, hverify, hquiet⟩, -⟩ := h
  obtain ⟨hpositions, hsub, hmissing⟩ := verifyAgainstChain_eq_ok hverify
  have hreads := ((onlyReads_verifyAgainstChain _).of_eq hverify).requests
  rw [hquiet.rows] at hreplayed
  have hask : ∀ txid, ∃ k, m.requests ≤ k ∧ k < m'.requests ∧
      (txid ∈ checked.state.repaidInFull →
        (txid ∈ checked.missingReleases ↔ O.releasedAt k txid = false)) := by
    intro txid
    by_cases hrepaid : txid ∈ checked.state.repaidInFull
    · obtain ⟨k, hk, hk', hlisted⟩ := hmissing txid hrepaid
      exact ⟨k, by omega, by omega, fun _ => hlisted⟩
    · exact ⟨m.requests, le_rfl, by omega, fun h => absurd h hrepaid⟩
  choose asked hlow hhigh hlisted using hask
  refine ⟨asked, fun txid => ⟨hlow txid, hhigh txid⟩, fun txid => ?_, fun txid htxid => ?_⟩
  · rw [← hreplayed.repaidInFull]
    exact ⟨fun h => ⟨hsub txid h, (hlisted txid (hsub txid h)).mp h⟩,
      fun ⟨hrepaid, hnot⟩ => (hlisted txid hrepaid).mpr hnot⟩
  · have hrepaid := (hreplayed.repaidInFull txid).mp (hsub txid htxid)
    obtain ⟨status, hstatus⟩ := Option.ne_none_iff_exists'.mp hrepaid.lastStatus_ne_none
    have hentry := JsMap.mem_of_get ((hreplayed.positions txid).trans hstatus)
    obtain ⟨k, hk, hk', hs⟩ := hpositions _ hentry
    rw [hquiet.closed_iff (hnew m₁.requests hm₁) hk (by omega) hs, reopened_iff hrepaid, hstatus, ne_eq,
      not_not, Option.some.injEq]

end Quiet

/-! ## The swap -/

/-- The requests, the queue and the deeds stay. -/
structure Machine.Keeps (m m' : Machine) : Prop where
  requests : m'.requests = m.requests
  releases : m'.releases = m.releases
  cosigned : m'.cosigned = m.cosigned

theorem disk_keeps : Program.Triple m.Keeps (disk O) (fun _ => m.Keeps) m.Keeps := by
  intro s hs
  simp only [disk]
  cases O.diskFails s.operations <;> exact ⟨hs.requests, hs.releases, hs.cosigned⟩

theorem modify_keeps {g : Machine → Machine} (h : ∀ s : Machine, s.Keeps (g s)) :
    Program.Triple m.Keeps (Program.modify g : Async Unit) (fun _ => m.Keeps) m.Keeps := by
  refine Program.Triple.modify fun s hs => ?_
  obtain ⟨hrequests, hreleases, hcosigned⟩ := h s
  exact ⟨hrequests.trans hs.requests, hreleases.trans hs.releases, hcosigned.trans hs.cosigned⟩

/-- Swapping leaves the queue alone where it throws. -/
theorem swapIn_throws {store : LendEventStore} {missing : List Text} :
    Program.Triple m.Keeps (swapIn O store missing) (fun _ _ => True) m.Keeps := by
  unfold swapIn
  refine (Program.Triple.ofExcept (Q := fun _ => m.Keeps) (fun _ _ s hs => hs) fun s hs => hs).bind ?_
  intro cursor
  refine disk_keeps.bind fun _ => disk_keeps.bind fun _ => ?_
  refine (modify_keeps (by intro s; exact ⟨rfl, rfl, rfl⟩)).bind fun _ => ?_
  refine disk_keeps.bind fun _ => disk_keeps.bind fun _ => ?_
  refine (modify_keeps (by intro s; exact ⟨rfl, rfl, rfl⟩)).bind fun _ => ?_
  refine disk_keeps.bind fun _ => ?_
  refine Program.Triple.bind (Q := fun _ => m.Keeps) (fun s hs => hs) fun t => ?_
  refine disk_keeps.bind fun _ => Program.Triple.get.bind fun s => ?_
  refine (Program.Triple.ofExcept (Q := fun _ _ => True) (fun _ _ _ _ => trivial) fun s' hs => hs.2).bind ?_
  exact fun _ _ _ => trivial

/-- What swapping leaves: the new archive alone, and its missing releases in the queue. -/
structure Machine.Swapped (O : Outside H) (store : LendEventStore) (missing : List Text)
    (m m' : Machine) : Prop where
  requests : m'.requests = m.requests
  cosigned : m'.cosigned = m.cosigned
  archive : m'.archive = { file := some store, wal := none }
  releases : ∃ cursor t, store.cursor = some cursor ∧
    m.releases.recordBatch O.contractId missing cursor t = .ok m'.releases

theorem swapIn_eq_ok {store : LendEventStore} {missing : List Text} {u : Unit}
    (hr : swapIn O store missing m = (.ok u, m')) : m.Swapped O store missing m' := by
  simp only [swapIn, Program.bind_eq_ok, ofResult_eq_ok, disk_eq_ok, now_eq_ok, Program.get_eq_ok,
    Program.modify_eq_ok, okOr_eq_ok] at hr
  obtain ⟨cursor, _, ⟨hcursor, rfl⟩, _, _, ⟨-, rfl⟩, _, _, ⟨-, rfl⟩, _, _, rfl, _, _, ⟨-, rfl⟩, _, _,
    ⟨-, rfl⟩, _, _, rfl, _, _, ⟨-, rfl⟩, t, _, ⟨-, rfl⟩, _, _, ⟨-, rfl⟩, _, _, ⟨rfl, rfl⟩, releases, _,
    ⟨hbatch, rfl⟩, rfl⟩ := hr
  exact ⟨rfl, rfl, rfl, cursor, t, hcursor, hbatch⟩

/-! ## The whole rebuild -/

section File

variable {deps : RebuildDeps} {report : RebuildReport}

theorem rebuildInTemp_eq_ok (hr : rebuildInTemp O deps m = (.ok report, m')) :
    ∃ temp m₁ temp' m₂ checked m₃, openTemp O deps.archive m = (.ok temp, m₁) ∧
      catchUp O deps.deployLedger MAX_CYCLES temp m₁ = (.ok temp', m₂) ∧
      verifyRounds O deps.deployLedger (MAX_VERIFY_ROUNDS - 1) temp' m₂ = (.ok checked, m₃) ∧
      report.missingReleases = checked.missingReleases ∧ report.swapped = !deps.dryRun ∧
      m₃.requests = m'.requests ∧ (deps.dryRun = true → m' = m₃) ∧
      (deps.dryRun = false → m₃.Swapped O checked.store checked.missingReleases m') := by
  unfold rebuildInTemp at hr
  simp only [Program.bind_eq_ok] at hr
  obtain ⟨temp, m₁, htemp, temp', m₂, hcatch, checked, m₃, hverify, hr⟩ := hr
  refine ⟨temp, m₁, temp', m₂, checked, m₃, htemp, hcatch, hverify, ?_⟩
  cases hdry : deps.dryRun with
  | true =>
    rw [hdry, if_pos rfl] at hr
    obtain ⟨rfl, rfl⟩ := Program.pure_eq_ok.mp hr
    exact ⟨rfl, rfl, rfl, fun _ => rfl, nofun⟩
  | false =>
    rw [hdry, if_neg Bool.false_ne_true] at hr
    obtain ⟨_, m₄, hswap, hr⟩ := Program.bind_eq_ok.mp hr
    obtain ⟨rfl, rfl⟩ := Program.pure_eq_ok.mp hr
    have hswapped := swapIn_eq_ok hswap
    exact ⟨rfl, rfl, hswapped.requests.symm, nofun, fun _ => hswapped⟩

theorem checkRange_eq_ok {archive : ArchiveSource} {oldest latest : Nat}
    (harchive : deps.archive = some archive) (hr : checkRange deps oldest latest = .ok ()) :
    ledgerOfCursor archive.cursor ≤ latest := by
  unfold checkRange at hr
  rw [harchive] at hr
  obtain ⟨-, -, hr⟩ := bind_eq_ok.mp hr
  exact not_lt.mp (failIf_eq_ok.mp hr)

/-- A rebuild is the one in the temporary database, after the check of its range. -/
theorem rebuildLendState_eq_ok (hr : rebuildLendState O deps m = (.ok report, m')) :
    ∃ m₁ m₂ : Machine, m.Reads m₁ ∧ m₁.requests = m.requests + 1 ∧
      checkRange deps (O.ledgerRange m.requests).1 (O.ledgerRange m.requests).2 = .ok () ∧
      rebuildInTemp O deps m₁ = (.ok report, m₂) ∧ m₂.Reads m' ∧ m'.requests = m₂.requests := by
  simp only [rebuildLendState, Program.bind_eq_ok, request_eq_ok, ofResult_eq_ok, disk_eq_ok] at hr
  obtain ⟨_, _, ⟨-, rfl, rfl⟩, _, _, ⟨hcheck, rfl⟩, _, _, ⟨-, rfl⟩, _, _, ⟨-, rfl⟩, _, _, ⟨-, rfl⟩, hr⟩ :=
    hr
  obtain ⟨m₂, hrebuild, hfinally⟩ := Program.tryFinally_eq_ok.mp hr
  simp only [Program.bind_eq_ok, disk_eq_ok] at hfinally
  obtain ⟨_, _, ⟨-, rfl⟩, -, rfl⟩ := hfinally
  refine ⟨_, m₂, ?_, ?_, hcheck, hrebuild, ⟨le_rfl, rfl, rfl, rfl⟩, rfl⟩
  · exact ⟨Nat.le_succ _, rfl, rfl, rfl⟩
  · rfl

variable {file : ParsedArchive} {target : ArchiveTarget}

/-- The temporary database starts with the rows of the file. -/
theorem openTemp_archived (h : file.Accepted target) {temp : LendEventStore}
    (hr : openTemp O (some { rows := file.rows, cursor := file.header.cursor }) m = (.ok temp, m'))
    (k : Nat) : Archived O file.rows file.header.cursor k temp file.header.cursor := by
  simp only [openTemp, Program.bind_eq_ok, ofResult_eq_ok] at hr
  obtain ⟨_, _, -, hcommit, -⟩ := hr
  obtain ⟨hvalid, rfl⟩ := commit_eq_ok.mp hcommit
  have hnone : ∀ e : ChainEvent, between file.header.cursor file.header.cursor e ≠ true := by
    intro e hbetween
    obtain ⟨hafter, hupTo⟩ := between_eq_true.mp hbetween
    rw [hupTo] at hafter
    cases hafter
  have hrows : LendEventStore.insertRows LendEventStore.empty.rows file.rows = [] ++ file.rows :=
    insertRows_last (fun r hr => absurd hr List.not_mem_nil) h.sorted
  refine ⟨rfl, hvalid, textLt_irrefl _, ?_, fun j e _ hbetween => absurd hbetween (hnone e)⟩
  rw [List.filter_eq_nil_iff.mpr fun e _ => hnone e]
  exact hrows.trans (List.append_nil _).symm

/-- The rows that a rebuild from a file replays, where it ends after a request. -/
def replayedRows (O : Outside H) (file : ParsedArchive) (k : Nat) : List LendEventRow :=
  file.rows ++ served O file.header.cursor k

/-- What a rebuild from a file has checked when it ends, and what it leaves. -/
structure Rebuilt (O : Outside H) (file : ParsedArchive) (dryRun : Bool) (m m' : Machine)
    (report : RebuildReport) (checked : Checked) (m₂ m₃ : Machine) : Prop where
  reads₂ : m.Reads m₂
  reads₃ : m.Reads m₃
  verified : Verified O file.rows file.header.cursor m₂ checked m₃
  missing : report.missingReleases = checked.missingReleases
  swapped_eq : report.swapped = !dryRun
  requests : m₃.requests = m'.requests
  swapped : dryRun = false → m₃.Swapped O checked.store checked.missingReleases m'

theorem rebuildInTemp_rebuilt (hsteady : O.Steady) (haccepted : file.Accepted target)
    (htarget : target.contractId = O.contractId)
    (hdeps : deps.archive = some { rows := file.rows, cursor := file.header.cursor })
    (hr : rebuildInTemp O deps m = (.ok report, m')) :
    ∃ checked m₂ m₃, Rebuilt O file deps.dryRun m m' report checked m₂ m₃ := by
  obtain ⟨temp, m₁, temp', m₂, checked, m₃, htemp, hcatch, hverify, hmissing, hswapped, hm₃, -, hswap⟩ :=
    rebuildInTemp_eq_ok hr
  have h₁ := (onlyReads_openTemp _).of_eq htemp
  have h₂ := h₁.trans ((onlyReads_catchUp _ _ _).of_eq hcatch)
  have h₃ := h₂.trans ((onlyReads_verifyRounds _ _ _).of_eq hverify)
  rw [hdeps] at htemp
  have hbase := haccepted.upTo
  have hcontract : ∀ row ∈ file.rows, row.contractId = O.contractId :=
    fun row hrow => (haccepted.contractId row hrow).trans htarget
  obtain ⟨cursor, harchived⟩ :=
    (catchUp_archived hsteady hbase (openTemp_archived haccepted htemp m₁.requests) hcatch).archived
  have hverified := verifyRounds_eq_ok hsteady hbase hcontract harchived hverify
  exact ⟨checked, m₂, m₃, h₂, h₃, hverified, hmissing, hswapped, hm₃, hswap⟩

/-- What a rebuild from a file lists as missing, and which of it is closed. -/
theorem rebuildInTemp_missing (hsteady : O.Steady) (haccepted : file.Accepted target)
    (htarget : target.contractId = O.contractId)
    (hdeps : deps.archive = some { rows := file.rows, cursor := file.header.cursor }) {k₀ : Nat}
    (hk₀ : k₀ ≤ m.requests) (hrange : ledgerOfCursor file.header.cursor ≤ (O.ledgerRange k₀).2)
    (hr : rebuildInTemp O deps m = (.ok report, m')) :
    ∃ asked : Text → Nat, (∀ txid, m.requests ≤ asked txid ∧ asked txid < m'.requests) ∧
      (∀ txid, txid ∈ report.missingReleases ↔
        Repaid (replayedRows O file (m'.requests - 1)) txid ∧ O.releasedAt (asked txid) txid = false) ∧
      ∀ txid ∈ report.missingReleases, O.statusAt (m'.requests - 1) txid = some .Closed ↔
        ¬ Reopened (replayedRows O file (m'.requests - 1)) txid := by
  obtain ⟨checked, m₂, m₃, h⟩ := rebuildInTemp_rebuilt hsteady haccepted htarget hdeps hr
  have h₂ := h.reads₂.requests
  have hnew : ∀ k, m₂.requests ≤ k → ∀ e ∈ (O.chain (m₃.requests - 1)).log, e ∉ (O.chain k).log →
      textLt file.header.cursor e.id = true := by
    intro k hk e he hnot
    have hnot₀ : e ∉ (O.chain k₀).log :=
      fun hold => hnot ((O.log_le (show k₀ ≤ k by omega)).subset hold)
    obtain ⟨hvalid, hledger⟩ := O.id_valid _ e he
    refine cursor_lt_of_ledger haccepted.cursor_valid hvalid (hrange.trans_lt ?_)
    rw [← hledger]
    exact hsteady.latest k₀ _ e he hnot₀
  obtain ⟨asked, hasked, hlisted, hclosed⟩ := h.verified.missing hnew
  rw [h.requests] at hasked hlisted hclosed
  refine ⟨asked, fun txid => ⟨h₂.trans (hasked txid).1, (hasked txid).2⟩, ?_, ?_⟩
  · rw [h.missing]
    exact hlisted
  · rw [h.missing]
    exact hclosed

end File

/-! ## From RPC alone -/

/-- Every row is the one of an event of the contract. -/
def Genuine (O : Outside H) (k : Nat) (rows : List LendEventRow) : Prop :=
  ∀ row ∈ rows, ∃ e ∈ (O.chain k).log, decodeLendEvent O.encodeRawXdr e O.contractId = some row

theorem Genuine.mono {j k : Nat} {rows : List LendEventRow} (h : Genuine O j rows) (hjk : j ≤ k) :
    Genuine O k rows := by
  intro row hrow
  obtain ⟨e, he, hdecode⟩ := h row hrow
  exact ⟨e, (O.log_le hjk).subset he, hdecode⟩

theorem mem_insertRow {row r : LendEventRow} {rows : List LendEventRow} (h : r ∈ insertRow row rows) :
    r ∈ rows ∨ r = row := by
  induction rows with
  | nil => exact .inr (List.mem_singleton.mp h)
  | cons r₀ rows ih =>
    unfold insertRow at h
    split_ifs at h
    · exact .inl h
    · exact (List.mem_cons.mp h).symm
    · rcases List.mem_cons.mp h with rfl | h
      · exact .inl List.mem_cons_self
      · exact (ih h).imp_left (List.mem_cons_of_mem _)

theorem mem_insertRows {r : LendEventRow} {new : List LendEventRow} :
    ∀ {rows : List LendEventRow}, r ∈ LendEventStore.insertRows rows new → r ∈ rows ∨ r ∈ new := by
  induction new with
  | nil => exact fun h => .inl h
  | cons n new ih =>
    intro rows h
    rcases @ih (insertRow n rows) h with h | h
    · refine (mem_insertRow h).imp_right fun heq => ?_
      rw [heq]
      exact List.mem_cons_self
    · exact .inr (List.mem_cons_of_mem _ h)

theorem readPage_genuine {deployLedger : Option Nat} {store store' : LendEventStore} {more : Bool}
    (h : Genuine O m.requests store.rows)
    (hr : readPage O deployLedger store m = (.ok (store', more), m')) :
    Genuine O m'.requests store'.rows := by
  have hreads := ((onlyReads_readPage deployLedger store).of_eq hr).requests
  simp only [readPage, Program.bind_eq_ok, Program.pure_eq_ok, ofResult_eq_ok, request_eq_ok,
    disk_eq_ok] at hr
  obtain ⟨ask, _, ⟨-, rfl⟩, _, _, ⟨-, rfl, rfl⟩, _, _, ⟨-, rfl⟩, _, _, ⟨hcommit, rfl⟩, hpair, rfl⟩ := hr
  obtain ⟨-, rfl⟩ := commit_eq_ok.mp hcommit
  obtain ⟨rfl, -⟩ := Prod.mk.inj hpair
  intro row hrow
  rcases mem_insertRows hrow with hold | hnew
  · exact h.mono hreads row hold
  · obtain ⟨e, he, hdecode⟩ := List.mem_filterMap.mp hnew
    rw [O.ordered.events] at he
    exact ⟨e, (O.log_le (Nat.le_succ m.requests)).subset (List.mem_filter.mp he).1, hdecode⟩

theorem readPages_genuine {deployLedger : Option Nat} {pages : Nat} :
    ∀ {store store' : LendEventStore} {reached : Bool} {m m' : Machine},
      Genuine O m.requests store.rows →
        readPages O deployLedger pages store m = (.ok (store', reached), m') →
          Genuine O m'.requests store'.rows := by
  induction pages with
  | zero =>
    intro store store' reached m m' h hr
    obtain ⟨hpair, rfl⟩ := Program.pure_eq_ok.mp hr
    obtain ⟨rfl, -⟩ := Prod.mk.inj hpair
    exact h
  | succ pages ih =>
    intro store store' reached m m' h hr
    rw [readPages, Program.bind_eq_ok] at hr
    obtain ⟨⟨store₁, more⟩, m₁, hpage, hr⟩ := hr
    have h₁ := readPage_genuine h hpage
    cases more with
    | false =>
      obtain ⟨hpair, rfl⟩ := Program.pure_eq_ok.mp hr
      obtain ⟨rfl, -⟩ := Prod.mk.inj hpair
      exact h₁
    | true => exact ih h₁ hr

theorem catchUp_genuine {deploy cycles : Nat} :
    ∀ {store store' : LendEventStore} {m m' : Machine}, Genuine O m.requests store.rows →
      catchUp O deploy cycles store m = (.ok store', m') → Genuine O m'.requests store'.rows := by
  induction cycles with
  | zero =>
    intro store store' m m' h hr
    exact absurd (fail_eq_ok.mp hr) not_false
  | succ cycles ih =>
    intro store store' m m' h hr
    rw [catchUp, Program.bind_eq_ok] at hr
    obtain ⟨⟨store₁, reached⟩, m₁, hcycle, hr⟩ := hr
    have h₁ := readPages_genuine h hcycle
    cases reached with
    | true =>
      obtain ⟨rfl, rfl⟩ := Program.pure_eq_ok.mp hr
      exact h₁
    | false => exact ih h₁ hr

/-- A `repay_full` row of the contract is one of a closed position. -/
theorem Genuine.closed {k : Nat} {rows : List LendEventRow} (h : Genuine O k rows) {txid : Text}
    (hrepaid : Repaid rows txid) : O.statusAt k txid = some .Closed := by
  obtain ⟨row, hrow, hname, rfl⟩ := hrepaid
  obtain ⟨e, he, hdecode⟩ := h row hrow
  obtain ⟨⟨subject, data⟩, hcolumns, rfl⟩ := Option.map_eq_some_iff.mp hdecode
  dsimp only at hname ⊢
  cases hevent : e.event with
  | repayFull key repayer script =>
    rw [hevent] at hcolumns
    obtain ⟨rfl, -⟩ := Prod.mk.inj (Option.some.inj hcolumns)
    refine O.closed_of_repaidTxid he ?_
    rw [hevent]
    exact decide_eq_true rfl
  | _ =>
    -- another event has another name
    rw [hevent] at hname
    dsimp only [eventName] at hname
    exact absurd hname (by decide)

theorem verifyRounds_genuine {deploy rounds : Nat} {checked : Checked} :
    ∀ {store : LendEventStore} {m m' : Machine}, Genuine O m.requests store.rows →
      verifyRounds O deploy rounds store m = (.ok checked, m') →
        ∀ txid ∈ checked.missingReleases, O.statusAt m'.requests txid = some .Closed := by
  have hround : ∀ {store : LendEventStore} {m m' : Machine} {state : ReplayedState} {missing : List Text}
      {m₂ : Machine}, Genuine O m.requests store.rows → replay (store.list O.contractId) = .ok state →
        verifyAgainstChain O state m = (.ok { mismatch := none, missingReleases := missing }, m₂) →
          m.requests ≤ m'.requests →
            ∀ txid ∈ missing, O.statusAt m'.requests txid = some .Closed := by
    intro store m m' state missing m₂ h hreplay hverify hm' txid htxid
    obtain ⟨-, hsub, -⟩ := verifyAgainstChain_eq_ok hverify
    have hrepaid := ((replay_of hreplay).repaidInFull txid).mp (hsub txid htxid)
    have hlist : Genuine O m.requests (store.list O.contractId) :=
      fun row hrow => h row (List.mem_filter.mp hrow).1
    exact O.statusAt_le hm' (hlist.closed hrepaid) (by decide)
  induction rounds with
  | zero =>
    intro store m m' h hr
    obtain ⟨state, ⟨mismatch, missing⟩, m₂, store', m₃, hreplay, hverify, hcatch, hlast⟩ :=
      verifyRounds_step hr
    have hreads := (((onlyReads_verifyAgainstChain state).of_eq hverify).trans
      ((onlyReads_catchUp _ _ _).of_eq hcatch)).requests
    rcases hlast with ⟨rounds', hrounds, -⟩ | ⟨-, rfl, rfl, rfl⟩
    · exact absurd hrounds (Nat.succ_ne_zero rounds').symm
    · exact hround h hreplay hverify hreads
  | succ rounds ih =>
    intro store m m' h hr
    obtain ⟨state, ⟨mismatch, missing⟩, m₂, store', m₃, hreplay, hverify, hcatch, hlast⟩ :=
      verifyRounds_step hr
    have hreads := (onlyReads_verifyAgainstChain state).of_eq hverify
    have hreads' := (hreads.trans ((onlyReads_catchUp _ _ _).of_eq hcatch)).requests
    rcases hlast with ⟨rounds', hrounds, hrest⟩ | ⟨-, rfl, rfl, rfl⟩
    · obtain rfl := Nat.succ.inj hrounds
      exact ih (catchUp_genuine (h.mono hreads.requests) hcatch) hrest
    · exact hround h hreplay hverify hreads'

/-- A rebuild with no file lists closed positions only. -/
theorem rebuildInTemp_fromRpc {deploy : Nat} {dryRun : Bool} {report : RebuildReport}
    (hr : rebuildInTemp O { deployLedger := deploy, archive := none, dryRun } m = (.ok report, m')) :
    ∀ txid ∈ report.missingReleases, O.statusAt m'.requests txid = some .Closed := by
  obtain ⟨temp, m₁, temp', m₂, checked, m₃, htemp, hcatch, hverify, hmissing, -, hm₃, -⟩ :=
    rebuildInTemp_eq_ok hr
  obtain ⟨rfl, rfl⟩ := Program.pure_eq_ok.mp htemp
  have hempty : Genuine O m.requests LendEventStore.empty.rows :=
    fun row hrow => absurd hrow List.not_mem_nil
  rw [hmissing, ← hm₃]
  exact verifyRounds_genuine (catchUp_genuine hempty hcatch) hverify

end Writz.Relayer

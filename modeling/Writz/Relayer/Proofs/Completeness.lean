import Writz.Relayer.Deployment
import Writz.Relayer.Proofs.CoSigning

/-!
# Proofs: what a rebuild may miss

The checks of a rebuild run over what the replay contains. So nothing is missed exactly where the file
has all events up to its cursor: RPC serves what comes after.
-/

namespace Writz.Relayer

open Node

variable {τ ρ : Type} {H : Lend.Host τ ρ}

/-- Some rows have every archived event of the contract up to a cursor. -/
def HoldsAll (O : Outside H) (rows : List LendEventRow) (cursor : Text) : Prop :=
  ∀ k, ∀ e ∈ (O.chain k).log, textLt cursor e.id = false →
    ∀ row, decodeLendEvent O.encodeRawXdr e O.contractId = some row → row ∈ rows

/-- Every closed position with no release has its row in the queue, as of the last request. -/
def OwesAll (O : Outside H) (m : Machine) : Prop :=
  ∀ key : BytesN 32, O.statusAt (m.requests - 1) (Hex.encode key.1) = some .Closed →
    O.releasedAt (m.requests - 1) (Hex.encode key.1) = false →
      ∃ row ∈ m.releases.pending, row.isFor O.contractId (Hex.encode key.1) = true

variable {O : Outside H} {m m' : Machine}

/-! ## The archive -/

theorem textLt_of_archived {base : List LendEventRow} {start cursor : Text} {store : LendEventStore}
    {k : Nat} (h : Archived O base start k store cursor) {id : Text} (hid : textLt start id = false) :
    textLt cursor id = false := by
  by_contra hlt
  have hlater := textLt_of_not_lt h.start_le (Bool.eq_true_of_not_eq_false hlt)
  rw [hid] at hlater
  cases hlater

/-- An archive from a file holds all events exactly where the file does. -/
theorem Archived.holdsAll_iff {base : List LendEventRow} {start cursor : Text} {store : LendEventStore}
    {k : Nat} (h : Archived O base start k store cursor) :
    HoldsAll O store.rows cursor ↔ HoldsAll O base start := by
  constructor
  · intro hall j e he hupTo row hrow
    have hmem := hall j e he (textLt_of_archived h hupTo) row hrow
    rw [h.rows] at hmem
    rcases List.mem_append.mp hmem with hmem | hmem
    · exact hmem
    · -- a row of RPC is one of a later event
      obtain ⟨e', he', hid, -⟩ := mem_eventRows hmem
      obtain ⟨columns, -, rfl⟩ := Option.map_eq_some_iff.mp hrow
      have hafter := (between_eq_true.mp (List.mem_filter.mp he').2).1
      rw [← hid] at hafter
      exact absurd hafter (Bool.eq_false_iff.mp hupTo)
  · intro hall j e he hupTo row hrow
    rw [h.rows]
    by_cases hstart : textLt start e.id = true
    · have hbetween := between_eq_true.mpr ⟨hstart, hupTo⟩
      refine List.mem_append_right _ (List.mem_filterMap.mpr ⟨e, List.mem_filter.mpr ⟨?_, hbetween⟩, hrow⟩)
      exact h.complete j e he hbetween
    · exact List.mem_append_left _ (hall j e he (Bool.eq_false_of_not_eq_true hstart) row hrow)

/-! ## The queue -/

/-- A recorded batch has a row for each of its txids. -/
theorem ReleaseStore.mem_recordBatch {store store' : ReleaseStore} {contractId cursor : Text} {t : Nat}
    {batch : List Text} (hr : store.recordBatch contractId batch cursor t = .ok store') :
    (∀ row ∈ store.pending, row ∈ store'.pending) ∧
      ∀ txid ∈ batch, ∃ row ∈ store'.pending, row.isFor contractId txid = true := by
  obtain ⟨_, -, hr⟩ := bind_eq_ok.mp hr
  cases hr
  have hinsert : ∀ (pending : List PendingRelease) (txid : Text),
      (∀ row ∈ pending, row ∈ ReleaseStore.insert contractId t pending txid) ∧
        ∃ row ∈ ReleaseStore.insert contractId t pending txid, row.isFor contractId txid = true := by
    intro pending txid
    unfold ReleaseStore.insert
    split_ifs with hany
    · obtain ⟨row, hrow, hfor⟩ := List.any_eq_true.mp hany
      exact ⟨fun _ h => h, row, hrow, hfor⟩
    · refine ⟨fun row hrow => List.mem_append_left _ hrow, _, List.mem_append_right _
        List.mem_cons_self, ?_⟩
      simp [PendingRelease.isFor]
  have hfold : ∀ (batch : List Text) (pending : List PendingRelease),
      (∀ row ∈ pending, row ∈ batch.foldl (ReleaseStore.insert contractId t) pending) ∧
        ∀ txid ∈ batch, ∃ row ∈ batch.foldl (ReleaseStore.insert contractId t) pending,
          row.isFor contractId txid = true := by
    intro batch
    induction batch with
    | nil => exact fun pending => ⟨fun _ h => h, fun _ h => absurd h List.not_mem_nil⟩
    | cons txid batch ih =>
      intro pending
      obtain ⟨hold, hnew⟩ := hinsert pending txid
      obtain ⟨hkeep, hrest⟩ := ih (ReleaseStore.insert contractId t pending txid)
      refine ⟨fun row hrow => hkeep row (hold row hrow), fun txid' htxid' => ?_⟩
      rcases List.mem_cons.mp htxid' with rfl | htxid'
      · obtain ⟨row, hrow, hfor⟩ := hnew
        exact ⟨row, hkeep row hrow, hfor⟩
      · exact hrest txid' htxid'
  exact hfold batch store.pending

theorem recordBatch_cursor {store store' : ReleaseStore} {contractId cursor : Text} {t : Nat}
    {batch : List Text} (hr : store.recordBatch contractId batch cursor t = .ok store') :
    store'.cursor = some cursor := by
  obtain ⟨_, -, hr⟩ := bind_eq_ok.mp hr
  cases hr
  rfl

/-- A closed position has a `repay_full` row among those of a file that has all events and those that
RPC serves. -/
theorem repaid_of_closed {file : ParsedArchive} (hall : HoldsAll O file.rows file.header.cursor) {k : Nat}
    {key : BytesN 32} (hclosed : O.statusAt k (Hex.encode key.1) = some .Closed) :
    Repaid (replayedRows O file k) (Hex.encode key.1) := by
  obtain ⟨e, he, hrepays⟩ := (O.isClosed_iff_told k key).mp
    ((O.isClosed_iff_statusAt (txidKey_encode key)).mpr hclosed)
  cases hevent : e.event with
  | repayFull txid repayer script =>
    rw [hevent] at hrepays
    obtain rfl : txid = key := of_decide_eq_true hrepays
    obtain ⟨row, hrow, hrepays⟩ : ∃ row,
        decodeLendEvent O.encodeRawXdr e O.contractId = some row ∧ row.Repays (Hex.encode txid.1) := by
      rw [decodeLendEvent, hevent]
      exact ⟨_, rfl, rfl, rfl⟩
    refine ⟨row, ?_, hrepays⟩
    by_cases hstart : textLt file.header.cursor e.id = true
    · exact List.mem_append_right _
        (List.mem_filterMap.mpr ⟨e, List.mem_filter.mpr ⟨he, hstart⟩, hrow⟩)
    · exact List.mem_append_left _ (hall k e he (Bool.eq_false_of_not_eq_true hstart) _ hrow)
  | _ =>
    rw [hevent] at hrepays
    cases hrepays

/-- The supply alone, of the events of the repaid loan. -/
def Demo.supplyFile : Text := fileOf ((logAfter Lend.Demo.repaidLoan).drop 1 |>.take 1)

theorem Demo.supplyFile_run : Demo.rebuildsTo Demo.repaidOutside Demo.supplyFile (fun report m' => decide
    (report.swapped = true ∧ m'.releases.pending = [] ∧
      Demo.repaidOutside.statusAt (m'.requests - 1) Demo.aliceTxid = some .Closed ∧
      Demo.repaidOutside.releasedAt (m'.requests - 1) Demo.aliceTxid = false)) = true := by
  decide +kernel

end Writz.Relayer

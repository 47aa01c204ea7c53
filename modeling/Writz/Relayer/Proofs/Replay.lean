import Mathlib.Data.List.Induction
import Writz.Relayer.LendRebuild.Replay
import Writz.Node.Buffer

/-!
# Proofs: what a replay says of a position

The status a replay ends with is the one of the position's last row that sets one, while every
`repay_full` row leaves the position among the repaid ones. The two disagree where a later row opens or
liquidates the position again.
-/

namespace Writz.Relayer

open Node
open Lend (PositionStatus)

/-! ## Rows of one position -/

/-- The status a row sets. -/
def LendEventRow.status (row : LendEventRow) : Option PositionStatus :=
  if row.name = "deposit".toList then some .Active
  else if row.name = "repay_full".toList then some .Closed
  else if row.name = "liquidate".toList then some .Liquidated
  else none

/-- A `repay_full` row of a position. -/
def LendEventRow.Repays (row : LendEventRow) (txid : Text) : Prop :=
  row.name = "repay_full".toList ∧ row.subject = txid

/-- A `deposit` or a `liquidate` row of a position. -/
def LendEventRow.Reopens (row : LendEventRow) (txid : Text) : Prop :=
  (row.name = "deposit".toList ∨ row.name = "liquidate".toList) ∧ row.subject = txid

/-- A position with a `repay_full` row. -/
def Repaid (rows : List LendEventRow) (txid : Text) : Prop := ∃ row ∈ rows, row.Repays txid

/-- A position with a `repay_full` row, and later a `deposit` or a `liquidate` row with no `repay_full`
row after it. -/
def Reopened (rows : List LendEventRow) (txid : Text) : Prop :=
  ∃ earlier row later, rows = earlier ++ row :: later ∧ row.Reopens txid ∧ Repaid earlier txid ∧
    ¬ Repaid later txid

/-- The status of the last row that sets one. -/
def lastStatus (rows : List LendEventRow) (txid : Text) : Option PositionStatus :=
  rows.foldl (fun status row => if row.subject = txid then row.status.or status else status) none

variable {rows : List LendEventRow} {row : LendEventRow} {txid : Text}

theorem LendEventRow.repays_iff : row.Repays txid ↔ row.status = some .Closed ∧ row.subject = txid := by
  unfold LendEventRow.Repays LendEventRow.status
  refine and_congr_left fun _ => ?_
  split_ifs with hd hr hl
  · rw [hd]
    decide
  · exact iff_of_true hr rfl
  · rw [hl]
    decide
  · exact iff_of_false hr (by simp)

theorem LendEventRow.reopens_iff : row.Reopens txid ↔
    (row.status ≠ none ∧ row.status ≠ some .Closed) ∧ row.subject = txid := by
  unfold LendEventRow.Reopens LendEventRow.status
  refine and_congr_left fun _ => ?_
  split_ifs with hd hr hl
  · exact iff_of_true (.inl hd) (by decide)
  · rw [hr]
    decide
  · exact iff_of_true (.inr hl) (by decide)
  · exact iff_of_false (fun h => h.elim hd hl) (by simp)

theorem repaid_append {later : List LendEventRow} :
    Repaid (rows ++ later) txid ↔ Repaid rows txid ∨ Repaid later txid := by
  unfold Repaid
  simp only [List.mem_append, or_and_right, exists_or]

theorem repaid_singleton : Repaid [row] txid ↔ row.Repays txid := by
  simp [Repaid]

theorem not_repaid_nil : ¬ Repaid [] txid := by
  simp [Repaid]

theorem Reopened.repaid (h : Reopened rows txid) : Repaid rows txid := by
  obtain ⟨earlier, row, later, rfl, -, hrepaid, -⟩ := h
  exact repaid_append.mpr (.inl hrepaid)

theorem lastStatus_concat : lastStatus (rows ++ [row]) txid
    = if row.subject = txid then row.status.or (lastStatus rows txid) else lastStatus rows txid := by
  unfold lastStatus
  rw [List.foldl_append]
  rfl

/-- One more row reopens a position that is repaid by then, or leaves it so. -/
theorem reopened_concat : Reopened (rows ++ [row]) txid ↔
    (row.Reopens txid ∧ Repaid rows txid) ∨ (Reopened rows txid ∧ ¬ row.Repays txid) := by
  constructor
  · rintro ⟨earlier, row', later, heq, hreopens, hearlier, hlater⟩
    rcases List.eq_nil_or_concat later with rfl | ⟨later, last, rfl⟩
    · obtain ⟨rfl, hrow⟩ := List.append_inj' heq rfl
      obtain rfl : row = row' := List.singleton_inj.mp hrow
      exact .inl ⟨hreopens, hearlier⟩
    · rw [List.concat_eq_append] at heq hlater
      rw [← List.cons_append, ← List.append_assoc] at heq
      obtain ⟨rfl, hrow⟩ := List.append_inj' heq rfl
      obtain rfl : row = last := List.singleton_inj.mp hrow
      rw [repaid_append, repaid_singleton, not_or] at hlater
      exact .inr ⟨⟨earlier, row', later, rfl, hreopens, hearlier, hlater.1⟩, hlater.2⟩
  · rintro (⟨hreopens, hrepaid⟩ | ⟨⟨earlier, row', later, rfl, hreopens, hearlier, hlater⟩, hnot⟩)
    · exact ⟨rows, row, [], rfl, hreopens, hrepaid, not_repaid_nil⟩
    · refine ⟨earlier, row', later ++ [row], by simp, hreopens, hearlier, ?_⟩
      rw [repaid_append, repaid_singleton]
      exact fun h => h.elim hlater hnot

/-- A repaid position is reopened exactly where its last status is not `Closed`. -/
theorem reopened_iff (h : Repaid rows txid) : Reopened rows txid ↔ lastStatus rows txid ≠ some .Closed := by
  induction rows using List.reverseRecOn with
  | nil => exact absurd h not_repaid_nil
  | append_singleton rows row ih =>
    rw [repaid_append, repaid_singleton] at h
    rw [reopened_concat, lastStatus_concat]
    by_cases hsubject : row.subject = txid
    · rw [if_pos hsubject]
      cases hstatus : row.status with
      | none =>
        -- the row sets no status
        have hnot : ¬ row.Repays txid := by rw [LendEventRow.repays_iff, hstatus]; simp
        have hnot' : ¬ row.Reopens txid := by rw [LendEventRow.reopens_iff, hstatus]; simp
        simp only [hnot, hnot', false_and, false_or, not_false_eq_true, and_true, Option.none_or]
        exact ih (h.resolve_right hnot)
      | some status =>
        by_cases hclosed : status = .Closed
        · have hrepays : row.Repays txid := LendEventRow.repays_iff.mpr ⟨hclosed ▸ hstatus, hsubject⟩
          have hnot : ¬ row.Reopens txid := by
            rw [LendEventRow.reopens_iff, hstatus, hclosed]
            simp
          simp [hrepays, hnot, hclosed]
        · have hnot : ¬ row.Repays txid := by
            rw [LendEventRow.repays_iff, hstatus]
            simp [hclosed]
          have hreopens : row.Reopens txid := by
            rw [LendEventRow.reopens_iff, hstatus]
            exact ⟨⟨by simp, by simpa using hclosed⟩, hsubject⟩
          simp [hreopens, h.resolve_right hnot, hclosed]
    · rw [if_neg hsubject]
      have hnot : ¬ row.Repays txid := fun hr => hsubject hr.2
      have hnot' : ¬ row.Reopens txid := fun hr => hsubject hr.2
      simp only [hnot, hnot', false_and, false_or, not_false_eq_true, and_true]
      exact ih (h.resolve_right hnot)

/-- A repaid position has a status. -/
theorem Repaid.lastStatus_ne_none (h : Repaid rows txid) : lastStatus rows txid ≠ none := by
  induction rows using List.reverseRecOn with
  | nil => exact absurd h not_repaid_nil
  | append_singleton rows row ih =>
    rw [repaid_append, repaid_singleton] at h
    rw [lastStatus_concat]
    rcases h with h | h
    · have hsome := ih h
      split_ifs
      · exact fun hnone => hsome (Option.or_eq_none_iff.mp hnone).2
      · exact hsome
    · obtain ⟨hstatus, hsubject⟩ := LendEventRow.repays_iff.mp h
      rw [if_pos hsubject, hstatus]
      simp

/-! ## The replay -/

/-- What a replay has, at any point. -/
structure ReplayedState.Of (state : ReplayedState) (rows : List LendEventRow) : Prop where
  positions : ∀ txid, state.positions.get txid = lastStatus rows txid
  repaidInFull : ∀ txid, txid ∈ state.repaidInFull ↔ Repaid rows txid

theorem ReplayedState.of_empty : ReplayedState.empty.Of [] where
  positions _ := rfl
  repaidInFull _ := iff_of_false List.not_mem_nil not_repaid_nil

/-- A row that sets no status leaves what the replay has of positions. -/
theorem ReplayedState.Of.skip {state state' : ReplayedState} (h : state.Of rows)
    (hpositions : state'.positions = state.positions)
    (hrepaid : state'.repaidInFull = state.repaidInFull) (hstatus : row.status = none) :
    state'.Of (rows ++ [row]) where
  positions t := by
    rw [hpositions, h.positions, lastStatus_concat, hstatus, Option.none_or, ite_self]
  repaidInFull t := by
    rw [hrepaid, h.repaidInFull, repaid_append, repaid_singleton, LendEventRow.repays_iff, hstatus]
    simp

/-- A row that sets a status leaves it, and the position among the repaid ones where it is `Closed`. -/
theorem ReplayedState.Of.set {state state' : ReplayedState} (h : state.Of rows)
    {status : PositionStatus} (hstatus : row.status = some status)
    (hpositions : state'.positions = state.positions.set row.subject status)
    (hrepaid : ∀ t, t ∈ state'.repaidInFull ↔
      t ∈ state.repaidInFull ∨ (status = .Closed ∧ row.subject = t)) :
    state'.Of (rows ++ [row]) where
  positions t := by
    rw [hpositions, JsMap.get_set, lastStatus_concat, hstatus, Option.some_or, h.positions]
  repaidInFull t := by
    rw [hrepaid, h.repaidInFull, repaid_append, repaid_singleton, LendEventRow.repays_iff, hstatus,
      Option.some.injEq]

theorem replayRow_of {state state' : ReplayedState} (h : state.Of rows)
    (hr : replayRow state row = .ok state') : state'.Of (rows ++ [row]) := by
  unfold replayRow at hr
  split_ifs at hr with hd hf hl hs hw
  · cases hr
    have hstatus : row.status = some .Active := if_pos hd
    exact h.set hstatus rfl fun t => by simp [ReplayedState.setStatus]
  · cases hr
    have hstatus : row.status = some .Closed := by rw [LendEventRow.status, if_neg hd, if_pos hf]
    exact h.set hstatus rfl fun t => by simp [eq_comm]
  · cases hr
    have hstatus : row.status = some .Liquidated := by
      rw [LendEventRow.status, if_neg hd, if_neg hf, if_pos hl]
    exact h.set hstatus rfl fun t => by simp [ReplayedState.setStatus]
  all_goals
    have hstatus : row.status = none := by
      rw [LendEventRow.status, if_neg hd, if_neg hf, if_neg hl]
  · obtain ⟨scaled, -, hr⟩ := bind_eq_ok.mp hr
    cases hr
    exact h.skip rfl rfl hstatus
  · obtain ⟨scaled, -, hr⟩ := bind_eq_ok.mp hr
    cases hr
    exact h.skip rfl rfl hstatus
  · cases hr
    exact h.skip rfl rfl hstatus

theorem foldlM_replayRow_of {new : List LendEventRow} :
    ∀ {rows : List LendEventRow} {state state' : ReplayedState}, state.Of rows →
      new.foldlM replayRow state = .ok state' → state'.Of (rows ++ new) := by
  induction new with
  | nil =>
    intro rows state state' h hr
    cases hr
    rwa [List.append_nil]
  | cons row new ih =>
    intro rows state state' h hr
    rw [List.foldlM_cons] at hr
    obtain ⟨state₁, hrow, hr⟩ := bind_eq_ok.mp hr
    have hnew := ih (replayRow_of h hrow) hr
    rwa [List.append_assoc, List.singleton_append] at hnew

/-- A replay has the last status of every position, and every repaid one. -/
theorem replay_of {state : ReplayedState} (hr : replay rows = .ok state) : state.Of rows := by
  obtain ⟨state₁, hfold, hr⟩ := bind_eq_ok.mp hr
  cases hr
  have h := foldlM_replayRow_of ReplayedState.of_empty hfold
  exact ⟨h.positions, h.repaidInFull⟩

end Writz.Relayer

import Writz.Lend.Proofs.Lifecycle
import Writz.Relayer.Process

/-!
# Proofs: the chain between two requests

What the relayer has seen on the chain and still holds later: events stay, closed positions stay
closed, releases stay; and a position that was closed in between has an event that says so.
-/

namespace Writz.Relayer

open Node
open Lend (PositionStatus)

variable {τ ρ : Type} {H : Lend.Host τ ρ}

/-! ## Runs of the contract -/

/-- No call takes a release away. -/
theorem step_releases {w w' : Lend.World τ ρ} {l : Lend.Label τ ρ} (hs : Lend.step .i128 H w l = some w')
    {txid : BytesN 32} (h : (w.releasePsbts.lookup txid).isSome = true) :
    (w'.releasePsbts.lookup txid).isSome = true := by
  rcases Lend.step_cases hs with ⟨env, c, rfl, e, -⟩ | ⟨hst, -⟩
  · cases e with
    | psbt =>
      rw [Store.lookup_insert_eq_ite]
      split_ifs
      · rfl
      · exact h
    | _ => exact h
  · rw [hst]
    exact h

/-- A position goes on, over any run. -/
theorem status_of_run {w w' : Lend.World τ ρ}
    (h : Runs.Reachable ((Lend.system .i128 H).after w) w') {txid : BytesN 32} {pos : Lend.Position}
    (hpos : w.positions.lookup txid = some pos) :
    ∃ pos', w'.positions.lookup txid = some pos' ∧ (pos.status ≠ .Active → pos'.status = pos.status) := by
  refine h.invariant (I := fun w' => ∃ pos', w'.positions.lookup txid = some pos' ∧
    (pos.status ≠ .Active → pos'.status = pos.status)) ?_ ?_
  · rintro w' rfl
    exact ⟨pos, hpos, fun _ => rfl⟩
  · rintro w₁ l w₂ ⟨pos₁, hpos₁, hst⟩ - hs
    obtain ⟨pos₂, hpos₂, hc⟩ := Lend.step_continues hs txid pos₁ hpos₁
    refine ⟨pos₂, hpos₂, fun hne => ?_⟩
    rcases hc.status with heq | ⟨hactive, -⟩
    · rw [heq, hst hne]
    · rw [hst hne] at hactive
      exact absurd hactive hne

theorem release_of_run {w w' : Lend.World τ ρ}
    (h : Runs.Reachable ((Lend.system .i128 H).after w) w') {txid : BytesN 32}
    (hr : (w.releasePsbts.lookup txid).isSome = true) :
    (w'.releasePsbts.lookup txid).isSome = true := by
  refine h.invariant (I := fun w' => (w'.releasePsbts.lookup txid).isSome = true) ?_ ?_
  · rintro w' rfl
    exact hr
  · intro w₁ l w₂ hr₁ _ hs
    exact step_releases hs hr₁

/-! ## From request to request -/

namespace History

variable (h : History H)

theorem goes_on_le {j k : Nat} (hjk : j ≤ k) :
    Runs.Reachable ((Lend.system .i128 H).after (h.chain j).world) (h.chain k).world := by
  induction hjk with
  | refl => exact .init rfl
  | step _ ih => exact ih.append (h.goes_on _)

theorem reachable_at (k : Nat) : Runs.Reachable (Lend.system .i128 H) (h.chain k).world :=
  h.reachable.append (h.goes_on_le (Nat.zero_le k))

theorem log_le {j k : Nat} (hjk : j ≤ k) : (h.chain j).log <+: (h.chain k).log := by
  induction hjk with
  | refl => exact List.prefix_rfl
  | step _ ih => exact ih.trans (h.log_grows _)

/-- A position that is not active any more stays what it is. -/
theorem statusAt_le {j k : Nat} (hjk : j ≤ k) {txid : Text} {status : PositionStatus}
    (hs : h.statusAt j txid = some status) (hne : status ≠ .Active) :
    h.statusAt k txid = some status := by
  unfold statusAt at hs ⊢
  obtain ⟨key, hkey, hlookup⟩ := Option.bind_eq_some_iff.mp hs
  obtain ⟨pos, hpos, rfl⟩ := Option.map_eq_some_iff.mp hlookup
  obtain ⟨pos', hpos', hst⟩ := status_of_run (h.goes_on_le hjk) hpos
  rw [hkey, Option.bind_some, hpos', Option.map_some, hst hne]

theorem releasedAt_le {j k : Nat} (hjk : j ≤ k) {txid : Text} (hr : h.releasedAt j txid = true) :
    h.releasedAt k txid = true := by
  unfold releasedAt at hr ⊢
  obtain ⟨key, hkey, hlookup⟩ := (Option.any_eq_true _ _).mp hr
  rw [hkey]
  exact release_of_run (h.goes_on_le hjk) hlookup

/-! ## The events of repayments -/

theorem isClosed_iff_statusAt {k : Nat} {txid : Text} {key : BytesN 32}
    (hkey : txidKey (fromHex txid) = some key) :
    Lend.isClosed (h.chain k).world key = true ↔ h.statusAt k txid = some .Closed := by
  unfold Lend.isClosed statusAt
  rw [hkey, Option.bind_some]
  cases (h.chain k).world.positions.lookup key with
  | none => simp
  | some pos => simp

/-- A position is closed exactly where the contract has told that it is repaid. -/
theorem isClosed_iff_told (k : Nat) (key : BytesN 32) :
    Lend.isClosed (h.chain k).world key = true ↔
      ∃ e ∈ (h.chain k).log, e.event.repays key = true := by
  have htold : (h.chain k).log.countP (fun e => e.event.repays key)
      = if Lend.isClosed (h.chain k).world key then 1 else 0 := by
    rw [← Lend.repaymentsTold_of_reachable (h.reachable_at k) key, Lend.repayments, ← h.log_events k,
      List.countP_map]
    rfl
  constructor
  · intro hc
    rw [if_pos hc] at htold
    exact List.countP_pos_iff.mp (htold ▸ Nat.one_pos)
  · intro he
    have hpos := List.countP_pos_iff.mpr he
    by_contra hc
    rw [htold, if_neg hc] at hpos
    exact absurd hpos (lt_irrefl 0)

end History

theorem txidKey_encode (key : BytesN 32) : txidKey (fromHex (Hex.encode key.1)) = some key := by
  rw [fromHex_of_decode (Hex.decode_encode key.1)]
  exact dif_pos key.2

/-- A `repay_full` that RPC serves is one of a closed position. -/
theorem History.closed_of_repaidTxid (h : History H) {k : Nat} {e : ChainEvent}
    (he : e ∈ (h.chain k).log) {key : BytesN 32} (hrepays : e.event.repays key = true) :
    h.statusAt k (Hex.encode key.1) = some .Closed :=
  (h.isClosed_iff_statusAt (txidKey_encode key)).mp ((h.isClosed_iff_told k key).mpr ⟨e, he, hrepays⟩)

end Writz.Relayer

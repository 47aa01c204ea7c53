import Writz.Lend.Proofs.Books
import Writz.Lend.Proofs.Events
import Writz.Lend.Deployment

/-!
# Proofs: the three records of what lenders hold

The stored balances, the scaled supply and the event stream record the same units, as long as the
scaled supply does not saturate when units are minted. The floored values add up to at most the assets
where the product they are computed from does not saturate either.
-/

namespace Writz.Lend

variable {τ ρ : Type}

/-- One event of the stream, applied to the balances and their total. -/
def replayEvent (s : Store Address Int × Int) : Event → Store Address Int × Int
  | .supply supplier _ scaled _ _ =>
    (s.1.insert supplier ((s.1.lookup supplier).getD 0 + scaled), s.2 + scaled)
  | .withdraw supplier _ scaled _ _ =>
    (s.1.insert supplier ((s.1.lookup supplier).getD 0 - scaled), s.2 - scaled)
  | _ => s

/-- The balances and their total, from the events alone. -/
def replayEvents (es : List Event) : Store Address Int × Int := es.foldl replayEvent (∅, 0)

/-- The three records agree. -/
structure SupplyLedger (w : World τ ρ) : Prop where
  held_eq : heldUnits w = (getProtocol w).totalScaledSupply
  replayed : replayEvents w.events = (w.supplyBalances, (getProtocol w).totalScaledSupply)

theorem replayEvent_quiet {s : Store Address Int × Int} {e : Event} (h : e.quiet = true) :
    replayEvent s e = s := by
  cases e <;> first | rfl | cases h

theorem replayEvent_repay {s : Store Address Int × Int} {c : Prop} [Decidable c] {txid : BytesN 32}
    {repayer : Address} {spk : Bytes} {amount : Int} :
    replayEvent s (if c then .repayFull txid repayer spk else .repay txid amount) = s := by
  split_ifs <;> rfl

theorem replayEvents_append (es es' : List Event) :
    replayEvents (es ++ es') = es'.foldl replayEvent (replayEvents es) := List.foldl_append

theorem replayEvents_quiet {es es' : List Event} (h : ∀ e ∈ es', e.quiet = true) :
    replayEvents (es ++ es') = replayEvents es := by
  rw [replayEvents_append]
  induction es' with
  | nil => rfl
  | cons e es' ih =>
    rw [List.foldl_cons, replayEvent_quiet (h e List.mem_cons_self)]
    exact ih fun e he => h e (List.mem_cons_of_mem _ he)

section

variable {A : Arith} {H : Host τ ρ} {env : Env} {w w' : World τ ρ}

/-- A lender's balance has room for what the scaled supply has room for. -/
theorem Books.add_balance_eq (h : Books A w) (supplier : Address) {n : Int} (hn : 0 ≤ n)
    (hfit : A.add (getProtocol w).totalScaledSupply n = (getProtocol w).totalScaledSupply + n) :
    A.add (supplyBalanceOf w supplier) n = supplyBalanceOf w supplier + n := by
  have hbal := h.supplyBalance_nonneg supplier
  have hle := h.supplyBalance_le supplier
  have hheld := h.held_le
  exact A.clamp_fixed _ ((getProtocol w).totalScaledSupply + n) (by omega) (by omega) hfit

/-- A successful call keeps the records. -/
theorem SupplyLedger.exec {c : Call} (h : SupplyLedger w) (hb : Books A w)
    (hfit : MintFits A w (.invoke env c)) (he : exec A H env w c = .ok w') : SupplyLedger w' := by
  obtain ⟨es, hev, hes⟩ := exec_events he
  have hquiet : (∀ e ∈ es, e.quiet = true) → replayEvents w'.events
      = (w.supplyBalances, (getProtocol w).totalScaledSupply) := by
    intro hq
    rw [hev, replayEvents_quiet hq, h.replayed]
  have hp := hb.projected_sound
  cases exec_effect he with
  | @supply supplier amount t ev hself hmint ht =>
    have hs : A.add (projected A w).totalScaledSupply (mintFor A (projected A w) amount)
        = (projected A w).totalScaledSupply + mintFor A (projected A w) amount := hfit
    have hbal := hb.add_balance_eq supplier hmint.le hs
    have hheld := h.held_eq
    obtain ⟨assets, rfl⟩ := hes
    refine ⟨?_, ?_⟩
    · change Store.sum id _ = A.add _ _
      rw [sum_insert_supplyBalance, hs, hbal, projected_totalScaledSupply]
      omega
    · rw [hev, replayEvents_append, h.replayed]
      change (w.supplyBalances.insert supplier (supplyBalanceOf w supplier
        + mintFor A (projected A w) amount), _) = _
      rw [← hbal, ← projected_totalScaledSupply (A := A), ← hs]
      rfl
  | @withdraw supplier amount t ev hself hamount hvalue havailable ht =>
    have hbal := hb.supplyBalance_nonneg supplier
    have hle := hb.supplyBalance_le supplier
    have hheld := h.held_eq
    have hburn := burnFor_mem (A := A) (v := valueOf A w (projected A w) supplier)
      hp.supplyIndex_pos hbal hamount.le
    have hsub := A.sub_eq (x := (getProtocol w).totalScaledSupply) hburn.1 (by omega) hb.fits
    obtain ⟨assets, rfl⟩ := hes
    refine ⟨?_, ?_⟩
    · change Store.sum id _ = A.sub _ _
      rw [sum_insert_supplyBalance, projected_totalScaledSupply, hsub]
      omega
    · rw [hev, replayEvents_append, h.replayed]
      change (_, (getProtocol w).totalScaledSupply - _) = (_, A.sub _ _)
      rw [projected_totalScaledSupply, hsub]
      rfl
  | repay =>
    obtain ⟨pos, hpos, rfl⟩ := hes
    refine ⟨h.held_eq, ?_⟩
    rw [hev, replayEvents_append, h.replayed]
    exact replayEvent_repay
  | configure hcall =>
    have hq : ∀ e ∈ es, e.quiet = true := by
      cases c <;> first | exact hes | cases hcall
    exact ⟨h.held_eq, hquiet hq⟩
  | deposit | borrow | liquidate | heartbeat | psbt => exact ⟨h.held_eq, hquiet hes⟩

theorem Deployed.supplyLedger (h : Deployed w) : SupplyLedger w := by
  obtain ⟨hp, -, hbal, -⟩ := h.eq
  constructor
  · rw [getProtocol_eq hp, heldUnits, hbal]
    rfl
  · rw [h.events_eq, getProtocol_eq hp, hbal]
    rfl

theorem SupplyLedger.of_storage (h : SupplyLedger w) (hs : w'.toStorage = w.toStorage) :
    SupplyLedger w' := by
  obtain ⟨now, ledger, he⟩ := getProtocol_of_storage hs
  constructor
  · rw [he, heldUnits, hs]
    exact h.held_eq
  · rw [he, hs]
    exact h.replayed

theorem SupplyLedger.step (h : SupplyLedger w) (hb : Books A w) {l : Label τ ρ}
    (hfit : MintFits A w l) (hs : step A H w l = some w') : SupplyLedger w' := by
  cases l with
  | invoke env c =>
    cases hs
    cases he : Lend.exec A H env w c with
    | error e =>
      rw [invoke, he]
      exact h
    | ok w₁ =>
      rw [invoke, he]
      exact h.exec hb hfit he
  | advance l => exact h.of_storage (step_outside hs (by simp))
  | outside t r => exact h.of_storage (step_outside hs (by simp))

/-- The records agree in every run whose supplies fit. -/
theorem supplyLedger_of_via (h : Runs.Via (system A H) (MintFits A) w) : SupplyLedger w := by
  have hinv : Books A w ∧ SupplyLedger w :=
    h.invariant (I := fun w => Books A w ∧ SupplyLedger w)
      (fun _ h0 => ⟨Deployed.books h0, Deployed.supplyLedger h0⟩)
      fun _ _ _ hi hp hs => ⟨hi.1.step hp hs, hi.2.step hi.1 hp hs⟩
  exact hinv.2

/-! ## Floored values -/

/-- What all lenders are shown at the supply index of `proto`, each value floored. -/
def shownValues (A : Arith) (w : World τ ρ) (proto : ProtocolState) : Int :=
  Store.sum (fun b => (A.mul b proto.supplyIndex).tdiv INDEX_ONE) w.supplyBalances

/-- The floored values add up to no more than the floored total, where that is computed exactly. -/
theorem shownValues_le (h : Books A w) {p : ProtocolState} (hp : 0 ≤ p.supplyIndex)
    (hheld : heldUnits w ≤ p.totalScaledSupply)
    (hfit : A.clamp (p.totalScaledSupply * p.supplyIndex) = p.totalScaledSupply * p.supplyIndex) :
    shownValues A w p ≤ totalSupplyAssets A p p.supplyIndex := by
  have hvalue : ∀ a b, w.supplyBalances.lookup a = some b →
      INDEX_ONE * (A.mul b p.supplyIndex).tdiv INDEX_ONE ≤ p.supplyIndex * b := by
    intro a b hab
    have hb := h.balance_nonneg a b hab
    calc INDEX_ONE * (A.mul b p.supplyIndex).tdiv INDEX_ONE
        ≤ A.mul b p.supplyIndex := Int.mul_tdiv_self_le (A.mul_nonneg hb hp)
      _ ≤ b * p.supplyIndex := A.mul_le hb hp
      _ = p.supplyIndex * b := mul_comm _ _
  have hsum : shownValues A w p * INDEX_ONE ≤ p.totalScaledSupply * p.supplyIndex :=
    calc shownValues A w p * INDEX_ONE
        = Store.sum (fun b => INDEX_ONE * (A.mul b p.supplyIndex).tdiv INDEX_ONE)
            w.supplyBalances := by rw [Store.sum_mul_left, mul_comm, shownValues]
      _ ≤ Store.sum (fun b => p.supplyIndex * b) w.supplyBalances := Store.sum_le_sum hvalue
      _ = p.supplyIndex * heldUnits w := Store.sum_mul_left _ id _
      _ ≤ p.supplyIndex * p.totalScaledSupply := Int.mul_le_mul_of_nonneg_left hheld hp
      _ = p.totalScaledSupply * p.supplyIndex := mul_comm _ _
  calc shownValues A w p = (shownValues A w p * INDEX_ONE).tdiv INDEX_ONE :=
        (Int.mul_tdiv_cancel _ (by decide)).symm
    _ ≤ (p.totalScaledSupply * p.supplyIndex).tdiv INDEX_ONE :=
        Int.tdiv_le_tdiv INDEX_ONE_pos hsum
    _ = totalSupplyAssets A p p.supplyIndex := by rw [totalSupplyAssets, Arith.mul, hfit]

/-- The supply ledger: in every run in which no supply saturates the scaled supply, the stored
balances are not negative and add up to it, the event stream alone gives both, and the floored values
add up to no more than the assets where the product of scaled supply and supply index is an `i128`. -/
theorem supply_ledger_agrees (h : Runs.Via (system .i128 H) (MintFits .i128) w) :
    Store.sum id w.supplyBalances = (getProtocol w).totalScaledSupply ∧
      (∀ lender b, w.supplyBalances.lookup lender = some b → 0 ≤ b) ∧
      replayEvents w.events = (w.supplyBalances, (getProtocol w).totalScaledSupply) ∧
      ∀ p ∈ [getProtocol w, projected .i128 w], p.totalScaledSupply * p.supplyIndex ≤ I128_MAX →
        shownValues .i128 w p ≤ totalSupplyAssets .i128 p p.supplyIndex := by
  have hb := books_of_via h
  have hl := supplyLedger_of_via h
  have hfit : ∀ x : Int, 0 ≤ x → x ≤ I128_MAX → Arith.i128.clamp x = x :=
    fun x h0 hx => Arith.i128.clamp_fixed x I128_MAX h0 hx (by decide)
  refine ⟨hl.held_eq, hb.balance_nonneg, hl.replayed, fun p hp hmax => ?_⟩
  have hsound : p.Sound ∧ p.totalScaledSupply = (getProtocol w).totalScaledSupply := by
    rcases List.mem_pair.mp hp with rfl | rfl
    · exact ⟨hb.sound, rfl⟩
    · exact ⟨hb.projected_sound, rfl⟩
  obtain ⟨hs, htotal⟩ := hsound
  exact shownValues_le hb hs.supplyIndex_pos.le (htotal ▸ hb.held_le)
    (hfit _ (Int.mul_nonneg hs.scaled_nonneg hs.supplyIndex_pos.le) hmax)

end

/-- Ten stroops supplied and three withdrawn. -/
theorem supply_ledger_agrees_withdrawn :
    ∃ w : Demo.State, w.events.length = 2 ∧
      replayEvents w.events = (w.supplyBalances, (getProtocol w).totalScaledSupply) ∧
      shownValues .i128 w (getProtocol w) ≤ totalSupplyAssets .i128 (getProtocol w)
        (getProtocol w).supplyIndex := by
  have hfit : MintFits .i128 Demo.world
      (.invoke (Demo.env Demo.START) (.supplyUsdc Demo.lender 10)) := by
    change Arith.i128.add _ _ = _
    decide +kernel
  have hvia : Runs.Via (system .i128 (Demo.host [] 0)) (MintFits .i128) _ :=
    ((Runs.Via.init Demo.world_deployed).step hfit rfl).step
      (a := .invoke (Demo.env Demo.START) (.withdrawSupply Demo.lender 3)) trivial rfl
  obtain ⟨-, -, hreplay, hshown⟩ := supply_ledger_agrees hvia
  exact ⟨_, by decide +kernel, hreplay, hshown _ List.mem_cons_self (by decide +kernel)⟩

namespace Demo

/-- Lenders with 120000000000000000000 stroops each. -/
def richBalances : Store Address Nat :=
  ((∅ : Store Address Nat).insert lender 120000000000000000000).insert alice 120000000000000000000

def richWorld : State := launch storage richBalances [] (ledger 0)

theorem richWorld_deployed : Deployed richWorld :=
  ⟨admin, spvContract, usdc, oracle, keeper, relayer, protocolPubkey, 6, 100000, 3110400, rfl⟩

end Demo

/-- Two supplies after which the assets saturate and the floored values add up to more. -/
theorem shown_values_exceed_assets :
    ∃ w : Demo.State, Runs.Reachable (system .i128 (Demo.host [] 0)) w ∧
      totalSupplyAssets .i128 (getProtocol w) (getProtocol w).supplyIndex
        < shownValues .i128 w (getProtocol w) := by
  obtain ⟨w, hr, hw⟩ := reachable_of_replay (A := .i128) (H := Demo.host [] 0)
    Demo.richWorld_deployed
    [.invoke (Demo.env Demo.START) (.supplyUsdc Demo.lender 120000000000000000000),
      .invoke (Demo.env Demo.START) (.supplyUsdc Demo.alice 120000000000000000000)]
    (f := fun w => decide (totalSupplyAssets .i128 (getProtocol w) (getProtocol w).supplyIndex
      < shownValues .i128 w (getProtocol w))) (a := true) (by decide +kernel)
  exact ⟨w, hr, of_decide_eq_true hw⟩

end Writz.Lend

import Writz.Lend.Proofs.Effects
import Writz.Lend.Proofs.Accrual

/-!
# Proofs: the books of the pool

What holds of the stored accounts in every run, whatever the arithmetic: the indexes are positive,
nothing a lender or a borrower holds is negative, and the lenders' scaled balances add up to no more
than the scaled supply. The last needs the scaled supply not to saturate when units are minted.
-/

namespace Writz.Lend

variable {τ ρ : Type}

/-- What all lenders hold, in scaled units. -/
def heldUnits (w : World τ ρ) : Int := Store.sum id w.supplyBalances

/-- The invariant of the accounts. -/
structure Books (A : Arith) (w : World τ ρ) : Prop where
  sound : (getProtocol w).Sound
  fits : A.clamp (getProtocol w).totalScaledSupply = (getProtocol w).totalScaledSupply
  held_le : heldUnits w ≤ (getProtocol w).totalScaledSupply
  balance_nonneg : ∀ a b, w.supplyBalances.lookup a = some b → 0 ≤ b
  debt_nonneg : ∀ txid pos, w.positions.lookup txid = some pos → 0 ≤ pos.usdcDebt
  configured : ∃ config, w.config = some config ∧ config.liquidationBonusBp = 1000

/-- A supply whose units fit the scaled supply; any other step. -/
def MintFits (A : Arith) (w : World τ ρ) : Label τ ρ → Prop
  | .invoke _ (.supplyUsdc _ amount) =>
    A.add (projected A w).totalScaledSupply (mintFor A (projected A w) amount)
      = (projected A w).totalScaledSupply + mintFor A (projected A w) amount
  | _ => True

section

variable {A : Arith} {H : Host τ ρ} {env : Env} {w w' : World τ ρ}

theorem projected_accrual (A : Arith) (w : World τ ρ) : Accrual A (getProtocol w) (projected A w) :=
  accrueGlobal_accrual A _ _

@[simp] theorem projected_totalScaledSupply :
    (projected A w).totalScaledSupply = (getProtocol w).totalScaledSupply := rfl

theorem Books.projected_sound (h : Books A w) : (projected A w).Sound :=
  (projected_accrual A w).sound h.sound

theorem Books.bonus (h : Books A w) {config : Config} (hc : w.config = some config) :
    config.liquidationBonusBp = 1000 := by
  obtain ⟨config', hc', hbonus⟩ := h.configured
  rw [hc] at hc'
  cases hc'
  exact hbonus

theorem Books.supplyBalance_nonneg (h : Books A w) (a : Address) : 0 ≤ supplyBalanceOf w a := by
  unfold supplyBalanceOf
  cases hb : w.supplyBalances.lookup a with
  | none => exact le_rfl
  | some b => exact h.balance_nonneg a b hb

theorem Books.supplyBalance_le (h : Books A w) (a : Address) : supplyBalanceOf w a ≤ heldUnits w := by
  unfold supplyBalanceOf
  cases hb : w.supplyBalances.lookup a with
  | none => exact Store.sum_nonneg h.balance_nonneg
  | some b => exact Store.le_sum (f := id) hb h.balance_nonneg

/-- Writing a lender's balance moves the total by the difference. -/
theorem sum_insert_supplyBalance (a : Address) (b : Int) :
    Store.sum id (w.supplyBalances.insert a b) = heldUnits w - supplyBalanceOf w a + b := by
  have h := Store.sum_insert id w.supplyBalances a b
  have he : (w.supplyBalances.lookup a).elim 0 id = supplyBalanceOf w a := by
    unfold supplyBalanceOf
    cases w.supplyBalances.lookup a <;> rfl
  rw [he] at h
  simp only [heldUnits, id] at *
  omega

/-- A fact about every stored value still holds after a write of a value it holds of. -/
theorem forall_insert {κ ν : Type} [DecidableEq κ] {P : ν → Prop} {s : Store κ ν} {k : κ} {v : ν}
    (h : ∀ k v, s.lookup k = some v → P v) (hv : P v) :
    ∀ k' v', (s.insert k v).lookup k' = some v' → P v' := by
  intro k' v' hk
  rw [Store.lookup_insert_eq_ite] at hk
  split_ifs at hk with he
  · cases hk
    exact hv
  · exact h k' v' hk

theorem accruedDebt_nonneg {pos : Position} {index : Int} (hd : 0 ≤ pos.usdcDebt)
    (hi : 0 ≤ index) : 0 ≤ accruedDebt A pos index := by
  unfold accruedDebt
  split_ifs with hc
  · exact Int.tdiv_nonneg (A.mul_nonneg hd hi) hc.2.le
  · exact hd

/-- A withdrawal burns some of the balance. -/
theorem burnFor_mem {p : ProtocolState} {bal v amount : Int} (hp : 0 < p.supplyIndex)
    (hb : 0 ≤ bal) (ha : 0 ≤ amount) :
    0 ≤ burnFor A p bal v amount ∧ burnFor A p bal v amount ≤ bal := by
  unfold burnFor
  split_ifs with hv
  · exact ⟨hb, le_rfl⟩
  · refine ⟨le_min (Int.tdiv_nonneg ?_ hp.le) hb, min_le_right _ _⟩
    exact A.add_nonneg (A.mul_nonneg ha (by decide)) (by omega)

/-- The effect of a call keeps the books, a supply's units fitting. -/
theorem Effect.books {c : Call} (e : Effect A H w c w') (h : Books A w)
    (hfit : MintFits A w (.invoke env c)) : Books A w' := by
  have hp := h.projected_sound
  cases e with
  | deposit hc hnew hcons hdebt =>
    exact ⟨h.sound, h.fits, h.held_le, h.balance_nonneg,
      forall_insert h.debt_nonneg hdebt.ge, h.configured⟩
  | @supply supplier amount t ev hself hmint ht =>
    have hs : A.add (projected A w).totalScaledSupply (mintFor A (projected A w) amount)
        = (projected A w).totalScaledSupply + mintFor A (projected A w) amount := hfit
    have hbal := h.supplyBalance_nonneg supplier
    have hnew := A.clamp_le _ (by omega : 0 ≤ supplyBalanceOf w supplier
      + mintFor A (projected A w) amount)
    have hheld := h.held_le
    refine ⟨⟨hp.supplyIndex_pos, hp.borrowIndex_pos, ?_, hp.reserve_nonneg⟩, ?_, ?_,
      forall_insert h.balance_nonneg (A.add_nonneg hbal hmint.le), h.debt_nonneg, h.configured⟩
    · exact A.add_nonneg hp.scaled_nonneg hmint.le
    · change A.clamp (A.add _ _) = A.add _ _
      rw [hs]
      exact hs
    · change Store.sum id _ ≤ A.add _ _
      rw [sum_insert_supplyBalance, hs, projected_totalScaledSupply]
      simp only [Arith.add] at *
      omega
  | @withdraw supplier amount t ev hself hamount hvalue havailable ht =>
    have hbal := h.supplyBalance_nonneg supplier
    have hle := h.supplyBalance_le supplier
    have hheld := h.held_le
    have hburn := burnFor_mem (A := A) (v := valueOf A w (projected A w) supplier)
      hp.supplyIndex_pos hbal hamount.le
    have hsub := A.sub_eq (x := (getProtocol w).totalScaledSupply) hburn.1 (by omega) h.fits
    refine ⟨⟨hp.supplyIndex_pos, hp.borrowIndex_pos, ?_, hp.reserve_nonneg⟩, ?_, ?_,
      forall_insert h.balance_nonneg (by omega), h.debt_nonneg, h.configured⟩
    · exact A.sub_nonneg (by rw [projected_totalScaledSupply]; omega)
    · change A.clamp (A.sub _ _) = A.sub _ _
      rw [projected_totalScaledSupply, hsub]
      exact hsub
    · change Store.sum id _ ≤ A.sub _ _
      rw [sum_insert_supplyBalance, projected_totalScaledSupply, hsub]
      omega
  | borrow hself hpos hactive havailable ht =>
    have hd := accruedDebt_nonneg (A := A) (h.debt_nonneg _ _ hpos) hp.borrowIndex_pos.le
    exact ⟨⟨hp.supplyIndex_pos, hp.borrowIndex_pos, hp.scaled_nonneg, hp.reserve_nonneg⟩, h.fits,
      h.held_le, h.balance_nonneg,
      forall_insert h.debt_nonneg (A.add_nonneg hd (H.token.transfer_nonneg ht)), h.configured⟩
  | repay hself hpos hactive hdebt ht =>
    exact ⟨⟨hp.supplyIndex_pos, hp.borrowIndex_pos, hp.scaled_nonneg, hp.reserve_nonneg⟩, h.fits,
      h.held_le, h.balance_nonneg, forall_insert h.debt_nonneg (A.sub_nonneg hdebt), h.configured⟩
  | @liquidate keeper txid config pos t t' now ev hself hc hpos hactive ht ht' =>
    have hres : 0 ≤ if 0 < bonusFor A config (projected A w)
          (accruedDebt A pos (projected A w).borrowIndex) then
        (projected A w).reserveUsdc - bonusFor A config (projected A w)
          (accruedDebt A pos (projected A w).borrowIndex)
        else (projected A w).reserveUsdc := by
      have hle : bonusFor A config (projected A w)
          (accruedDebt A pos (projected A w).borrowIndex) ≤ (projected A w).reserveUsdc :=
        min_le_right _ _
      have := hp.reserve_nonneg
      split_ifs <;> omega
    exact ⟨⟨hp.supplyIndex_pos, hp.borrowIndex_pos, hp.scaled_nonneg, hres⟩, h.fits, h.held_le,
      h.balance_nonneg, forall_insert h.debt_nonneg le_rfl, h.configured⟩
  | heartbeat =>
    exact ⟨⟨h.sound.supplyIndex_pos, h.sound.borrowIndex_pos, h.sound.scaled_nonneg,
      h.sound.reserve_nonneg⟩, h.fits, h.held_le, h.balance_nonneg, h.debt_nonneg, h.configured⟩
  | configure hcall hc hbonus =>
    exact ⟨h.sound, h.fits, h.held_le, h.balance_nonneg, h.debt_nonneg, _, rfl,
      hbonus.trans (h.bonus hc)⟩
  | psbt => exact ⟨h.sound, h.fits, h.held_le, h.balance_nonneg, h.debt_nonneg, h.configured⟩

/-- The protocol state read before anything is written. -/
theorem getProtocol_eq (h : w.protocol = none) :
    getProtocol w =
      { reserveUsdc := 0, totalScaledSupply := 0, supplyIndex := INDEX_ONE, totalBorrowed := 0,
        lastKeeperHeartbeat := w.ledger.timestamp, borrowIndex := INDEX_ONE,
        indexLedger := w.ledger.sequence } := by
  rw [getProtocol, h]
  rfl

theorem INDEX_ONE_pos : 0 < INDEX_ONE := by decide

/-- A freshly deployed instance: nothing stored but the configuration. -/
theorem Deployed.eq (h : Deployed w) :
    w.protocol = none ∧ w.positions = ∅ ∧ w.supplyBalances = ∅ ∧
      ∃ config, w.config = some config ∧ config.liquidationBonusBp = 1000 := by
  obtain ⟨admin, spvContract, usdcToken, oracle, keeper, relayer, protocolPubkey, minConfirmations,
    minDepositSatoshis, entryTtlLedgers, h⟩ := h
  simp only [construct, bind_eq_ok, failIf_eq_ok] at h
  obtain ⟨_, -, _, -, _, -, h⟩ := h
  have hs := Except.ok.inj h
  cases w
  subst hs
  exact ⟨rfl, rfl, rfl, _, rfl, rfl⟩

theorem Deployed.books (h : Deployed w) : Books A w := by
  obtain ⟨hp, hpos, hbal, config, hc, hbonus⟩ := h.eq
  have hproto := getProtocol_eq hp
  refine ⟨?_, ?_, ?_, ?_, ?_, ?_⟩
  · rw [hproto]
    exact ⟨INDEX_ONE_pos, INDEX_ONE_pos, le_rfl, le_rfl⟩
  · rw [hproto]
    exact A.clamp_zero
  · rw [hproto, heldUnits, hbal]
    exact le_rfl
  · simp [hbal]
  · simp [hpos]
  · exact ⟨config, hc, hbonus⟩

/-- A step that is no invocation leaves the storage as it was. -/
theorem step_outside {l : Label τ ρ} (hs : step A H w l = some w')
    (hl : ∀ env c, l ≠ .invoke env c) : w'.toStorage = w.toStorage := by
  cases l with
  | invoke env c => exact absurd rfl (hl env c)
  | advance l =>
    simp only [step] at hs
    split_ifs at hs
    cases hs
    rfl
  | outside t r =>
    simp only [step] at hs
    split_ifs at hs
    cases hs
    rfl

/-- The accounts read depend on the storage alone. -/
theorem getProtocol_of_storage (hs : w'.toStorage = w.toStorage) :
    ∃ now ledger, getProtocol w' =
      { getProtocol w with lastKeeperHeartbeat := now, indexLedger := ledger } := by
  unfold getProtocol
  rw [show w'.protocol = w.protocol from congrArg Storage.protocol hs]
  cases w.protocol <;> exact ⟨_, _, rfl⟩

theorem Books.of_storage (h : Books A w) (hs : w'.toStorage = w.toStorage) : Books A w' := by
  obtain ⟨now, ledger, he⟩ := getProtocol_of_storage hs
  have hsound := h.sound
  refine ⟨?_, ?_, ?_, ?_, ?_, ?_⟩
  · rw [he]
    exact ⟨hsound.1, hsound.2, hsound.3, hsound.4⟩
  · rw [he]
    exact h.fits
  · rw [he, heldUnits, hs]
    exact h.held_le
  · rw [hs]
    exact h.balance_nonneg
  · rw [hs]
    exact h.debt_nonneg
  · rw [hs]
    exact h.configured

/-- A step keeps the books. -/
theorem Books.step (h : Books A w) {l : Label τ ρ} (hfit : MintFits A w l)
    (hs : step A H w l = some w') : Books A w' := by
  cases l with
  | invoke env c =>
    cases hs
    rcases invoke_cases A H env w c with he | he
    · rwa [he]
    · exact he.books h hfit
  | advance l => exact h.of_storage (step_outside hs (by simp))
  | outside t r => exact h.of_storage (step_outside hs (by simp))

/-- The books are kept in every run whose supplies fit. -/
theorem books_of_via (h : Runs.Via (system A H) (MintFits A) w) : Books A w :=
  h.invariant (fun _ h0 => Deployed.books h0) fun _ _ _ hb hp hs => hb.step hp hs

/-- In exact arithmetic every supply fits. -/
theorem books_of_reachable (h : Runs.Reachable (system .exact H) w) : Books .exact w :=
  books_of_via (h.mono fun _ l _ => by cases l with
    | invoke env c => cases c <;> first | exact rfl | exact trivial
    | _ => trivial)

end

end Writz.Lend

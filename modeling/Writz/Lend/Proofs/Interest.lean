import Writz.Lend.Proofs.Effects
import Writz.Lend.Proofs.Accrual

/-!
# Proofs: the interest of a run

Which steps of a run accrue, and what their accruals charge and to whom.
-/

namespace Writz.Lend

variable {τ ρ : Type}

/-- The calls that accrue. -/
def Call.accrues : Call → Bool
  | .supplyUsdc .. | .withdrawSupply .. | .borrow .. | .repay .. | .liquidate .. => true
  | _ => false

/-- A quantity of the successful calls, from the state before the call. -/
def onSuccess (A : Arith) (H : Host τ ρ) (f : World τ ρ → Call → Int)
    (t : Runs.Transition (World τ ρ) (Label τ ρ)) : Int :=
  match t.label with
  | .invoke env c => if (exec A H env t.pre c).isOk then f t.pre c else 0
  | _ => 0

/-- Counts the calls that accrue. -/
def accrualOf (_ : World τ ρ) (c : Call) : Int := if c.accrues then 1 else 0

/-- The interest the accrual of a call adds to the loans. -/
def interestOf (A : Arith) (w : World τ ρ) (c : Call) : Int :=
  if c.accrues then (projected A w).totalBorrowed - (getProtocol w).totalBorrowed else 0

/-- What the accrual of a call adds to the reserve. -/
def reserveOf (A : Arith) (w : World τ ρ) (c : Call) : Int :=
  if c.accrues then (projected A w).reserveUsdc - (getProtocol w).reserveUsdc else 0

/-- A quantity added up over the steps of a run. -/
def total (f : Runs.Transition (World τ ρ) (Label τ ρ) → Int)
    (tr : List (Runs.Transition (World τ ρ) (Label τ ρ))) : Int := (tr.map f).sum

/-- The interest an accrual of `p` to the ledger `current` charges. -/
def interestAt (A : Arith) (p : ProtocolState) (current : Nat) : Int :=
  if 0 < p.totalBorrowed ∧ p.borrowIndex < (project A p current).borrowIndex then
    accruedDelta A p (project A p current).borrowIndex
  else
    0

/-- The lenders' share of that interest: all of it but the protocol's fee. -/
def lenderShareAt (A : Arith) (p : ProtocolState) (current : Nat) : Int :=
  interestAt A p current - accruedFee A (interestAt A p current)

variable {A : Arith} {H : Host τ ρ} {w w' : World τ ρ}

@[simp] theorem total_nil (f : Runs.Transition (World τ ρ) (Label τ ρ) → Int) : total f [] = 0 := rfl

@[simp] theorem total_cons (f : Runs.Transition (World τ ρ) (Label τ ρ) → Int) (t) (tr) :
    total f (t :: tr) = f t + total f tr := by simp [total]

/-- A step is a successful call with its effect, or it leaves the storage as it was and counts for
nothing. -/
theorem step_cases {l : Label τ ρ} (hs : step A H w l = some w') :
    (∃ env c, l = .invoke env c ∧ Effect A H w c w' ∧
      ∀ f, onSuccess A H f ⟨w, l, w'⟩ = f w c) ∨
    (w'.toStorage = w.toStorage ∧ ∀ f, onSuccess A H f ⟨w, l, w'⟩ = 0) := by
  cases l with
  | invoke env c =>
    cases hs
    cases he : exec A H env w c with
    | error e =>
      refine .inr ⟨by rw [invoke, he], fun f => ?_⟩
      simp [onSuccess, he, Except.isOk, Except.toBool]
    | ok w₁ =>
      have hw : invoke A H env w c = w₁ := by rw [invoke, he]
      refine .inl ⟨env, c, rfl, hw ▸ exec_effect he, fun f => ?_⟩
      simp [onSuccess, he, Except.isOk, Except.toBool]
  | advance l =>
    refine .inr ⟨?_, fun f => rfl⟩
    simp only [step] at hs
    split_ifs at hs
    cases hs
    rfl
  | outside t r =>
    refine .inr ⟨?_, fun f => rfl⟩
    simp only [step] at hs
    split_ifs at hs
    cases hs
    rfl

theorem accruedFee_zero : accruedFee A 0 = 0 := by
  simp [accruedFee, Arith.mul, A.clamp_zero]

/-- What an accrual writes, in terms of the interest. -/
theorem accrueGlobal_eq_grown {p : ProtocolState} {current : Nat}
    (h : 0 < p.totalBorrowed ∧ p.borrowIndex < (project A p current).borrowIndex) :
    accrueGlobal A current p =
      { p with
        borrowIndex := (project A p current).borrowIndex
        supplyIndex := grownSupplyIndex A p (interestAt A p current)
        totalBorrowed := A.add p.totalBorrowed (interestAt A p current)
        reserveUsdc := A.add p.reserveUsdc (accruedFee A (interestAt A p current))
        indexLedger := current } := by
  have hint : interestAt A p current = accruedDelta A p (project A p current).borrowIndex :=
    if_pos h
  rw [hint]
  revert h
  unfold accrueGlobal project grownSupplyIndex
  dsimp only
  by_cases he : ((current - p.indexLedger : Nat) : Int) > 0
  · simp only [if_pos he]
    split_ifs with hg hs hs <;> intro h
    · rfl
    · rfl
    · exact absurd h hg
    · exact absurd h hg
  · simp only [if_neg he]
    exact fun h => absurd h.2 (lt_irrefl p.borrowIndex)

/-- Without interest an accrual moves the borrow index at most. -/
theorem accrueGlobal_eq_idle {p : ProtocolState} {current : Nat}
    (h : ¬(0 < p.totalBorrowed ∧ p.borrowIndex < (project A p current).borrowIndex)) :
    accrueGlobal A current p =
      { p with borrowIndex := (project A p current).borrowIndex, indexLedger := current } := by
  revert h
  unfold accrueGlobal project
  dsimp only
  by_cases he : ((current - p.indexLedger : Nat) : Int) > 0
  · simp only [if_pos he]
    split_ifs with hg hs <;> intro h
    · exact absurd hg h
    · exact absurd hg h
    · rfl
  · simp only [if_neg he]
    exact fun _ => trivial

theorem interestAt_nonneg {p : ProtocolState} (hp : 0 < p.borrowIndex) (current : Nat) :
    0 ≤ interestAt A p current := by
  unfold interestAt
  split_ifs with h
  · exact accruedDelta_nonneg h.1.le hp h.2.le
  · exact le_rfl

theorem lenderShareAt_nonneg {p : ProtocolState} (hp : 0 < p.borrowIndex) (current : Nat) :
    0 ≤ lenderShareAt A p current := by
  have := (accruedFee_mem (A := A) (interestAt_nonneg (A := A) hp current)).2
  unfold lenderShareAt
  omega

end Writz.Lend

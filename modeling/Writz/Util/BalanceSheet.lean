import Mathlib.Logic.Relation
import Mathlib.Tactic.Linarith
import Mathlib.Tactic.Ring

/-!
# Balance sheets of a lending pool

A pool holds cash and loans against a reserve and against units its lenders hold, each unit worth the
current price. `Move` lists what may happen to such a pool, over any ordered commutative ring, so the
amounts may be scaled as the pool that is refined needs it; each move keeps the pool solvent.
-/

namespace BalanceSheet

/-- The two sides of the pool. -/
structure Sheet (K : Type) where
  cash : K
  loans : K
  reserve : K
  units : K
  price : K

variable {K : Type} [CommRing K] [LinearOrder K] [IsStrictOrderedRing K]

/-- Cash and loans cover what the lenders and the reserve claim. -/
structure Solvent (s : Sheet K) : Prop where
  cash_nonneg : 0 ≤ s.cash
  reserve_nonneg : 0 ≤ s.reserve
  units_nonneg : 0 ≤ s.units
  price_nonneg : 0 ≤ s.price
  covered : s.units * s.price + s.reserve ≤ s.cash + s.loans

/-- What may happen to a pool. The side conditions say which way each rounding must go. -/
inductive Move : Sheet K → Sheet K → Prop where
  /-- Interest `δ`, of which `fee` goes to the reserve and no more than the rest to the price. -/
  | accrue {s : Sheet K} {δ fee price : K} (hfee : 0 ≤ fee) (hprice : s.price ≤ price)
      (hshare : s.units * (price - s.price) ≤ δ - fee) :
      Move s { s with loans := s.loans + δ, reserve := s.reserve + fee, price := price }
  /-- `a` paid in for units worth no more than that. -/
  | mint {s : Sheet K} {a u : K} (hu : 0 ≤ u) (h : u * s.price ≤ a) :
      Move s { s with cash := s.cash + a, units := s.units + u }
  /-- `a` paid out for units worth no less than that. -/
  | burn {s : Sheet K} {a u : K} (hu : u ≤ s.units) (ha : a ≤ s.cash) (h : a ≤ u * s.price) :
      Move s { s with cash := s.cash - a, units := s.units - u }
  /-- `a` lent out. -/
  | lend {s : Sheet K} {a : K} (ha : a ≤ s.cash) :
      Move s { s with cash := s.cash - a, loans := s.loans + a }
  /-- `a` paid back. -/
  | settle {s : Sheet K} {a : K} (ha : 0 ≤ a) :
      Move s { s with cash := s.cash + a, loans := s.loans - a }
  /-- `a` paid out of the reserve. -/
  | pay {s : Sheet K} {a : K} (ha : a ≤ s.cash) (hr : a ≤ s.reserve) :
      Move s { s with cash := s.cash - a, reserve := s.reserve - a }
  /-- `a` given to the pool. -/
  | gift {s : Sheet K} {a : K} (ha : 0 ≤ a) : Move s { s with cash := s.cash + a }

/-- Every move keeps a solvent pool solvent. -/
theorem Move.solvent {s s' : Sheet K} (h : Move s s') (hs : Solvent s) : Solvent s' := by
  obtain ⟨hcash, hres, hunits, hprice, hcov⟩ := hs
  cases h with
  | @accrue δ fee price hfee hp hshare =>
    have hsplit : s.units * price = s.units * s.price + s.units * (price - s.price) := by ring
    exact ⟨hcash, by dsimp only; linarith, hunits, by dsimp only; linarith,
      by dsimp only; linarith⟩
  | @mint a u hu h =>
    have ha : 0 ≤ a := le_trans (mul_nonneg hu hprice) h
    have hsplit : (s.units + u) * s.price = s.units * s.price + u * s.price := by ring
    exact ⟨by dsimp only; linarith, hres, by dsimp only; linarith, hprice, by dsimp only; linarith⟩
  | @burn a u hu ha h =>
    have hsplit : (s.units - u) * s.price = s.units * s.price - u * s.price := by ring
    exact ⟨by dsimp only; linarith, hres, by dsimp only; linarith, hprice, by dsimp only; linarith⟩
  | lend ha =>
    exact ⟨by dsimp only; linarith, hres, hunits, hprice, by dsimp only; linarith⟩
  | settle ha =>
    exact ⟨by dsimp only; linarith, hres, hunits, hprice, by dsimp only; linarith⟩
  | pay ha hr =>
    exact ⟨by dsimp only; linarith, by dsimp only; linarith, hunits, hprice,
      by dsimp only; linarith⟩
  | gift ha =>
    exact ⟨by dsimp only; linarith, hres, hunits, hprice, by dsimp only; linarith⟩

/-- So does every sequence of moves. -/
theorem Solvent.moves {s s' : Sheet K} (hs : Solvent s) (h : Relation.ReflTransGen Move s s') :
    Solvent s' := by
  induction h with
  | refl => exact hs
  | tail _ h ih => exact h.solvent ih

/-- What the lenders' claim exceeds the loans by is there in cash. -/
theorem Solvent.le_cash {s : Sheet K} (hs : Solvent s) {a : K}
    (h : a ≤ s.units * s.price - s.loans) : a ≤ s.cash := by
  have := hs.covered
  have := hs.reserve_nonneg
  linarith

end BalanceSheet

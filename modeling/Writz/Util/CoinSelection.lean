import Mathlib.Algebra.BigOperators.Group.List.Basic
import Mathlib.Algebra.Order.BigOperators.Group.List
import Mathlib.Algebra.Order.Field.Rat
import Mathlib.Data.List.Perm.Subperm
import Mathlib.Tactic.Linarith

/-!
# Coins that cover an amount and their own fee

The fee of a payment grows with the number of coins it spends, so more coins may cover less. Of each number
of coins the largest bring the most: what any coins cover, the first ones of a descending list cover.
-/

namespace CoinSelection

/-! ## The fee of a size -/

/-- The fee of a size at a rate, rounded up. -/
def feeAt (rate : ℚ) (size : ℕ) : ℤ := (size * rate).ceil

section Fee

variable {rate : ℚ} {size size' : ℕ}

theorem le_feeAt : (size : ℚ) * rate ≤ feeAt rate size := Rat.le_ceil

theorem feeAt_le_iff {fee : ℤ} : feeAt rate size ≤ fee ↔ (size : ℚ) * rate ≤ fee := Rat.ceil_le_iff

theorem feeAt_mono (hrate : 0 ≤ rate) (h : size ≤ size') : feeAt rate size ≤ feeAt rate size' := by
  have hcast : (size : ℚ) ≤ size' := by exact_mod_cast h
  have hmul : (size : ℚ) * rate ≤ size' * rate := mul_le_mul_of_nonneg_right hcast hrate
  exact feeAt_le_iff.mpr (hmul.trans le_feeAt)

theorem feeAt_nonneg (hrate : 0 ≤ rate) : 0 ≤ feeAt rate size := by
  have hzero : feeAt rate 0 = 0 := by
    rw [feeAt, Nat.cast_zero, zero_mul]
    rfl
  rw [← hzero]
  exact feeAt_mono hrate (Nat.zero_le size)

/-- Two sizes together cost no more than apart. -/
theorem feeAt_add_le : feeAt rate (size + size') ≤ feeAt rate size + feeAt rate size' := by
  have h : (size : ℚ) * rate ≤ feeAt rate size := le_feeAt
  have h' : (size' : ℚ) * rate ≤ feeAt rate size' := le_feeAt
  refine feeAt_le_iff.mpr ?_
  push_cast
  rw [add_mul]
  exact add_le_add h h'

end Fee

/-! ## Coins -/

section Coins

variable {α : Type*} {value : α → ℕ} {fee : ℕ → ℤ} {amount : ℤ} {coins all : List α}

/-- What coins are worth. -/
def total (value : α → ℕ) (coins : List α) : ℕ := (coins.map value).sum

/-- Coins cover an amount and the fee of spending them. -/
def Covers (value : α → ℕ) (fee : ℕ → ℤ) (amount : ℤ) (coins : List α) : Prop :=
  amount + fee coins.length ≤ total value coins

instance (coins : List α) : Decidable (Covers value fee amount coins) :=
  inferInstanceAs (Decidable (_ ≤ _))

theorem total_append (coins coins' : List α) :
    total value (coins ++ coins') = total value coins + total value coins' := by
  rw [total, List.map_append, List.sum_append, total, total]

theorem total_singleton (coin : α) : total value [coin] = value coin := by
  rw [total, List.map_singleton, List.sum_singleton]

/-- Where a fee is lower, what covers the amount still does. -/
theorem Covers.mono {fee' : ℕ → ℤ} (h : Covers value fee amount coins)
    (hfee : fee' coins.length ≤ fee coins.length) : Covers value fee' amount coins := by
  unfold Covers at h ⊢
  omega

/-- Of a descending list the first coins bring the most for their number. -/
theorem total_le_total_take (hdesc : all.Pairwise fun a b => value b ≤ value a) (hsub : coins.Sublist all) :
    total value coins ≤ total value (all.take coins.length) := by
  induction hsub with
  | slnil => exact le_rfl
  | @cons coins all coin hsub ih =>
    -- the skipped coin is worth at least the last of the first ones
    obtain ⟨hcoin, hdesc⟩ := List.pairwise_cons.mp hdesc
    refine (ih hdesc).trans ?_
    rcases Nat.eq_zero_or_pos coins.length with hzero | hpos
    · rw [hzero, List.take_zero, List.take_zero]
    · obtain ⟨k, hk⟩ := Nat.exists_eq_add_of_lt hpos
      have hlast : all.take (k + 1) = all.take k ++ all[k]?.toList := List.take_add_one
      rw [show coins.length = k + 1 by omega, List.take_succ_cons, hlast, total_append,
        ← List.singleton_append, total_append, total_singleton, Nat.add_comm]
      refine Nat.add_le_add_right ?_ _
      cases hget : all[k]? with
      | none => exact Nat.zero_le _
      | some last =>
        change total value [last] ≤ _
        rw [total_singleton]
        exact hcoin last (List.mem_of_getElem? hget)
  | @cons_cons coins all coin hsub ih =>
    obtain ⟨-, hdesc⟩ := List.pairwise_cons.mp hdesc
    rw [List.length_cons, List.take_succ_cons, ← List.singleton_append, total_append,
      ← List.singleton_append, total_append]
    exact Nat.add_le_add_left (ih hdesc) _

theorem total_of_perm {coins' : List α} (h : coins.Perm coins') : total value coins = total value coins' :=
  (h.map value).sum_eq

/-- Some coins cover the amount exactly where some of the first ones do. -/
theorem exists_covers_iff (hdesc : all.Pairwise fun a b => value b ≤ value a) :
    (∃ coins, coins.Subperm all ∧ Covers value fee amount coins) ↔
      ∃ coins, coins <+: all ∧ Covers value fee amount coins := by
  constructor
  · rintro ⟨coins, ⟨coins', hperm, hsub⟩, hcovers⟩
    refine ⟨all.take coins'.length, List.take_prefix _ _, ?_⟩
    have hlength : (all.take coins'.length).length = coins.length := by
      rw [List.length_take, Nat.min_eq_left hsub.length_le, hperm.length_eq]
    have hle : total value coins' ≤ total value (all.take coins'.length) := total_le_total_take hdesc hsub
    rw [total_of_perm hperm] at hle
    unfold Covers at hcovers ⊢
    rw [hlength]
    omega
  · rintro ⟨coins, hprefix, hcovers⟩
    exact ⟨coins, hprefix.sublist.subperm, hcovers⟩

end Coins

end CoinSelection

import Mathlib.Tactic.FieldSimp
import Mathlib.Tactic.Linarith
import Mathlib.Tactic.Positivity
import Mathlib.Tactic.Ring
import Mathlib.Algebra.Order.Field.Basic
import Mathlib.Data.Rat.Cast.Order

/-!
# Debts measured in units of an index

A debt `d` stored at index `i` is `d / i` units; growing it to another index keeps its units, up to
the rounding of the grown amount. The lemmas bound what one floor can do to the units.
-/

namespace IndexedDebt

/-- The units of an amount stored at an index. -/
def units (d i : ℤ) : ℚ := d / i

/-- A floored quotient is within one of the quotient. -/
theorem tdiv_mem {x k : ℤ} (hx : 0 ≤ x) (hk : 0 < k) :
    ((x.tdiv k : ℤ) : ℚ) ≤ x / k ∧ (x : ℚ) / k < (x.tdiv k : ℤ) + 1 := by
  have hk' : (0 : ℚ) < k := by exact_mod_cast hk
  constructor
  · rw [le_div_iff₀ hk']
    have h := Int.mul_tdiv_self_le (k := k) hx
    rw [mul_comm] at h
    exact_mod_cast h
  · rw [div_lt_iff₀ hk']
    exact_mod_cast Int.lt_tdiv_add_one_mul_self x hk

/-- An amount grown from one index to another in one floored step loses less than one part of the
index it is grown to. -/
theorem units_grow {d i j : ℤ} (hd : 0 ≤ d) (hi : 0 < i) (hj : 0 < j) :
    units ((d * j).tdiv i) j ≤ units d i ∧ units d i < units ((d * j).tdiv i) j + 1 / j := by
  have hi' : (0 : ℚ) < i := by exact_mod_cast hi
  have hj' : (0 : ℚ) < j := by exact_mod_cast hj
  obtain ⟨hle, hlt⟩ := tdiv_mem (Int.mul_nonneg hd hj.le) hi
  have hunits : units d i = ((d * j : ℤ) : ℚ) / i / j := by
    push_cast
    unfold units
    field_simp
  rw [hunits, units, ← add_div]
  exact ⟨div_le_div_of_nonneg_right hle hj'.le, div_lt_div_of_pos_right hlt hj'⟩

/-- An amount grown by a floored increment, as the index it is kept at grows. -/
theorem units_accrue {t i j : ℤ} (ht : 0 ≤ t) (hi : 0 < i) (hij : i ≤ j) :
    units (t + (t * (j - i)).tdiv i) j ≤ units t i ∧
      units t i < units (t + (t * (j - i)).tdiv i) j + 1 / j := by
  have hi' : (0 : ℚ) < i := by exact_mod_cast hi
  have hj' : (0 : ℚ) < j := by exact_mod_cast hi.trans_le hij
  obtain ⟨hle, hlt⟩ := tdiv_mem (Int.mul_nonneg ht (sub_nonneg.mpr hij)) hi
  have hunits : units t i = (t + ((t * (j - i) : ℤ) : ℚ) / i) / j := by
    push_cast
    unfold units
    field_simp
    ring
  rw [hunits, units, ← add_div]
  push_cast at hle hlt ⊢
  exact ⟨div_le_div_of_nonneg_right (by linarith) hj'.le,
    div_lt_div_of_pos_right (by linarith) hj'⟩

theorem units_add (d e i : ℤ) : units (d + e) i = units d i + units e i := by
  simp only [units]
  push_cast
  rw [add_div]

theorem units_sub (d e i : ℤ) : units (d - e) i = units d i - units e i := by
  simp only [units]
  push_cast
  rw [sub_div]

@[simp] theorem units_zero (i : ℤ) : units 0 i = 0 := by simp [units]

/-- Units times the index are the amount at that index. -/
theorem units_mul {d i : ℤ} (hi : 0 < i) : units d i * i = d := by
  have hi' : (i : ℚ) ≠ 0 := by exact_mod_cast hi.ne'
  rw [units, div_mul_cancel₀ _ hi']

end IndexedDebt

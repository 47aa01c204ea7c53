import Mathlib.Data.Finmap
import Mathlib.Algebra.Order.BigOperators.Group.List
import Mathlib.Algebra.BigOperators.Group.Multiset.Basic
import Mathlib.Algebra.Order.BigOperators.Group.Multiset
import Mathlib.Algebra.BigOperators.Ring.Multiset

/-!
# Keyed stores with totals

A `Store κ ν` is a finite map from keys to values, with Mathlib's `Finmap.lookup` and
`Finmap.insert`. `Store.sum f` adds `f` up over the stored values; `sum_insert` says how one write
moves such a total.
-/

/-- A finite map from keys to values. -/
abbrev Store (κ ν : Type) := Finmap fun _ : κ => ν

namespace Store

variable {κ ν : Type} {M : Type}

/-- The total of `f` over the stored values. -/
def sum [AddCommMonoid M] (f : ν → M) (s : Store κ ν) : M := (s.entries.map fun e => f e.2).sum

@[simp] theorem sum_empty [AddCommMonoid M] (f : ν → M) : sum f (∅ : Store κ ν) = 0 := rfl

/-- A factor common to all values. -/
theorem sum_mul_left [NonUnitalNonAssocSemiring M] (c : M) (f : ν → M) (s : Store κ ν) :
    sum (fun v => c * f v) s = c * sum f s :=
  Multiset.sum_map_mul_left

variable [DecidableEq κ]

/-- Reading after a write. -/
theorem lookup_insert_eq_ite (s : Store κ ν) (k k' : κ) (v : ν) :
    (s.insert k v).lookup k' = if k' = k then some v else s.lookup k' := by
  split_ifs with h
  · subst h; exact Finmap.lookup_insert s
  · exact Finmap.lookup_insert_of_ne s h

section Sum

variable [AddCommMonoid M] (f : ν → M)

/-- Taking one key out of an association list takes its value out of the total. -/
theorem sum_kerase (k : κ) (l : List (Σ _ : κ, ν)) :
    ((l.kerase k).map fun e => f e.2).sum + (l.dlookup k).elim 0 f
      = (l.map fun e => f e.2).sum := by
  induction l with
  | nil => simp
  | cons e l ih =>
    by_cases h : k = e.1
    · obtain ⟨k', v⟩ := e
      obtain rfl : k = k' := h
      simp [add_comm]
    · rw [List.kerase_cons_ne h, List.dlookup_cons_ne _ _ h, List.map_cons, List.map_cons,
        List.sum_cons, List.sum_cons, add_assoc, ih]

/-- A write replaces the old value of its key, if any, by the new one in every total. -/
theorem sum_insert (s : Store κ ν) (k : κ) (v : ν) :
    sum f (s.insert k v) + (s.lookup k).elim 0 f = sum f s + f v := by
  induction s using Finmap.induction_on with
  | H a =>
    have h := sum_kerase f k a.entries
    rw [Finmap.insert_toFinmap, Finmap.lookup_toFinmap]
    simp only [sum, AList.toFinmap_entries, AList.entries_insert, AList.lookup, Multiset.map_coe,
      Multiset.sum_coe, List.map_cons, List.sum_cons]
    rw [add_assoc, h, add_comm]

/-- Writing a new key adds its value to every total. -/
theorem sum_insert_new {s : Store κ ν} {k : κ} (h : s.lookup k = none) (v : ν) :
    sum f (s.insert k v) = sum f s + f v := by
  simpa [h] using sum_insert f s k v

end Sum

section Order

variable [AddCommMonoid M] [PartialOrder M] [IsOrderedAddMonoid M] {f : ν → M}

/-- A stored value is at most the total, when no value is negative. -/
theorem le_sum {s : Store κ ν} {k : κ} {v : ν} (hk : s.lookup k = some v)
    (h : ∀ k v, s.lookup k = some v → 0 ≤ f v) : f v ≤ sum f s := by
  refine Multiset.single_le_sum (fun x hx => ?_) _ (Multiset.mem_map.mpr ⟨⟨k, v⟩, ?_, rfl⟩)
  · obtain ⟨e, he, rfl⟩ := Multiset.mem_map.mp hx
    exact h e.1 e.2 (Finmap.lookup_eq_some_iff.mpr he)
  · exact Finmap.lookup_eq_some_iff.mp hk

/-- A total of nothing negative is not negative. -/
theorem sum_nonneg {s : Store κ ν} (h : ∀ k v, s.lookup k = some v → 0 ≤ f v) :
    0 ≤ sum f s := by
  refine Multiset.sum_nonneg fun x hx => ?_
  obtain ⟨e, he, rfl⟩ := Multiset.mem_map.mp hx
  exact h e.1 e.2 (Finmap.lookup_eq_some_iff.mpr he)

/-- A total is monotone in the values. -/
theorem sum_le_sum {g : ν → M} {s : Store κ ν} (h : ∀ k v, s.lookup k = some v → f v ≤ g v) :
    sum f s ≤ sum g s :=
  Multiset.sum_map_le_sum_map _ _ fun e he => h e.1 e.2 (Finmap.lookup_eq_some_iff.mpr he)

end Order

/-- A total of values that are all zero is zero. -/
theorem sum_eq_zero [AddCommMonoid M] {f : ν → M} {s : Store κ ν}
    (h : ∀ k v, s.lookup k = some v → f v = 0) : sum f s = 0 := by
  refine Multiset.sum_eq_zero fun x hx => ?_
  obtain ⟨e, he, rfl⟩ := Multiset.mem_map.mp hx
  exact h e.1 e.2 (Finmap.lookup_eq_some_iff.mpr he)

end Store

import Mathlib.Logic.Basic
import Mathlib.Tactic.SplitIfs

/-!
# A shared registry of keys

Any number of holders keep entries under keys, and one registry, shared by all of them, keeps the keys
that have been consumed. A key is consumed once, with or without an entry; an entry is made only with
its key, and changed only while it is not final. Then no key has entries at two holders, and what is
consumed, held or final stays so.
-/

/-- Which keys are consumed, and what each holder holds under a key. -/
structure Registry (κ ι ν : Type) where
  /-- The keys consumed. -/
  consumed : κ → Prop
  /-- The entry of a holder under a key. -/
  held : ι → κ → Option ν

namespace Registry

variable {κ ι ν : Type}

open Classical in
/-- The registry with one entry written. -/
noncomputable def write (r : Registry κ ι ν) (i : ι) (k : κ) (v : ν) : Registry κ ι ν :=
  { r with held := fun j l => if j = i ∧ l = k then some v else r.held j l }

/-- The registry with one more key consumed. -/
def consume (r : Registry κ ι ν) (k : κ) : Registry κ ι ν :=
  { r with consumed := fun l => l = k ∨ r.consumed l }

/-- One change of the registry. -/
inductive Change (final : ν → Prop) (r : Registry κ ι ν) : Registry κ ι ν → Prop where
  /-- Nothing changes. -/
  | keep : Change final r r
  /-- A key is consumed for no entry. -/
  | mark {k : κ} (hnew : ¬r.consumed k) : Change final r (r.consume k)
  /-- A key is consumed for an entry. -/
  | enter {i : ι} {k : κ} {v : ν} (hnew : ¬r.consumed k) : Change final r ((r.consume k).write i k v)
  /-- An entry that is not final changes. -/
  | update {i : ι} {k : κ} {v v' : ν} (hv : r.held i k = some v) (hopen : ¬final v) :
      Change final r (r.write i k v')

/-- Every entry's key is consumed, and no key has entries at two holders. -/
structure Exclusive (r : Registry κ ι ν) : Prop where
  held_consumed : ∀ i k v, r.held i k = some v → r.consumed k
  unique : ∀ i j k v w, r.held i k = some v → r.held j k = some w → i = j

/-- What is consumed, held or final in `r` is so in `r'`. -/
structure Persists (final : ν → Prop) (r r' : Registry κ ι ν) : Prop where
  consumed : ∀ k, r.consumed k → r'.consumed k
  held : ∀ i k v, r.held i k = some v → ∃ v', r'.held i k = some v' ∧ (final v → v' = v)

variable {final : ν → Prop} {r r' r'' : Registry κ ι ν}

theorem held_write {i j : ι} {k l : κ} {v w : ν} (h : (r.write i k v).held j l = some w) :
    (j = i ∧ l = k ∧ w = v) ∨ ((j ≠ i ∨ l ≠ k) ∧ r.held j l = some w) := by
  unfold write at h
  dsimp only at h
  split_ifs at h with hjl
  · exact .inl ⟨hjl.1, hjl.2, (Option.some.inj h).symm⟩
  · exact .inr ⟨not_and_or.mp hjl, h⟩

theorem held_write_of_ne {i j : ι} {k l : κ} {v : ν} (h : j ≠ i ∨ l ≠ k) :
    (r.write i k v).held j l = r.held j l :=
  if_neg (not_and_or.mpr h)

theorem held_write_self (i : ι) (k : κ) (v : ν) : (r.write i k v).held i k = some v :=
  if_pos ⟨rfl, rfl⟩

/-- A change keeps the entries exclusive. -/
theorem Change.exclusive (h : Change final r r') (he : Exclusive r) : Exclusive r' := by
  cases h with
  | keep => exact he
  | mark hnew => exact ⟨fun i k v hv => .inr (he.held_consumed i k v hv), he.unique⟩
  | @enter i k v hnew =>
    -- nobody holds the new key
    have hfree : ∀ j w, r.held j k ≠ some w := fun j w hw => hnew (he.held_consumed j k w hw)
    refine ⟨fun j l w hw => ?_, fun j₁ j₂ l w₁ w₂ h₁ h₂ => ?_⟩
    · rcases held_write hw with ⟨-, rfl, -⟩ | ⟨-, hw⟩
      · exact .inl rfl
      · exact .inr (he.held_consumed j l w hw)
    · rcases held_write h₁ with ⟨hi₁, hl₁, -⟩ | ⟨-, hold₁⟩ <;>
        rcases held_write h₂ with ⟨hi₂, hl₂, -⟩ | ⟨-, hold₂⟩
      · exact hi₁.trans hi₂.symm
      · exact absurd (hl₁ ▸ hold₂) (hfree _ _)
      · exact absurd (hl₂ ▸ hold₁) (hfree _ _)
      · exact he.unique _ _ _ _ _ hold₁ hold₂
  | @update i k v v' hv hopen =>
    -- an entry is where one was
    have hold : ∀ j l w, (r.write i k v').held j l = some w → ∃ w', r.held j l = some w' := by
      intro j l w hw
      rcases held_write hw with ⟨rfl, rfl, -⟩ | ⟨-, hw⟩
      · exact ⟨v, hv⟩
      · exact ⟨w, hw⟩
    refine ⟨fun j l w hw => ?_, fun j₁ j₂ l w₁ w₂ h₁ h₂ => ?_⟩
    · obtain ⟨w', hw'⟩ := hold j l w hw
      exact he.held_consumed j l w' hw'
    · obtain ⟨w₁', h₁⟩ := hold _ _ _ h₁
      obtain ⟨w₂', h₂⟩ := hold _ _ _ h₂
      exact he.unique _ _ _ _ _ h₁ h₂

theorem Persists.refl (r : Registry κ ι ν) : Persists final r r :=
  ⟨fun _ h => h, fun _ _ v hv => ⟨v, hv, fun _ => rfl⟩⟩

theorem Persists.trans (h : Persists final r r') (h' : Persists final r' r'') :
    Persists final r r'' := by
  refine ⟨fun k hk => h'.consumed k (h.consumed k hk), fun i k v hv => ?_⟩
  obtain ⟨v', hv', hfinal⟩ := h.held i k v hv
  obtain ⟨v'', hv'', hfinal'⟩ := h'.held i k v' hv'
  refine ⟨v'', hv'', fun hf => ?_⟩
  obtain rfl := hfinal hf
  exact hfinal' hf

/-- A change keeps what is consumed, held or final. -/
theorem Change.persists (h : Change final r r') (he : Exclusive r) : Persists final r r' := by
  cases h with
  | keep => exact .refl r
  | mark hnew => exact ⟨fun k hk => .inr hk, fun _ _ v hv => ⟨v, hv, fun _ => rfl⟩⟩
  | @enter i k v hnew =>
    refine ⟨fun k hk => .inr hk, fun j l w hw => ⟨w, ?_, fun _ => rfl⟩⟩
    rw [held_write_of_ne]
    · exact hw
    · right
      rintro rfl
      exact hnew (he.held_consumed j l w hw)
  | @update i k v v' hv hopen =>
    refine ⟨fun k hk => hk, fun j l w hw => ?_⟩
    by_cases hjl : j = i ∧ l = k
    · obtain ⟨rfl, rfl⟩ := hjl
      obtain rfl : v = w := Option.some.inj (hv.symm.trans hw)
      exact ⟨v', held_write_self _ _ _, fun hf => absurd hf hopen⟩
    · exact ⟨w, by rw [held_write_of_ne (not_and_or.mp hjl)]; exact hw, fun _ => rfl⟩

end Registry

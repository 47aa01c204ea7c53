import Mathlib.Data.List.Basic

/-!
# Positions in a list

`Located l i a` says that `a` stands at position `i` of `l`. What stands in a row at a position stands
there piece by piece, so that a parser over positions is followed along what was written.
-/

/-- `a` stands at position `i` of `l`. -/
def Located {α : Type*} (l : List α) (i : Nat) (a : List α) : Prop :=
  ∃ before after, l = before ++ (a ++ after) ∧ before.length = i

namespace Located

variable {α : Type*} {l a b : List α} {i : Nat}

theorem of_eq (h : l = a) : Located l 0 a := ⟨[], [], by simp [h], rfl⟩

theorem left (h : Located l i (a ++ b)) : Located l i a := by
  obtain ⟨before, after, rfl, hi⟩ := h
  exact ⟨before, b ++ after, by rw [List.append_assoc], hi⟩

theorem right (h : Located l i (a ++ b)) : Located l (i + a.length) b := by
  obtain ⟨before, after, rfl, hi⟩ := h
  refine ⟨before ++ a, after, by simp only [List.append_assoc], ?_⟩
  rw [List.length_append, hi]

/-- What follows pieces of a known length. -/
theorem right' {k : Nat} (h : Located l i (a ++ b)) (hk : a.length = k) : Located l (i + k) b :=
  hk ▸ h.right

theorem le_length (h : Located l i a) : i + a.length ≤ l.length := by
  obtain ⟨before, after, rfl, hi⟩ := h
  rw [List.length_append, List.length_append, hi]
  omega

theorem take_drop (h : Located l i a) : (l.drop i).take a.length = a := by
  obtain ⟨before, after, rfl, hi⟩ := h
  rw [List.drop_left' hi, List.take_left]

theorem drop_eq (h : Located l i a) : l.drop i = a ++ l.drop (i + a.length) := by
  obtain ⟨before, after, rfl, hi⟩ := h
  rw [← List.drop_drop, List.drop_left' hi, List.drop_left]

theorem getElem? {x : α} {xs : List α} (h : Located l i (x :: xs)) : l[i]? = some x := by
  obtain ⟨before, after, rfl, hi⟩ := h
  rw [← hi, List.getElem?_append_right (Nat.le_refl _), Nat.sub_self]
  rfl

theorem tail {x : α} {xs : List α} (h : Located l i (x :: xs)) : Located l (i + 1) xs :=
  @right α l [x] xs i h

end Located

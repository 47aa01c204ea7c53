import Mathlib.Computability.RegularExpressions

/-!
# Regular expressions over classes of characters

What the common forms match: a class, a run of a class with or without a length, an optional part and a
repetition.
-/

namespace RegularExpression

variable {α : Type*} [DecidableEq α] {P : RegularExpression α} {cs v : List α}

/-- One of the characters. -/
def anyOf (cs : List α) : RegularExpression α := (cs.map char).foldr (· + ·) 0

/-- `r?`. -/
def optional (P : RegularExpression α) : RegularExpression α := 1 + P

/-- `r+`. -/
def oneOrMore (P : RegularExpression α) : RegularExpression α := P * P.star

theorem anyOf_rmatch_iff : (anyOf cs).rmatch v ↔ ∃ c ∈ cs, v = [c] := by
  induction cs with
  | nil => simp [anyOf]
  | cons c cs ih =>
    have hstep : (anyOf (c :: cs)).rmatch v ↔ v = [c] ∨ (anyOf cs).rmatch v := by
      change (char c + anyOf cs).rmatch v ↔ _
      rw [add_rmatch_iff, char_rmatch_iff]
    rw [hstep, ih]
    simp

theorem optional_rmatch_iff : (optional P).rmatch v ↔ v = [] ∨ P.rmatch v := by
  rw [optional, add_rmatch_iff, one_rmatch_iff]

theorem oneOrMore_rmatch_iff :
    (oneOrMore P).rmatch v ↔ ∃ parts : List (List α), parts ≠ [] ∧ v = parts.flatten ∧ ∀ p ∈ parts, P.rmatch p := by
  have hstar : ∀ u, P.star.rmatch u ↔ ∃ parts : List (List α), u = parts.flatten ∧ ∀ p ∈ parts, P.rmatch p := by
    intro u
    rw [rmatch_iff_matches', matches'_star, Language.mem_kstar]
    simp only [rmatch_iff_matches']
  rw [oneOrMore, mul_rmatch_iff]
  constructor
  · rintro ⟨t, u, rfl, ht, hu⟩
    obtain ⟨parts, rfl, hparts⟩ := (hstar u).mp hu
    exact ⟨t :: parts, List.cons_ne_nil _ _, rfl, List.forall_mem_cons.mpr ⟨ht, hparts⟩⟩
  · rintro ⟨parts, hne, rfl, hparts⟩
    cases parts with
    | nil => exact absurd rfl hne
    | cons t parts =>
      obtain ⟨ht, hrest⟩ := List.forall_mem_cons.mp hparts
      exact ⟨t, parts.flatten, rfl, ht, (hstar _).mpr ⟨parts, rfl, hrest⟩⟩

theorem anyOf_star_rmatch_iff : (anyOf cs).star.rmatch v ↔ ∀ c ∈ v, c ∈ cs := by
  rw [star_rmatch_iff]
  constructor
  · rintro ⟨parts, rfl, hparts⟩ c hc
    obtain ⟨p, hp, hcp⟩ := List.mem_flatten.mp hc
    obtain ⟨d, hd, rfl⟩ := anyOf_rmatch_iff.mp (hparts p hp).2
    rwa [List.mem_singleton.mp hcp]
  · intro h
    refine ⟨v.map fun c => [c], ?_, fun p hp => ?_⟩
    · induction v with
      | nil => rfl
      | cons c v ih =>
        rw [List.map_cons, List.flatten_cons, ← ih fun d hd => h d (List.mem_cons_of_mem _ hd)]
        rfl
    · obtain ⟨c, hc, rfl⟩ := List.mem_map.mp hp
      exact ⟨List.cons_ne_nil _ _, anyOf_rmatch_iff.mpr ⟨c, h c hc, rfl⟩⟩

theorem anyOf_pow_rmatch_iff (k : Nat) : (anyOf cs ^ k).rmatch v ↔ v.length = k ∧ ∀ c ∈ v, c ∈ cs := by
  induction k generalizing v with
  | zero =>
    change rmatch 1 v ↔ _
    rw [one_rmatch_iff, List.length_eq_zero_iff]
    constructor
    · rintro rfl
      exact ⟨rfl, fun c hc => by cases hc⟩
    · exact fun h => h.1
  | succ k ih =>
    change (anyOf cs ^ k * anyOf cs).rmatch v ↔ _
    rw [mul_rmatch_iff]
    constructor
    · rintro ⟨t, u, rfl, ht, hu⟩
      obtain ⟨c, hc, rfl⟩ := anyOf_rmatch_iff.mp hu
      obtain ⟨hlen, hmem⟩ := ih.mp ht
      refine ⟨by rw [List.length_append, hlen, List.length_singleton], fun d hd => ?_⟩
      rcases List.mem_append.mp hd with hd | hd
      · exact hmem d hd
      · rwa [List.mem_singleton.mp hd]
    · rintro ⟨hlen, hmem⟩
      have hne : v ≠ [] := List.ne_nil_of_length_eq_add_one hlen
      refine ⟨v.dropLast, [v.getLast hne], (List.dropLast_append_getLast hne).symm, ih.mpr ⟨?_, fun c hc => ?_⟩, ?_⟩
      · rw [List.length_dropLast, hlen, Nat.add_sub_cancel]
      · exact hmem c (List.mem_of_mem_dropLast hc)
      · exact anyOf_rmatch_iff.mpr ⟨_, hmem _ (List.getLast_mem hne), rfl⟩

end RegularExpression

import Writz.Node.Digits

/-!
# Grouped digits

`toLocaleString("en-US")` of a `bigint`: the digits in threes from the right, with commas between.
-/

namespace Writz.Node

/-- Commas after every three of the digits, which come from the right. -/
def groupFromRight : Text → Text
  | a :: b :: c :: d :: rest => a :: b :: c :: ',' :: groupFromRight (d :: rest)
  | ds => ds

def groupDigits (ds : Text) : Text := (groupFromRight ds.reverse).reverse

/-- `n.toLocaleString("en-US")` of a `bigint`. -/
def toLocaleString : Int → Text
  | .ofNat n => groupDigits (Nat.toDigits 10 n)
  | .negSucc n => '-' :: groupDigits (Nat.toDigits 10 (n + 1))

/-- Groups, each after its comma. -/
def commaGroups (groups : List Text) : Text := (groups.map (',' :: ·)).flatten

/-- One to three digits, and groups of three. -/
structure IsGrouped (head : Text) (groups : List Text) : Prop where
  head_digits : ∀ c ∈ head, c.isDigit = true
  head_pos : 1 ≤ head.length
  head_le : head.length ≤ 3
  groups_digits : ∀ g ∈ groups, g.length = 3 ∧ ∀ c ∈ g, c.isDigit = true

theorem commaGroups_append (gs hs : List Text) : commaGroups (gs ++ hs) = commaGroups gs ++ commaGroups hs := by
  rw [commaGroups, List.map_append, List.flatten_append]
  rfl

theorem filter_groupFromRight (ds : Text) (h : ',' ∉ ds) : (groupFromRight ds).filter (· ≠ ',') = ds := by
  induction ds using groupFromRight.induct with
  | case1 a b c d rest ih =>
    have hrest : ',' ∉ d :: rest := fun hmem => h (by simp [List.mem_cons.mp hmem])
    have ha : a ≠ ',' := fun he => h (by simp [he])
    have hb : b ≠ ',' := fun he => h (by simp [he])
    have hc : c ≠ ',' := fun he => h (by simp [he])
    rw [groupFromRight, List.filter_cons_of_pos (by simpa using ha), List.filter_cons_of_pos (by simpa using hb),
      List.filter_cons_of_pos (by simpa using hc), List.filter_cons_of_neg (by simp), ih hrest]
  | case2 ds hds =>
    rw [groupFromRight.eq_2 ds hds]
    refine List.filter_eq_self.mpr fun c hc => ?_
    have hne : c ≠ ',' := fun he => h (he ▸ hc)
    simpa using hne

/-- The digits are left when the commas are taken out. -/
theorem filter_groupDigits {ds : Text} (h : ∀ c ∈ ds, c.isDigit = true) :
    (groupDigits ds).filter (· ≠ ',') = ds := by
  have hcomma : ',' ∉ ds.reverse := by
    intro hmem
    have := h ',' (List.mem_reverse.mp hmem)
    revert this
    decide
  rw [groupDigits, List.filter_reverse, filter_groupFromRight _ hcomma, List.reverse_reverse]

/-- Grouped digits are grouped. -/
theorem exists_isGrouped {ds : Text} (h : ∀ c ∈ ds, c.isDigit = true) (hne : ds ≠ []) :
    ∃ head groups, groupDigits ds = head ++ commaGroups groups ∧ IsGrouped head groups := by
  obtain ⟨rs, rfl⟩ : ∃ rs : Text, ds = rs.reverse := ⟨ds.reverse, ds.reverse_reverse.symm⟩
  rw [groupDigits, List.reverse_reverse]
  have hdigits : ∀ c ∈ rs, c.isDigit = true := fun c hc => h c (List.mem_reverse.mpr hc)
  have hne' : rs ≠ [] := fun he => hne (by rw [he]; rfl)
  clear h hne
  induction rs using groupFromRight.induct with
  | case1 a b c d rest ih =>
    obtain ⟨head, groups, heq, hgrouped⟩ :=
      ih (fun x hx => hdigits x (List.mem_cons_of_mem _ (List.mem_cons_of_mem _ (List.mem_cons_of_mem _ hx))))
        (List.cons_ne_nil _ _)
    refine ⟨head, groups ++ [[c, b, a]], ?_, ?_⟩
    · rw [groupFromRight, commaGroups_append, ← List.append_assoc, ← heq]
      simp [commaGroups]
    · refine ⟨hgrouped.head_digits, hgrouped.head_pos, hgrouped.head_le, fun g hg => ?_⟩
      rcases List.mem_append.mp hg with hg | hg
      · exact hgrouped.groups_digits g hg
      · rw [List.mem_singleton.mp hg]
        refine ⟨rfl, fun x hx => hdigits x ?_⟩
        simp only [List.mem_cons, List.not_mem_nil, or_false] at hx ⊢
        tauto
  | case2 rs hshort =>
    refine ⟨rs.reverse, [], ?_, ?_⟩
    · rw [groupFromRight.eq_2 rs hshort, commaGroups, List.map_nil, List.flatten_nil, List.append_nil]
    · refine ⟨fun c hc => hdigits c (List.mem_reverse.mp hc), ?_, ?_, fun g hg => by cases hg⟩
      · rw [List.length_reverse]
        exact List.length_pos_iff.mpr hne'
      · rw [List.length_reverse]
        match rs, hshort with
        | [], _ | [_], _ | [_, _], _ | [_, _, _], _ => simp
        | a :: b :: c :: d :: rest, hshort => exact absurd rfl (hshort a b c d rest)

/-- The digits of a number, grouped. -/
theorem toLocaleString_natCast (n : Nat) : toLocaleString n = groupDigits (Nat.toDigits 10 n) := rfl

end Writz.Node

import Mathlib.Data.List.Basic
import Mathlib.Logic.Function.Basic

/-!
# Lists in the order of their last use

A list of keys and values, the least recently used one first. Uses are counted; `lastUse k` is the number of the
last use of a key.
-/

/-- The keys are in the order of their last use, before use `now`. -/
structure IsRecency {κ ν : Type*} (lastUse : κ → Nat) (now : Nat) (m : List (κ × ν)) : Prop where
  order : m.Pairwise fun a b => lastUse a.1 < lastUse b.1
  past : ∀ e ∈ m, lastUse e.1 < now

namespace IsRecency

variable {κ ν : Type*} {lastUse : κ → Nat} {now : Nat} {m m' : List (κ × ν)}

theorem nil : IsRecency lastUse now ([] : List (κ × ν)) := ⟨.nil, fun e he => by cases he⟩

theorem sublist (h : IsRecency lastUse now m) (hs : List.Sublist m' m) : IsRecency lastUse now m' :=
  ⟨h.order.sublist hs, fun e he => h.past e (hs.subset he)⟩

theorem later (h : IsRecency lastUse now m) : IsRecency lastUse (now + 1) m :=
  ⟨h.order, fun e he => Nat.lt_succ_of_lt (h.past e he)⟩

/-- A key is there once. -/
theorem unique (h : IsRecency lastUse now m) {k : κ} {v v' : ν} (hv : (k, v) ∈ m) (hv' : (k, v') ∈ m) : v = v' := by
  induction m with
  | nil => cases hv
  | cons e m ih =>
    obtain ⟨hfirst, hrest⟩ := List.pairwise_cons.mp h.order
    rcases List.mem_cons.mp hv with rfl | hv
    · rcases List.mem_cons.mp hv' with heq | hv'
      · exact (congrArg Prod.snd heq).symm
      · exact absurd (hfirst _ hv') (Nat.lt_irrefl _)
    · rcases List.mem_cons.mp hv' with heq | hv'
      · exact absurd (hfirst _ hv) (heq ▸ Nat.lt_irrefl _)
      · exact ih ⟨hrest, fun e he => h.past e (List.mem_cons_of_mem _ he)⟩ hv hv'

/-- What stands before was used before. -/
theorem lt_of_append (h : IsRecency lastUse now (m ++ m')) {a b : κ × ν} (ha : a ∈ m) (hb : b ∈ m') :
    lastUse a.1 < lastUse b.1 :=
  (List.pairwise_append.mp h.order).2.2 a ha b hb

/-- A key that is used goes to the end. -/
theorem touch [DecidableEq κ] (h : IsRecency lastUse now m) (k : κ) (v : ν) :
    IsRecency (Function.update lastUse k now) (now + 1) ((m.filter fun e => e.1 ≠ k) ++ [(k, v)]) := by
  have hother : ∀ e ∈ m.filter (fun e => e.1 ≠ k), Function.update lastUse k now e.1 = lastUse e.1 := by
    intro e he
    have hne : e.1 ≠ k := by simpa using (List.mem_filter.mp he).2
    exact Function.update_of_ne hne ..
  have hself : Function.update lastUse k now k = now := Function.update_self ..
  refine ⟨List.pairwise_append.mpr ⟨?_, List.pairwise_singleton _ _, fun a ha b hb => ?_⟩, fun e he => ?_⟩
  · refine (h.order.sublist List.filter_sublist).imp_of_mem fun ha hb hab => ?_
    rw [hother _ ha, hother _ hb]
    exact hab
  · rw [List.mem_singleton.mp hb, hself, hother a ha]
    exact h.past a (List.mem_of_mem_filter ha)
  · rcases List.mem_append.mp he with he | he
    · rw [hother e he]
      exact Nat.lt_succ_of_lt (h.past e (List.mem_of_mem_filter he))
    · rw [List.mem_singleton.mp he, hself]
      exact Nat.lt_succ_self now

end IsRecency

import Mathlib.Data.List.Perm.Subperm
import Mathlib.Logic.Basic
import Mathlib.Tactic.SplitIfs

/-!
# Maps, as the TypeScript code uses them
-/

namespace Writz.Node

/-- A `Map`: its entries, in the order in which their keys were first set. -/
abbrev JsMap (κ ν : Type) := List (κ × ν)

namespace JsMap

variable {κ ν : Type} [DecidableEq κ]

def get (k : κ) : JsMap κ ν → Option ν
  | [] => none
  | (k', v) :: m => if k' = k then some v else get k m

def set (k : κ) (v : ν) : JsMap κ ν → JsMap κ ν
  | [] => [(k, v)]
  | (k', v') :: m => if k' = k then (k, v) :: m else (k', v') :: set k v m

def delete (k : κ) (m : JsMap κ ν) : JsMap κ ν := m.filter fun e => e.1 ≠ k

def values (m : JsMap κ ν) : List ν := m.map Prod.snd

theorem get_cons (k k' : κ) (v : ν) (m : JsMap κ ν) :
    get k ((k', v) :: m) = if k' = k then some v else get k m := rfl

theorem set_cons (k k' : κ) (v v' : ν) (m : JsMap κ ν) :
    set k v ((k', v') :: m) = if k' = k then (k, v) :: m else (k', v') :: set k v m := rfl

theorem get_set (k k' : κ) (v : ν) (m : JsMap κ ν) :
    get k' (set k v m) = if k = k' then some v else get k' m := by
  induction m with
  | nil => rfl
  | cons e m ih =>
    obtain ⟨k₀, v₀⟩ := e
    rw [set_cons, get_cons]
    by_cases h : k₀ = k
    · subst h
      rw [if_pos rfl, get_cons]
      split_ifs <;> rfl
    · rw [if_neg h, get_cons, ih]
      by_cases h' : k₀ = k'
      · subst h'
        rw [if_pos rfl, if_neg (Ne.symm h), if_pos rfl]
      · rw [if_neg h', if_neg h']

theorem get_delete (k k' : κ) (m : JsMap κ ν) :
    get k' (delete k m) = if k = k' then none else get k' m := by
  induction m with
  | nil => exact (ite_self none).symm
  | cons e m ih =>
    obtain ⟨k₀, v₀⟩ := e
    change get k' (List.filter _ m) = _ at ih
    change get k' (List.filter _ _) = _
    rw [get_cons]
    by_cases h : k₀ = k
    · subst h
      rw [List.filter_cons_of_neg (by simp), ih]
      split_ifs <;> rfl
    · rw [List.filter_cons_of_pos (by simp [h]), get_cons, ih]
      by_cases h' : k₀ = k'
      · subst h'
        rw [if_pos rfl, if_pos rfl, if_neg (Ne.symm h)]
      · rw [if_neg h', if_neg h']

/-- A new key goes to the end. -/
theorem set_of_get_eq_none {k : κ} {v : ν} {m : JsMap κ ν} (h : get k m = none) : set k v m = m ++ [(k, v)] := by
  induction m with
  | nil => rfl
  | cons e m ih =>
    obtain ⟨k', v'⟩ := e
    rw [get_cons] at h
    split_ifs at h with hk
    rw [set_cons, if_neg hk, ih h]
    rfl

/-- The value of a key that is there once. -/
theorem get_of_mem {k : κ} {v : ν} {m : JsMap κ ν} (hmem : (k, v) ∈ m) (hunique : ∀ v', (k, v') ∈ m → v' = v) :
    get k m = some v := by
  induction m with
  | nil => cases hmem
  | cons e m ih =>
    obtain ⟨k', v'⟩ := e
    rw [get_cons]
    by_cases hk : k' = k
    · rw [if_pos hk, hunique v' (by rw [← hk]; exact List.mem_cons_self)]
    · rw [if_neg hk]
      have hmem' : (k, v) ∈ m := by
        rcases List.mem_cons.mp hmem with heq | hmem
        · exact absurd (congrArg Prod.fst heq).symm hk
        · exact hmem
      exact ih hmem' fun v'' hv => hunique v'' (List.mem_cons_of_mem _ hv)

/-- A `set` takes the old value of its key out of a count, and puts the new one in. -/
theorem countP_set (p : ν → Bool) (k : κ) (v : ν) (m : JsMap κ ν) :
    (set k v m).values.countP p + (if (get k m).any p then 1 else 0)
      = m.values.countP p + (if p v then 1 else 0) := by
  induction m with
  | nil =>
    change [v].countP p + 0 = 0 + _
    rw [List.countP_singleton, Nat.add_zero, Nat.zero_add]
  | cons e m ih =>
    obtain ⟨k₀, v₀⟩ := e
    unfold values at ih ⊢
    rw [set_cons, get_cons]
    by_cases h : k₀ = k
    · simp only [if_pos h, List.map_cons, List.countP_cons, Option.any_some]
      omega
    · simp only [if_neg h, List.map_cons, List.countP_cons]
      omega

theorem mem_of_get {k : κ} {v : ν} {m : JsMap κ ν} (h : get k m = some v) : (k, v) ∈ m := by
  induction m with
  | nil => cases h
  | cons e m ih =>
    obtain ⟨k₀, v₀⟩ := e
    rw [get_cons] at h
    split_ifs at h with hk
    · cases h
      rw [hk]
      exact List.mem_cons_self
    · exact List.mem_cons_of_mem _ (ih h)

/-- Keys that are there, each with a value that counts, are at most as many as the values that count. -/
theorem length_le_countP {p : ν → Bool} {ks : List κ} {m : JsMap κ ν} (hnodup : ks.Nodup)
    (h : ∀ k ∈ ks, (get k m).any p = true) : ks.length ≤ m.values.countP p := by
  have hsubset : ks ⊆ (m.filter fun e => p e.2).map Prod.fst := by
    intro k hk
    obtain ⟨v, hget, hp⟩ := (Option.any_eq_true p _).mp (h k hk)
    exact List.mem_map.mpr ⟨(k, v), List.mem_filter.mpr ⟨mem_of_get hget, hp⟩, rfl⟩
  have hle := (hnodup.subperm hsubset).length_le
  rw [List.length_map, ← List.countP_eq_length_filter] at hle
  rw [values, List.countP_map]
  exact hle

end JsMap

end Writz.Node

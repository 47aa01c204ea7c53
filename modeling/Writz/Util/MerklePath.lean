import Mathlib.Algebra.Group.Nat.Defs
import Mathlib.Data.List.Nodup
import Mathlib.Data.Nat.Log
import Writz.Util.MerkleTree

/-!
# Merkle proofs at an index

The bits of a leaf's index say on which side its siblings are. A leaf's own siblings lead it to the
root; and where the strings hashed do not collide, a proof of the tree's depth that leads to the root
starts at the leaf that its index names.
-/

namespace MerkleTree

variable {M α : Type} (hash : M → α) (join : α → α → M)

/-- Messages with different hashes do not collide. -/
theorem collisionFree_of_table {hash : M → α} {table : List (M × α)}
    (hhash : ∀ p ∈ table, hash p.1 = p.2) (hnodup : (table.map Prod.snd).Nodup) :
    CollisionFree hash (table.map Prod.fst) := by
  intro m hm m' hm' heq
  obtain ⟨p, hp, rfl⟩ := List.mem_map.mp hm
  obtain ⟨p', hp', rfl⟩ := List.mem_map.mp hm'
  rw [hhash p hp, hhash p' hp'] at heq
  rw [List.inj_on_of_nodup_map hnodup hp hp' heq]

/-! ## Levels -/

/-- A node joins its children; a last child without a neighbour is joined with itself. -/
theorem getElem?_joins (level : List α) : ∀ p, (joins join level)[p]?
    = level[2 * p]?.map fun a => join a (level[2 * p + 1]?.getD a) := by
  fun_induction joins join level with
  | case1 => intro p; simp
  | case2 a =>
    intro p
    cases p with
    | zero => simp
    | succ p => simp [Nat.mul_succ]
  | case3 a b rest ih =>
    intro p
    cases p with
    | zero => simp
    | succ p =>
      rw [List.getElem?_cons_succ, ih p]
      simp only [Nat.mul_succ, List.getElem?_cons_succ]

theorem getElem?_levelUp (level : List α) (p : Nat) : (levelUp hash join level)[p]?
    = level[2 * p]?.map fun a => hash (join a (level[2 * p + 1]?.getD a)) := by
  rw [levelUp, List.getElem?_map, getElem?_joins, Option.map_map]
  rfl

theorem length_levelUp (level : List α) :
    (levelUp hash join level).length = (level.length + 1) / 2 := by
  rw [levelUp, List.length_map, length_joins]

theorem clog_half {n : Nat} (h : ¬n ≤ 1) : Nat.clog 2 n = Nat.clog 2 ((n + 1) / 2) + 1 :=
  Nat.clog_of_two_le (le_refl 2) (by omega)

/-- The root is the node left after as many levels as its leaves have doublings. -/
theorem rootWithin_eq (n : Nat) : ∀ level : List α, level.length ≤ n + 1 →
    rootWithin hash join n level = ((levelUp hash join)^[Nat.clog 2 level.length] level).head? := by
  induction n with
  | zero =>
    intro level hlen
    rw [rootWithin, if_pos hlen, Nat.clog_of_right_le_one hlen]
    rfl
  | succ n ih =>
    intro level hlen
    rw [rootWithin]
    split_ifs with h1
    · rw [Nat.clog_of_right_le_one h1]
      rfl
    · have hup := length_levelUp hash join level
      rw [ih _ (by omega), hup, clog_half h1, Function.iterate_succ_apply]

/-- The root is alone on its level. -/
theorem length_iterate_levelUp : ∀ (d : Nat) (level : List α), level ≠ [] → level.length ≤ 2 ^ d →
    ((levelUp hash join)^[d] level).length = 1 := by
  intro d
  induction d with
  | zero =>
    intro level hne hlen
    have := List.length_pos_of_ne_nil hne
    rw [Nat.pow_zero] at hlen
    exact le_antisymm hlen this
  | succ d ih =>
    intro level hne hlen
    have hpos := List.length_pos_of_ne_nil hne
    have hup := length_levelUp hash join level
    rw [Function.iterate_succ_apply]
    refine ih _ (List.ne_nil_of_length_pos (by omega)) ?_
    rw [Nat.pow_succ] at hlen
    omega

/-- The joins below the root are among its nodes. -/
theorem joins_subset_nodesWithin (n : Nat) : ∀ level : List α, level.length ≤ n + 1 →
    ∀ j < Nat.clog 2 level.length,
      joins join ((levelUp hash join)^[j] level) ⊆ nodesWithin hash join n level := by
  induction n with
  | zero =>
    intro level hlen j hj
    rw [Nat.clog_of_right_le_one hlen] at hj
    exact absurd hj (Nat.not_lt_zero j)
  | succ n ih =>
    intro level hlen j hj
    rw [nodesWithin]
    split_ifs with h1
    · rw [Nat.clog_of_right_le_one h1] at hj
      exact absurd hj (Nat.not_lt_zero j)
    · have hup := length_levelUp hash join level
      cases j with
      | zero => exact List.subset_append_left _ _
      | succ j =>
        rw [clog_half h1] at hj
        have hbelow := ih (levelUp hash join level) (by omega) j
          (by rw [hup]; exact Nat.lt_of_succ_lt_succ hj)
        rw [Function.iterate_succ_apply]
        exact List.Subset.trans hbelow (List.subset_append_right _ _)

/-! ## The proof of a leaf -/

/-- The node that a node is joined with: its neighbour, or itself where it has none. -/
def sibling (level : List α) (i : Nat) : Option α :=
  if i % 2 = 0 then
    if i + 1 < level.length then level[i + 1]? else level[i]?
  else
    level[i - 1]?

/-- The siblings on the way up from a node, at most `n` levels. -/
def siblingsWithin : Nat → List α → Nat → Option (List α)
  | 0, _, _ => some []
  | n + 1, level, i =>
    if level.length ≤ 1 then
      some []
    else do
      let s ← sibling level i
      let above ← siblingsWithin n (levelUp hash join level) (i / 2)
      some (s :: above)

/-- The siblings on the way from a leaf to the root. -/
def siblings (leaves : List α) (i : Nat) : Option (List α) :=
  siblingsWithin hash join leaves.length leaves i

/-- A proof with the sides its index gives: at an odd index the sibling is on the left. -/
def path : Nat → List α → List (Bool × α)
  | _, [] => []
  | i, s :: proof => (decide (i % 2 = 1), s) :: path (i / 2) proof

variable {hash join}

theorem sibling_isSome {level : List α} {i : Nat} (h : i < level.length) :
    ∃ s, sibling level i = some s := by
  unfold sibling
  split_ifs with heven hlt
  · exact ⟨_, List.getElem?_eq_getElem hlt⟩
  · exact ⟨_, List.getElem?_eq_getElem h⟩
  · exact ⟨_, List.getElem?_eq_getElem (by omega)⟩

/-- The node above a node is the hash of its join with its sibling. -/
theorem levelUp_half {level : List α} {i : Nat} {a s : α} (ha : level[i]? = some a)
    (hs : sibling level i = some s) :
    (levelUp hash join level)[i / 2]? = some (hash (stepJoin join a (decide (i % 2 = 1), s))) := by
  have hi : i < level.length := (List.getElem?_eq_some_iff.mp ha).1
  rw [getElem?_levelUp]
  unfold sibling at hs
  unfold stepJoin
  split_ifs at hs with heven hlt
  · rw [show 2 * (i / 2) = i by omega, ha, hs, if_neg (by simpa using heven)]
    rfl
  · rw [show 2 * (i / 2) = i by omega, ha, List.getElem?_eq_none (by omega),
      if_neg (by simpa using heven)]
    rw [ha] at hs
    cases hs
    rfl
  · rw [show 2 * (i / 2) = i - 1 by omega, show i - 1 + 1 = i by omega, ha, hs,
      if_pos (by simp; omega)]
    rfl

/-- A leaf's siblings lead to the root. -/
theorem climb_siblingsWithin (n : Nat) : ∀ {level : List α} {i : Nat} {a : α},
    level.length ≤ n + 1 → level[i]? = some a →
      ∃ proof, siblingsWithin hash join n level i = some proof ∧
        rootWithin hash join n level = some (climb hash join a (path i proof)) := by
  -- one node left
  have hone : ∀ {level : List α} {i : Nat} {a : α}, level.length ≤ 1 → level[i]? = some a →
      level.head? = some a := by
    intro level i a hlen ha
    have hi : i < level.length := (List.getElem?_eq_some_iff.mp ha).1
    obtain rfl : i = 0 := by omega
    rwa [List.head?_eq_getElem?]
  induction n with
  | zero =>
    intro level i a hlen ha
    refine ⟨[], rfl, ?_⟩
    rw [rootWithin, if_pos hlen]
    exact hone hlen ha
  | succ n ih =>
    intro level i a hlen ha
    have hi : i < level.length := (List.getElem?_eq_some_iff.mp ha).1
    rw [rootWithin, siblingsWithin]
    split_ifs with h1
    · exact ⟨[], rfl, hone h1 ha⟩
    · obtain ⟨s, hs⟩ := sibling_isSome hi
      have hup := length_levelUp hash join level
      have hlevel : (levelUp hash join level).length ≤ n + 1 := by omega
      obtain ⟨above, habove, hroot⟩ := ih hlevel (levelUp_half ha hs)
      refine ⟨s :: above, ?_, hroot⟩
      rw [hs, habove]
      rfl

/-- Every leaf has a proof, and it leads to the root. -/
theorem climb_siblings {leaves : List α} {i : Nat} {a : α} (ha : leaves[i]? = some a) :
    ∃ proof, siblings hash join leaves i = some proof ∧
      root hash join leaves = some (climb hash join a (path i proof)) :=
  climb_siblingsWithin _ (Nat.le_succ _) ha

/-! ## The leaf of an index -/

/-- The leaf that an index names in a tree of some depth over `width` leaves: of the two children of
the node that its upper bits name, the one that its last bit names, or the last node of the level
where that is missing. -/
def origin : Nat → Nat → Nat → Nat
  | _, 0, _ => 0
  | width, depth + 1, i => min (2 * origin ((width + 1) / 2) depth (i / 2) + i % 2) (width - 1)

/-- Bits of the index above the depth of the tree name nothing. -/
theorem origin_mod (depth : Nat) : ∀ width i, origin width depth (i % 2 ^ depth) = origin width depth i := by
  induction depth with
  | zero => intro width i; rfl
  | succ depth ih =>
    intro width i
    have hhalf : i % 2 ^ (depth + 1) / 2 = i / 2 % 2 ^ depth := by
      rw [Nat.pow_succ, Nat.mod_mul_left_div_self]
    have hbit : i % 2 ^ (depth + 1) % 2 = i % 2 := by
      rw [Nat.pow_succ]
      exact Nat.mod_mul_left_mod i (2 ^ depth) 2
    rw [origin, hhalf, hbit, ih, origin]

/-- An index of a leaf names that leaf. -/
theorem origin_eq_self (depth : Nat) : ∀ {width i : Nat}, width ≤ 2 ^ depth → i < width →
    origin width depth i = i := by
  induction depth with
  | zero =>
    intro width i hwidth hi
    rw [Nat.pow_zero] at hwidth
    rw [origin]
    omega
  | succ depth ih =>
    intro width i hwidth hi
    rw [Nat.pow_succ] at hwidth
    rw [origin, ih (by omega) (by omega)]
    omega

/-- Where the strings hashed do not collide, a proof that leads to the only node of its level starts at
the leaf that its index names. -/
theorem leaf_of_climb (hinj : ∀ a b c d, join a b = join c d → a = c ∧ b = d) {l : List M}
    (hcf : CollisionFree hash l) (proof : List α) : ∀ {leaves : List α} {a : α} {i : Nat},
      (levelUp hash join)^[proof.length] leaves = [climb hash join a (path i proof)] →
      stepJoins hash join a (path i proof) ⊆ l →
      (∀ j < proof.length, joins join ((levelUp hash join)^[j] leaves) ⊆ l) →
        leaves[origin leaves.length proof.length i]? = some a := by
  induction proof with
  | nil =>
    intro leaves a i hroot _ _
    change leaves = [a] at hroot
    rw [hroot]
    rfl
  | cons s proof ih =>
    intro leaves a i hroot hsteps hlevels
    rw [path, stepJoins] at hsteps
    have hup := length_levelUp hash join leaves
    -- the node above is the one that the upper bits name
    have habove := @ih (levelUp hash join leaves) (hash (stepJoin join a (decide (i % 2 = 1), s))) (i / 2)
      hroot (fun m hm => hsteps (List.mem_cons_of_mem _ hm))
      (fun j hj => hlevels (j + 1) (Nat.succ_lt_succ hj))
    rw [hup, getElem?_levelUp, Option.map_eq_some_iff] at habove
    rw [List.length_cons, origin]
    generalize origin ((leaves.length + 1) / 2) proof.length (i / 2) = p at habove ⊢
    obtain ⟨x, hx, hxhash⟩ := habove
    have hp : 2 * p < leaves.length := (List.getElem?_eq_some_iff.mp hx).1
    have hmem : join x (leaves[2 * p + 1]?.getD x) ∈ l := by
      refine hlevels 0 (Nat.succ_pos _) (List.mem_of_getElem? (i := p) ?_)
      rw [Function.iterate_zero_apply, getElem?_joins, hx]
      rfl
    have hsame := hcf _ hmem _ (hsteps List.mem_cons_self) hxhash
    unfold stepJoin at hsame
    split_ifs at hsame with hodd
    · obtain ⟨-, hy⟩ := hinj _ _ _ _ hsame
      have hi : i % 2 = 1 := by simpa using hodd
      rcases Nat.lt_or_ge (2 * p + 1) leaves.length with hlt | hge
      · rw [List.getElem?_eq_getElem hlt] at hy
        rw [hi, min_eq_left (by omega), List.getElem?_eq_getElem hlt, ← hy]
        rfl
      · rw [List.getElem?_eq_none hge] at hy
        rw [hi, min_eq_right (by omega), show leaves.length - 1 = 2 * p by omega, hx, ← hy]
        rfl
    · obtain ⟨hy, -⟩ := hinj _ _ _ _ hsame
      have hi : i % 2 = 0 := by
        have : i % 2 ≠ 1 := by simpa using hodd
        omega
      rw [hi, min_eq_left (by omega), Nat.add_zero, hx, hy]

end MerkleTree

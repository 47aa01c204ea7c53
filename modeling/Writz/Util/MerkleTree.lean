import Mathlib.Data.List.Basic
import Mathlib.Data.List.Induction
import Mathlib.Logic.Function.Iterate

/-!
# Merkle trees and proofs of any length

A tree over hashed messages whose nodes hash the join of two neighbours, an odd last node joined with
itself. A proof is climbed from a message's hash by joining a sibling at every step. The number of
steps is not tied to the tree, so a proof that ends in the root need not have started at a leaf: it
may have started at a node's own join, or below a leaf whose message is a join. Nothing else can
happen as long as the strings hashed do not collide.
-/

namespace MerkleTree

variable {M α : Type} (hash : M → α) (join : α → α → M)

/-! ## The tree -/

/-- The joins of neighbours on a level. -/
def joins : List α → List M
  | [] => []
  | [a] => [join a a]
  | a :: b :: rest => join a b :: joins rest

/-- The level above. -/
def levelUp (level : List α) : List α := (joins join level).map hash

/-- The root over a level, at most `n` levels above it. -/
def rootWithin : Nat → List α → Option α
  | 0, level => if level.length ≤ 1 then level.head? else none
  | n + 1, level =>
    if level.length ≤ 1 then level.head? else rootWithin n (levelUp hash join level)

/-- The root over the leaves. -/
def root (leaves : List α) : Option α := rootWithin hash join leaves.length leaves

/-- The joins hashed on the way from a level to its root. -/
def nodesWithin : Nat → List α → List M
  | 0, _ => []
  | n + 1, level =>
    if level.length ≤ 1 then [] else joins join level ++ nodesWithin n (levelUp hash join level)

/-- The joins hashed for the root over the leaves. -/
def nodes (leaves : List α) : List M := nodesWithin hash join leaves.length leaves

theorem length_joins (level : List α) : (joins join level).length = (level.length + 1) / 2 := by
  fun_induction joins join level with
  | case1 => simp
  | case2 => simp
  | case3 a b rest ih =>
    simp only [List.length_cons, ih]
    omega

/-- Leaves have a root. -/
theorem rootWithin_isSome (n : Nat) :
    ∀ level : List α, level ≠ [] → level.length ≤ n + 1 → (rootWithin hash join n level).isSome := by
  induction n with
  | zero =>
    intro level hne hlen
    rw [rootWithin, if_pos hlen]
    simpa using hne
  | succ n ih =>
    intro level hne hlen
    rw [rootWithin]
    split_ifs with h1
    · simpa using hne
    · have hlength : (levelUp hash join level).length = (level.length + 1) / 2 := by
        rw [levelUp, List.length_map, length_joins]
      refine ih _ (List.ne_nil_of_length_pos ?_) ?_ <;> omega

theorem root_isSome {leaves : List α} (h : leaves ≠ []) : (root hash join leaves).isSome :=
  rootWithin_isSome hash join _ leaves h (Nat.le_succ _)

variable {hash join}

/-- A join on a level is of two of its members. -/
theorem mem_joins {level : List α} {m : M} (h : m ∈ joins join level) :
    ∃ a ∈ level, ∃ b ∈ level, m = join a b := by
  fun_induction joins join level with
  | case1 => cases h
  | case2 a =>
    rw [List.mem_singleton] at h
    exact ⟨a, by simp, a, by simp, h⟩
  | case3 a b rest ih =>
    rcases List.mem_cons.mp h with rfl | h
    · exact ⟨a, by simp, b, by simp, rfl⟩
    · obtain ⟨x, hx, y, hy, rfl⟩ := ih h
      exact ⟨x, by simp [hx], y, by simp [hy], rfl⟩

/-- The root is alone on some level, and the joins below that level are among the nodes. -/
theorem rootWithin_level {r : α} (n : Nat) :
    ∀ {level : List α}, rootWithin hash join n level = some r →
      ∃ k, (levelUp hash join)^[k] level = [r] ∧
        ∀ i < k, joins join ((levelUp hash join)^[i] level) ⊆ nodesWithin hash join n level := by
  -- one node left
  have hone : ∀ {level : List α}, level.length ≤ 1 → level.head? = some r → level = [r] := by
    intro level hlen hr
    match level, hlen, hr with
    | [a], _, hr => rw [Option.some.inj hr]
  induction n with
  | zero =>
    intro level hr
    rw [rootWithin] at hr
    split_ifs at hr with hlen
    exact ⟨0, hone hlen hr, fun i hi => absurd hi (Nat.not_lt_zero i)⟩
  | succ n ih =>
    intro level hr
    rw [rootWithin] at hr
    split_ifs at hr with hlen
    · exact ⟨0, hone hlen hr, fun i hi => absurd hi (Nat.not_lt_zero i)⟩
    · obtain ⟨k, hk, hnodes⟩ := ih hr
      refine ⟨k + 1, by rwa [Function.iterate_succ_apply], fun i hi => ?_⟩
      rw [nodesWithin, if_neg hlen]
      cases i with
      | zero => exact List.subset_append_left _ _
      | succ i =>
        rw [Function.iterate_succ_apply]
        exact List.Subset.trans (hnodes i (Nat.lt_of_succ_lt_succ hi)) (List.subset_append_right _ _)

/-! ## Proofs -/

variable (hash join)

/-- The join of a step: with the sibling on the left, or on the right. -/
def stepJoin (a : α) (s : Bool × α) : M := if s.1 then join s.2 a else join a s.2

/-- The node a proof leads to. -/
def climb (a : α) (proof : List (Bool × α)) : α :=
  proof.foldl (fun a s => hash (stepJoin join a s)) a

/-- The joins hashed on the way. -/
def stepJoins (a : α) : List (Bool × α) → List M
  | [] => []
  | s :: proof => stepJoin join a s :: stepJoins (hash (stepJoin join a s)) proof

@[simp] theorem climb_nil (a : α) : climb hash join a [] = a := rfl

@[simp] theorem climb_cons (a : α) (s : Bool × α) (proof : List (Bool × α)) :
    climb hash join a (s :: proof) = climb hash join (hash (stepJoin join a s)) proof := rfl

theorem climb_append (a : α) (low high : List (Bool × α)) :
    climb hash join a (low ++ high) = climb hash join (climb hash join a low) high :=
  List.foldl_append

theorem stepJoins_append (low high : List (Bool × α)) :
    ∀ a, stepJoins hash join a (low ++ high)
      = stepJoins hash join a low ++ stepJoins hash join (climb hash join a low) high := by
  induction low with
  | nil => intro a; rfl
  | cons s low ih => intro a; simp only [List.cons_append, stepJoins, climb_cons, ih]

variable {hash join}

theorem stepJoin_eq (a : α) (s : Bool × α) :
    ∃ u v, stepJoin join a s = join u v ∧ (a = u ∨ a = v) := by
  unfold stepJoin
  split_ifs
  · exact ⟨_, _, rfl, .inr rfl⟩
  · exact ⟨_, _, rfl, .inl rfl⟩

/-- No two messages of a list have the same hash. -/
def CollisionFree (hash : M → α) (l : List M) : Prop :=
  ∀ m ∈ l, ∀ m' ∈ l, hash m = hash m' → m = m'

theorem CollisionFree.subset {l l' : List M} (h : CollisionFree hash l) (hs : l' ⊆ l) :
    CollisionFree hash l' :=
  fun m hm m' hm' => h m (hs hm) m' (hs hm')

/-- A proof that leads into level `j` starts in the level its length puts it below, or passes the
level of the leaves on the way. -/
theorem climb_descends (hinj : ∀ a b c d, join a b = join c d → a = c ∧ b = d) {leaves : List α}
    {l : List M} (hcf : CollisionFree hash l) (a : α) (proof : List (Bool × α)) :
    ∀ j, climb hash join a proof ∈ (levelUp hash join)^[j] leaves →
      stepJoins hash join a proof ⊆ l →
      (∀ i < j, joins join ((levelUp hash join)^[i] leaves) ⊆ l) →
        (∃ i ≤ j, a ∈ (levelUp hash join)^[i] leaves) ∨
          ∃ low s high, proof = low ++ s :: high ∧
            hash (stepJoin join (climb hash join a low) s) ∈ leaves := by
  induction proof using List.reverseRecOn with
  | nil => exact fun j hj _ _ => .inl ⟨j, Nat.le_refl j, hj⟩
  | append_singleton proof s ih =>
    intro j hj hsteps hlevels
    rw [climb_append] at hj
    rw [stepJoins_append] at hsteps
    cases j with
    | zero => exact .inr ⟨proof, s, [], rfl, hj⟩
    | succ j =>
      rw [Function.iterate_succ_apply', levelUp, List.mem_map] at hj
      obtain ⟨m, hm, hmh⟩ := hj
      -- the last step's join is a join of the level below
      have hlast : stepJoin join (climb hash join a proof) s ∈ l :=
        hsteps (List.mem_append_right _ List.mem_cons_self)
      obtain rfl := hcf m (hlevels j (Nat.lt_succ_self j) hm) _ hlast hmh
      obtain ⟨u, v, huv, hside⟩ := @stepJoin_eq M α join (climb hash join a proof) s
      obtain ⟨c, hc, d, hd, hcd⟩ := mem_joins hm
      obtain ⟨rfl, rfl⟩ := hinj _ _ _ _ (huv.symm.trans hcd)
      have hmem : climb hash join a proof ∈ (levelUp hash join)^[j] leaves := by
        rcases hside with h | h <;> rw [h] <;> assumption
      rcases ih j hmem (List.Subset.trans (List.subset_append_left _ _) hsteps)
        (fun i hi => hlevels i (Nat.lt_succ_of_lt hi)) with ⟨i, hi, ha⟩ | ⟨low, t, high, rfl, ht⟩
      · exact .inl ⟨i, Nat.le_succ_of_le hi, ha⟩
      · exact .inr ⟨low, t, high ++ [s], by simp, ht⟩

/-- Where the strings hashed do not collide, a message whose proof leads to the root is a leaf's, or
a join of two nodes, or its proof passes a leaf whose message is a step's join. -/
theorem proved_cases (hinj : ∀ a b c d, join a b = join c d → a = c ∧ b = d) {ms : List M} {m : M}
    {proof : List (Bool × α)} (hroot : root hash join (ms.map hash)
      = some (climb hash join (hash m) proof))
    (hcf : CollisionFree hash
      (m :: (ms ++ nodes hash join (ms.map hash) ++ stepJoins hash join (hash m) proof))) :
    m ∈ ms ∨ (∃ a b, m = join a b) ∨
      ∃ low s high, proof = low ++ s :: high ∧
        stepJoin join (climb hash join (hash m) low) s ∈ ms := by
  set l := m :: (ms ++ nodes hash join (ms.map hash) ++ stepJoins hash join (hash m) proof) with hl
  have hms : ms ⊆ l := fun x hx => by simp [hl, hx]
  have hnodes : nodes hash join (ms.map hash) ⊆ l := fun x hx => by simp [hl, hx]
  have hsteps : stepJoins hash join (hash m) proof ⊆ l := fun x hx => by simp [hl, hx]
  obtain ⟨k, hk, hbelow⟩ := rootWithin_level _ hroot
  rcases climb_descends hinj hcf (hash m) proof k (by rw [hk]; exact List.mem_singleton_self _)
    hsteps (fun i hi => List.Subset.trans (hbelow i hi) hnodes) with ⟨i, hi, hm⟩ | ⟨low, s, high, hp, hs⟩
  · cases i with
    | zero =>
      obtain ⟨t, ht, hth⟩ := List.mem_map.mp hm
      exact .inl (hcf t (hms ht) m List.mem_cons_self hth ▸ ht)
    | succ i =>
      rw [Function.iterate_succ_apply', levelUp, List.mem_map] at hm
      obtain ⟨t, ht, hth⟩ := hm
      obtain rfl := hcf t (hnodes (hbelow i hi ht)) m List.mem_cons_self hth
      obtain ⟨a, -, b, -, hab⟩ := mem_joins ht
      exact .inr (.inl ⟨a, b, hab⟩)
  · obtain ⟨t, ht, hth⟩ := List.mem_map.mp hs
    have hstep : stepJoin join (climb hash join (hash m) low) s ∈ l := by
      refine hsteps ?_
      rw [hp, stepJoins_append]
      exact List.mem_append_right _ List.mem_cons_self
    exact .inr (.inr ⟨low, s, high, hp, hcf t (hms ht) _ hstep hth ▸ ht⟩)

end MerkleTree

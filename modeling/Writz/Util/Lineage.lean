import Mathlib.Data.Option.Basic
import Mathlib.Logic.Relation

/-!
# Lineages and their index

`up parent n a` is the ancestor `n` generations above `a`. `Tracks parent index lo h a` says that an
index of items by height holds the lineage of `a`, an item of height `h`, down to height `lo`.
-/

namespace Lineage

variable {α : Type}

/-- The ancestor `n` generations up. -/
def up (parent : α → Option α) : Nat → α → Option α
  | 0, a => some a
  | n + 1, a => (parent a).bind (up parent n)

@[simp] theorem up_zero (parent : α → Option α) (a : α) : up parent 0 a = some a := rfl

theorem up_add_one (parent : α → Option α) (n : Nat) (a : α) :
    up parent (n + 1) a = (parent a).bind (up parent n) := rfl

theorem up_succ {parent : α → Option α} {a p : α} (h : parent a = some p) (n : Nat) :
    up parent (n + 1) a = up parent n p := by
  rw [up_add_one, h]
  rfl

/-- Going up in two stages. -/
theorem up_add (parent : α → Option α) (n : Nat) :
    ∀ (m : Nat) (a : α), up parent (m + n) a = (up parent m a).bind (up parent n) := by
  intro m
  induction m with
  | zero => intro a; simp
  | succ m ih =>
    intro a
    rw [Nat.add_right_comm, up_add_one, up_add_one]
    cases parent a with
    | none => rfl
    | some p => exact ih p

/-- A lineage stays a lineage when more parents become known. -/
theorem up_mono {parent parent' : α → Option α}
    (h : ∀ a p, parent a = some p → parent' a = some p) (n : Nat) :
    ∀ {a b : α}, up parent n a = some b → up parent' n a = some b := by
  induction n with
  | zero => intro a b hb; exact hb
  | succ n ih =>
    intro a b hb
    rw [up_add_one] at hb
    obtain ⟨p, hp, hb⟩ := Option.bind_eq_some_iff.mp hb
    rw [up_succ (h a p hp)]
    exact ih hb

/-- The ancestors of `a` are related to it by any relation that parents are related by. -/
theorem up_reflTransGen {parent : α → Option α} {r : α → α → Prop}
    (h : ∀ a p, parent a = some p → r a p) (n : Nat) :
    ∀ {a b : α}, up parent n a = some b → Relation.ReflTransGen r a b := by
  induction n with
  | zero =>
    intro a b hb
    cases hb
    exact .refl
  | succ n ih =>
    intro a b hb
    rw [up_add_one] at hb
    obtain ⟨p, hp, hb⟩ := Option.bind_eq_some_iff.mp hb
    exact .head (h a p hp) (ih hb)

/-- The index holds the lineage of `a`, an item of height `h`, down to height `lo`. -/
def Tracks (parent : α → Option α) (index : Nat → Option α) (lo h : Nat) (a : α) : Prop :=
  ∀ n, lo + n ≤ h → ∃ b, up parent n a = some b ∧ index (h - n) = some b

variable {parent : α → Option α} {index index' : Nat → Option α} {lo h : Nat} {a b : α}

/-- An index that tracks an item tracks each ancestor it holds. -/
theorem Tracks.ancestor (ht : Tracks parent index lo h a) {n : Nat} (hn : lo + n ≤ h)
    (hb : index (h - n) = some b) : Tracks parent index lo (h - n) b := by
  obtain ⟨b', hup, hb'⟩ := ht n hn
  rw [hb] at hb'
  cases hb'
  intro m hm
  obtain ⟨c, hc, hi⟩ := ht (n + m) (by omega)
  rw [up_add, hup] at hc
  exact ⟨c, hc, by rwa [show h - n - m = h - (n + m) by omega]⟩

/-- An item above a tracked parent is tracked once it is put in the index. -/
theorem Tracks.extend (ht : Tracks parent index lo h b) (hp : parent a = some b)
    (hi : index (h + 1) = some a) : Tracks parent index lo (h + 1) a := by
  intro n hn
  cases n with
  | zero => exact ⟨a, rfl, hi⟩
  | succ n =>
    obtain ⟨c, hc, hic⟩ := ht n (by omega)
    exact ⟨c, by rwa [up_succ hp], by rwa [Nat.add_sub_add_right]⟩

/-- Tracking depends on the index between the two heights only. -/
theorem Tracks.congr (ht : Tracks parent index lo h a)
    (hi : ∀ n, lo ≤ n → n ≤ h → index' n = index n) : Tracks parent index' lo h a := by
  intro n hn
  obtain ⟨b, hb, hib⟩ := ht n hn
  exact ⟨b, hb, by rw [hi _ (by omega) (by omega)]; exact hib⟩

/-- Tracking survives more parents becoming known. -/
theorem Tracks.mono {parent' : α → Option α} (ht : Tracks parent index lo h a)
    (hp : ∀ a p, parent a = some p → parent' a = some p) : Tracks parent' index lo h a := by
  intro n hn
  obtain ⟨b, hb, hib⟩ := ht n hn
  exact ⟨b, up_mono hp n hb, hib⟩

end Lineage

import Mathlib.Data.List.Basic
import Mathlib.Data.List.Nodup

/-!
# Logs that are read by cursor

A log lists events in the order of their positions and only grows at its end. A reader holds a position
and is given the events after it, up to another one. `Upward p log` says that from some event of the log
on, all meet `p`; such a log is the events that do not, followed by those that do.
-/

namespace EventLog

variable {ε ι : Type} {p : ε → Bool} {log as bs : List ε}

/-- From the first event that meets `p` on, all do. -/
def Upward (p : ε → Bool) (log : List ε) : Prop := log.Pairwise fun e e' => p e = true → p e' = true

theorem Upward.filter (h : Upward p log) (q : ε → Bool) : Upward p (log.filter q) :=
  List.Pairwise.filter q h

/-- The events below, and the ones above. -/
theorem Upward.partition (h : Upward p log) : (log.filter fun e => !p e) ++ log.filter p = log := by
  induction log with
  | nil => rfl
  | cons e log ih =>
    obtain ⟨he, hlog⟩ := List.pairwise_cons.mp h
    cases hp : p e with
    | false =>
      rw [List.filter_cons_of_pos (by rw [hp]; rfl), List.filter_cons_of_neg (by rw [hp]; decide),
        List.cons_append, ih hlog]
    | true =>
      have hall : ∀ x ∈ e :: log, p x = true := List.forall_mem_cons.mpr ⟨hp, fun x hx => he x hx hp⟩
      have hnone : ((e :: log).filter fun x => !p x) = [] :=
        List.filter_eq_nil_iff.mpr fun x hx => by rw [hall x hx]; decide
      rw [hnone, List.nil_append, List.filter_eq_self.mpr hall]

/-- What is taken from below and from above is in order. -/
theorem Upward.sublist_append (h : Upward p log) (has : as.Sublist log) (hbs : bs.Sublist log)
    (hlow : ∀ e ∈ as, p e = false) (hhigh : ∀ e ∈ bs, p e = true) : (as ++ bs).Sublist log := by
  have has' : as.Sublist (log.filter fun e => !p e) := by
    have := has.filter fun e => !p e
    rwa [List.filter_eq_self.mpr fun e he => by rw [hlow e he]; rfl] at this
  have hbs' : bs.Sublist (log.filter p) := by
    have := hbs.filter p
    rwa [List.filter_eq_self.mpr hhigh] at this
  have happend := has'.append hbs'
  rwa [h.partition] at happend

/-- Only events that stand for something count. -/
theorem filterMap_filter_isSome {α β : Type} {f : α → Option β} (l : List α) :
    (l.filter fun a => (f a).isSome).filterMap f = l.filterMap f := by
  rw [List.filterMap_filter]
  refine List.filterMap_congr fun a _ => ?_
  cases f a <;> rfl

/-! ## Positions -/

/-- Positions are ordered strictly and totally. -/
structure Order (lt : ι → ι → Bool) : Prop where
  irrefl : ∀ a, lt a a = false
  trans : ∀ {a b c}, lt a b = true → lt b c = true → lt a c = true
  of_not : ∀ {a b c}, lt b a = false → lt b c = true → lt a c = true

variable {lt : ι → ι → Bool} {pos : ε → ι} {a b c : ι}

/-- The events are in the order of their positions, each at its own. -/
def Sorted (lt : ι → ι → Bool) (pos : ε → ι) (log : List ε) : Prop :=
  log.Pairwise fun e e' => lt (pos e) (pos e') = true

/-- The events after one position, up to another. -/
def span (lt : ι → ι → Bool) (pos : ε → ι) (a b : ι) (log : List ε) : List ε :=
  log.filter fun e => lt a (pos e) && !lt b (pos e)

theorem mem_span {e : ε} :
    e ∈ span lt pos a b log ↔ e ∈ log ∧ lt a (pos e) = true ∧ lt b (pos e) = false := by
  rw [span, List.mem_filter, Bool.and_eq_true, Bool.not_eq_true']

theorem span_self (log : List ε) : span lt pos a a log = [] :=
  List.filter_eq_nil_iff.mpr fun e _ => by cases lt a (pos e) <;> simp

theorem Sorted.nodup (ho : Order lt) (h : Sorted lt pos log) : log.Nodup := by
  refine h.imp ?_
  rintro e e' hlt rfl
  rw [ho.irrefl] at hlt
  cases hlt

/-- In a sorted log the events after a position are the last ones. -/
theorem Sorted.upward (ho : Order lt) (h : Sorted lt pos log) (a : ι) :
    Upward (fun e => lt a (pos e)) log :=
  h.imp fun hlt ha => ho.trans ha hlt

/-- Up to a later position there are more. -/
theorem span_subset_right (ho : Order lt) (hbc : lt c b = false) :
    span lt pos a b log ⊆ span lt pos a c log := fun e he => by
  obtain ⟨hlog, ha, hb⟩ := mem_span.mp he
  refine mem_span.mpr ⟨hlog, ha, ?_⟩
  by_contra hc
  have := ho.of_not hbc ((Bool.not_eq_false _).mp hc)
  rw [hb] at this
  cases this

/-- And after an earlier one. -/
theorem span_subset_left (ho : Order lt) (hab : lt b a = false) :
    span lt pos b c log ⊆ span lt pos a c log := fun e he => by
  obtain ⟨hlog, hb, hc⟩ := mem_span.mp he
  exact mem_span.mpr ⟨hlog, ho.of_not hab hb, hc⟩

/-- The events up to a position, and then those up to a later one. -/
theorem span_append_span (ho : Order lt) (h : Sorted lt pos log) (hab : lt b a = false)
    (hbc : lt c b = false) : span lt pos a b log ++ span lt pos b c log = span lt pos a c log := by
  have hpart := ((h.upward ho b).filter fun e => lt a (pos e) && !lt c (pos e)).partition
  rw [List.filter_filter, List.filter_filter] at hpart
  unfold span
  rw [← hpart]
  congr 1 <;> refine List.filter_congr fun e _ => ?_
  · cases hb : lt b (pos e) with
    | true => simp
    | false =>
      have hc : lt c (pos e) = false := by
        by_contra hc
        have := ho.of_not hbc ((Bool.not_eq_false _).mp hc)
        rw [hb] at this
        cases this
      simp [hc]
  · cases hb : lt b (pos e) with
    | false => simp
    | true => simp [ho.of_not hab hb]

/-- New events do not change what was up to a position before them. -/
theorem span_append_new {new : List ε} (hnew : ∀ e ∈ new, lt b (pos e) = true) :
    span lt pos a b (log ++ new) = span lt pos a b log := by
  have hnone : new.filter (fun e => lt a (pos e) && !lt b (pos e)) = [] :=
    List.filter_eq_nil_iff.mpr fun e he => by rw [hnew e he]; simp
  rw [span, List.filter_append, hnone, List.append_nil, span]

end EventLog

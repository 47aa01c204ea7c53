import Mathlib.Logic.Basic
import Mathlib.Tactic.SplitIfs

/-!
# Runs of a labelled transition system

A system is given by its initial states and a guarded, executable step: `step s a` is `some s'` when
the label `a` takes `s` to `s'`, and `none` when `a` is not possible in `s`. `Via T P` are the states
reached by runs all of whose steps meet `P`, a condition on the state before the step and on its
label; `Reachable T` is the unconditional case. `Run T` also records the steps taken, for the
statements that count them.
-/

namespace Runs

/-- A labelled transition system. -/
structure System (σ ι : Type) where
  /-- The states a run may start in. -/
  init : σ → Prop
  /-- The state after a step, `none` when the label is not possible. -/
  step : σ → ι → Option σ

variable {σ ι : Type}

/-- The states reached by a run each of whose steps meets `P`. -/
inductive Via (T : System σ ι) (P : σ → ι → Prop) : σ → Prop where
  /-- The empty run. -/
  | init {s : σ} (h : T.init s) : Via T P s
  /-- One more step, taken under the condition. -/
  | step {s s' : σ} {a : ι} (h : Via T P s) (hp : P s a) (hs : T.step s a = some s') : Via T P s'

/-- The states reached by any run. -/
abbrev Reachable (T : System σ ι) : σ → Prop := Via T fun _ _ => True

/-- One step of a run: the state before, the label, the state after. -/
structure Transition (σ ι : Type) where
  /-- The state before the step. -/
  pre : σ
  /-- The label of the step. -/
  label : ι
  /-- The state after the step. -/
  post : σ

/-- `Run T tr s`: a run with the steps `tr`, the latest first, ends in `s`. -/
inductive Run (T : System σ ι) : List (Transition σ ι) → σ → Prop where
  /-- The empty run. -/
  | init {s : σ} (h : T.init s) : Run T [] s
  /-- One more step. -/
  | step {tr : List (Transition σ ι)} {s s' : σ} {a : ι} (h : Run T tr s)
      (hs : T.step s a = some s') : Run T (⟨s, a, s'⟩ :: tr) s'

/-- The state after a list of labels, `none` when one of them is not possible. -/
def System.replay (T : System σ ι) (s : σ) (as : List ι) : Option σ := as.foldlM T.step s

/-- Replays labels, and stops where the check on a step fails. -/
def System.replayIf (T : System σ ι) (p : σ → ι → Bool) (s : σ) (as : List ι) : Option σ :=
  as.foldlM (fun s a => if p s a then T.step s a else none) s

/-- Replays labels and records the steps, the latest first. -/
def System.record (T : System σ ι) (s : σ) (as : List ι) : Option (List (Transition σ ι) × σ) :=
  as.foldlM (fun r a => (T.step r.2 a).map fun s' => (⟨r.2, a, s'⟩ :: r.1, s')) ([], s)

/-- The runs that go on from a state. -/
def System.after (T : System σ ι) (s : σ) : System σ ι := { T with init := fun s' => s' = s }

variable {T : System σ ι} {P Q : σ → ι → Prop}

/-- The invariant rule: what holds initially and is kept by every step meeting `P` holds in every
state such runs reach. -/
theorem Via.invariant {I : σ → Prop} (h0 : ∀ s, T.init s → I s)
    (hstep : ∀ s a s', I s → P s a → T.step s a = some s' → I s') {s : σ} (h : Via T P s) : I s := by
  induction h with
  | init h => exact h0 _ h
  | step _ hp hs ih => exact hstep _ _ _ ih hp hs

/-- A run of one system is a run of another that has its initial states and, under `P`, its
steps. -/
theorem Via.simulate {U : System σ ι} (h0 : ∀ s, T.init s → U.init s)
    (hstep : ∀ s a s', P s a → T.step s a = some s' → Q s a ∧ U.step s a = some s') {s : σ}
    (h : Via T P s) : Via U Q s := by
  induction h with
  | init h => exact .init (h0 _ h)
  | step _ hp hs ih =>
    obtain ⟨hq, hs'⟩ := hstep _ _ _ hp hs
    exact .step ih hq hs'

/-- A stronger condition on the steps reaches fewer states. -/
theorem Via.mono (h : ∀ s a, P s a → Q s a) {s : σ} (hs : Via T P s) : Via T Q s :=
  hs.simulate (fun _ h0 => h0) fun _ _ _ hp hs => ⟨h _ _ hp, hs⟩

/-- A run under a condition is a run. -/
theorem Via.reachable {s : σ} (h : Via T P s) : Reachable T s := h.mono fun _ _ _ => trivial

/-- What a run reaches from a state it has reached, it reaches. -/
theorem Via.append {s s' : σ} (h : Via T P s) (h' : Via (T.after s) P s') : Via T P s' := by
  induction h' with
  | init h0 =>
    cases h0
    exact h
  | step _ hp hs ih => exact ih.step hp hs

/-- A recorded run reaches its last state. -/
theorem Run.reachable {tr : List (Transition σ ι)} {s : σ} (h : Run T tr s) : Reachable T s := by
  induction h with
  | init h => exact .init h
  | step _ hs ih => exact .step ih trivial hs

/-- Every recorded transition is a step. -/
theorem Run.step_of_mem {tr : List (Transition σ ι)} {s : σ} (h : Run T tr s) {t : Transition σ ι}
    (ht : t ∈ tr) : T.step t.pre t.label = some t.post := by
  induction h with
  | init h => cases ht
  | step _ hs ih =>
    rcases List.mem_cons.mp ht with rfl | ht
    · exact hs
    · exact ih ht

/-- Replaying labels from a reachable state stays reachable. -/
theorem Via.replay {as : List ι} :
    ∀ {s s' : σ}, Reachable T s → T.replay s as = some s' → Reachable T s' := by
  induction as with
  | nil =>
    intro s s' h hr
    obtain rfl : s = s' := by simpa [System.replay] using hr
    exact h
  | cons a as ih =>
    intro s s' h hr
    obtain ⟨s₁, hs₁, hr⟩ := Option.bind_eq_some_iff.mp hr
    exact ih (h.step trivial hs₁) hr

/-- Replaying labels under a check goes on a run under what the check decides. -/
theorem Via.replayIf {p : σ → ι → Bool} (hp : ∀ s a, p s a = true → P s a) {as : List ι} :
    ∀ {s s' : σ}, Via T P s → T.replayIf p s as = some s' → Via T P s' := by
  induction as with
  | nil =>
    intro s s' h hr
    obtain rfl : s = s' := by simpa [System.replayIf] using hr
    exact h
  | cons a as ih =>
    intro s s' h hr
    obtain ⟨s₁, hs₁, hr⟩ := Option.bind_eq_some_iff.mp hr
    dsimp only at hs₁
    split_ifs at hs₁ with hpa
    exact ih (h.step (hp _ _ hpa) hs₁) hr

/-- What a replay records is a run. -/
theorem Run.record {as : List ι} :
    ∀ {r r' : List (Transition σ ι) × σ}, Run T r.1 r.2 →
      as.foldlM (fun r a => (T.step r.2 a).map fun s' => (⟨r.2, a, s'⟩ :: r.1, s')) r = some r' →
        Run T r'.1 r'.2 := by
  induction as with
  | nil =>
    intro r r' h hr
    obtain rfl : r = r' := by simpa using hr
    exact h
  | cons a as ih =>
    intro r r' h hr
    obtain ⟨r₁, hr₁, hr⟩ := Option.bind_eq_some_iff.mp hr
    obtain ⟨s', hs', rfl⟩ := Option.map_eq_some_iff.mp hr₁
    exact ih (h.step hs') hr

end Runs

import Mathlib.Logic.Basic
import Mathlib.Tactic.SplitIfs

/-!
# Programs with a state that may throw

What a program has done to the state when it throws stays done, as in most languages with exceptions.
The `eq_ok` lemmas take a successful run apart. `Program.Triple P p Q E` says how a program may end
from a state that meets `P`.
-/

/-- A program over a state `σ` that may throw an `ε`. -/
def Program (σ ε α : Type) : Type := σ → Except ε α × σ

namespace Program

variable {σ ε α β γ : Type}

protected def pure (a : α) : Program σ ε α := fun s => (.ok a, s)

protected def throw (e : ε) : Program σ ε α := fun s => (.error e, s)

protected def bind (p : Program σ ε α) (f : α → Program σ ε β) : Program σ ε β := fun s =>
  match p s with
  | (.ok a, s') => f a s'
  | (.error e, s') => (.error e, s')

/-- Runs the handler on what `p` throws, in the state it leaves. -/
protected def tryCatch (p : Program σ ε α) (handler : ε → Program σ ε α) : Program σ ε α := fun s =>
  match p s with
  | (.ok a, s') => (.ok a, s')
  | (.error e, s') => handler e s'

/-- Runs `q` after `p`, however `p` ends. What `q` throws takes the place of what `p` gave. -/
def tryFinally (p : Program σ ε α) (q : Program σ ε Unit) : Program σ ε α := fun s =>
  match p s with
  | (r, s') =>
    match q s' with
    | (.ok _, s'') => (r, s'')
    | (.error e, s'') => (.error e, s'')

instance : Monad (Program σ ε) where
  pure := Program.pure
  bind := Program.bind

instance : MonadExceptOf ε (Program σ ε) where
  throw := Program.throw
  tryCatch := Program.tryCatch

/-- The state. -/
def get : Program σ ε σ := fun s => (.ok s, s)

/-- Changes the state. -/
def modify (f : σ → σ) : Program σ ε Unit := fun s => (.ok (), f s)

/-- A result that does not depend on the state. -/
def ofExcept (r : Except ε α) : Program σ ε α := fun s => (r, s)

/-- Throws where a condition holds. -/
def throwIf (c : Prop) [Decidable c] (e : ε) : Program σ ε Unit :=
  if c then Program.throw e else Program.pure ()

/-- Runs a program for every element, from the first on. -/
def forEach (f : γ → Program σ ε Unit) : List γ → Program σ ε Unit
  | [] => Program.pure ()
  | x :: xs => Program.bind (f x) fun _ => forEach f xs

/-! ## Runs, step by step -/

section Steps

variable {p : Program σ ε α} {f : α → Program σ ε β} {s s' : σ} {a : α} {e : ε}

theorem bind_of_ok (h : p s = (.ok a, s')) : (p >>= f) s = f a s' := by
  change Program.bind p f s = _
  rw [Program.bind, h]

theorem bind_of_error (h : p s = (.error e, s')) : (p >>= f) s = (.error e, s') := by
  change Program.bind p f s = _
  rw [Program.bind, h]

theorem modify_bind {g : σ → σ} {h : Unit → Program σ ε β} : (modify g >>= h) s = h () (g s) := rfl

theorem get_bind {h : σ → Program σ ε β} : (get >>= h) s = h s s := rfl

theorem bind_assoc (p : Program σ ε α) (f : α → Program σ ε β) (g : β → Program σ ε γ) :
    p >>= f >>= g = p >>= fun a => f a >>= g := by
  funext s
  rcases hp : p s with ⟨e | a, s₁⟩
  · rw [bind_of_error (bind_of_error hp), bind_of_error hp]
  · rw [bind_of_ok hp]
    rcases hf : f a s₁ with ⟨e | b, s₂⟩
    · rw [bind_of_error ((bind_of_ok hp).trans hf), bind_of_error hf]
    · rw [bind_of_ok ((bind_of_ok hp).trans hf), bind_of_ok hf]

theorem tryFinally_of_ok {q : Program σ ε Unit} {r : Except ε α} {s₁ : σ} (hp : p s = (r, s₁))
    (hq : q s₁ = (.ok (), s')) : tryFinally p q s = (r, s') := by
  rw [tryFinally, hp]
  simp only [hq]

theorem tryFinally_of_error {q : Program σ ε Unit} {r : Except ε α} {s₁ : σ} (hp : p s = (r, s₁))
    (hq : q s₁ = (.error e, s')) : tryFinally p q s = (.error e, s') := by
  rw [tryFinally, hp]
  simp only [hq]

end Steps

/-! ## Successful runs -/

section Ok

variable {p : Program σ ε α} {f : α → Program σ ε β} {s s' : σ} {a a' : α} {b : β} {e : ε}

theorem bind_eq_ok :
    (p >>= f) s = (.ok b, s') ↔ ∃ a s₁, p s = (.ok a, s₁) ∧ f a s₁ = (.ok b, s') := by
  change Program.bind p f s = _ ↔ _
  unfold Program.bind
  constructor
  · intro h
    split at h
    · next a s₁ hp => exact ⟨a, s₁, hp, h⟩
    · cases h
  · rintro ⟨a, s₁, hp, hf⟩
    rw [hp]
    exact hf

theorem pure_eq_ok : (pure a : Program σ ε α) s = (.ok a', s') ↔ a = a' ∧ s = s' := by
  change (Except.ok a, s) = (Except.ok a', s') ↔ _
  simp

theorem throw_eq_ok : (throw e : Program σ ε α) s = (.ok a, s') ↔ False := by
  change (Except.error e, s) = (Except.ok a, s') ↔ _
  simp

theorem get_eq_ok {t : σ} : (get : Program σ ε σ) s = (.ok t, s') ↔ s = t ∧ s = s' := by
  simp [get]

theorem modify_eq_ok {g : σ → σ} {u : Unit} :
    (modify g : Program σ ε Unit) s = (.ok u, s') ↔ g s = s' := by
  simp [modify]

theorem ofExcept_eq_ok {r : Except ε α} :
    (ofExcept r : Program σ ε α) s = (.ok a, s') ↔ r = .ok a ∧ s = s' := by
  simp [ofExcept]

theorem throwIf_eq_ok {c : Prop} [Decidable c] {u : Unit} :
    (throwIf c e : Program σ ε Unit) s = (.ok u, s') ↔ ¬ c ∧ s = s' := by
  unfold throwIf
  split_ifs with hc
  · simp [hc, Program.throw]
  · simp [hc, Program.pure]

theorem tryFinally_eq_ok {q : Program σ ε Unit} :
    tryFinally p q s = (.ok a, s') ↔ ∃ s₁, p s = (.ok a, s₁) ∧ q s₁ = (.ok (), s') := by
  unfold tryFinally
  constructor
  · intro h
    rcases hp : p s with ⟨r, s₁⟩
    rw [hp] at h
    dsimp only at h
    split at h
    · next u s₂ hq =>
      cases h
      exact ⟨s₁, rfl, hq⟩
    · cases h
  · rintro ⟨s₁, hp, hq⟩
    rw [hp]
    dsimp only
    rw [hq]

end Ok

/-! ## Triples -/

/-- From a state that meets `P`, the program returns an `a` in a state that meets `Q a`, or it throws
in one that meets `E`. -/
def Triple (P : σ → Prop) (p : Program σ ε α) (Q : α → σ → Prop) (E : σ → Prop) : Prop :=
  ∀ s, P s → match p s with
    | (.ok a, s') => Q a s'
    | (.error _, s') => E s'

namespace Triple

variable {P P' E E' : σ → Prop} {Q Q' : α → σ → Prop} {R : β → σ → Prop} {p : Program σ ε α}
  {f : α → Program σ ε β} {e : ε}

theorem conseq (h : Triple P p Q E) (hP : ∀ s, P' s → P s) (hQ : ∀ a s, Q a s → Q' a s)
    (hE : ∀ s, E s → E' s) : Triple P' p Q' E' := by
  intro s hs
  have hp := h s (hP s hs)
  rcases hr : p s with ⟨_ | a, s'⟩
  · rw [hr] at hp
    exact hE s' hp
  · rw [hr] at hp
    exact hQ a s' hp

protected theorem pure {a : α} (h : ∀ s, P s → Q a s) : Triple P (pure a : Program σ ε α) Q E := h

protected theorem throw (h : ∀ s, P s → E s) : Triple P (throw e : Program σ ε α) Q E := h

protected theorem bind (hp : Triple P p Q E) (hf : ∀ a, Triple (Q a) (f a) R E) :
    Triple P (p >>= f) R E := by
  intro s hs
  have hp := hp s hs
  change match Program.bind p f s with
    | (.ok b, s') => R b s'
    | (.error _, s') => E s'
  unfold Program.bind
  rcases hr : p s with ⟨_ | a, s₁⟩
  · rw [hr] at hp
    exact hp
  · rw [hr] at hp
    exact hf a s₁ hp

protected theorem tryCatch {handler : ε → Program σ ε α} (hp : Triple P p Q E)
    (hh : ∀ e, Triple E (handler e) Q E') : Triple P (tryCatch p handler) Q E' := by
  intro s hs
  have hp := hp s hs
  change match Program.tryCatch p handler s with
    | (.ok b, s') => Q b s'
    | (.error _, s') => E' s'
  unfold Program.tryCatch
  rcases hr : p s with ⟨e | a, s₁⟩
  · rw [hr] at hp
    exact hh e s₁ hp
  · rw [hr] at hp
    exact hp

protected theorem tryFinally {q : Program σ ε Unit} (hp : Triple P p Q E)
    (hq : ∀ a, Triple (Q a) q (fun _ => Q a) E) (hqe : Triple E q (fun _ => E) E) :
    Triple P (tryFinally p q) Q E := by
  intro s hs
  have hp := hp s hs
  unfold Program.tryFinally
  rcases hr : p s with ⟨e | a, s₁⟩
  · rw [hr] at hp
    have hq := hqe s₁ hp
    rcases hs₂ : q s₁ with ⟨_ | _, s₂⟩
    · simpa only [hs₂] using hq
    · simpa only [hs₂] using hq
  · rw [hr] at hp
    have hq := hq a s₁ hp
    rcases hs₂ : q s₁ with ⟨_ | _, s₂⟩
    · simpa only [hs₂] using hq
    · simpa only [hs₂] using hq

theorem get : Triple P (get : Program σ ε σ) (fun t s => t = s ∧ P s) E := fun _ hs => ⟨rfl, hs⟩

theorem modify {g : σ → σ} {I : σ → Prop} (h : ∀ s, P s → I (g s)) :
    Triple P (modify g : Program σ ε Unit) (fun _ => I) E := h

theorem ofExcept {r : Except ε α} (hQ : ∀ a, r = .ok a → ∀ s, P s → Q a s)
    (hE : ∀ s, P s → E s) : Triple P (ofExcept r : Program σ ε α) Q E := by
  intro s hs
  unfold Program.ofExcept
  cases r with
  | error e => exact hE s hs
  | ok a => exact hQ a rfl s hs

theorem throwIf {c : Prop} [Decidable c] (hE : ∀ s, P s → E s) :
    Triple P (throwIf c e : Program σ ε Unit) (fun _ s => ¬ c ∧ P s) E := by
  intro s hs
  unfold Program.throwIf
  split_ifs with hc
  · exact hE s hs
  · exact ⟨hc, hs⟩

/-- What holds however a program ends holds of the state it leaves. -/
theorem final {I : σ → Prop} (h : Triple P p (fun _ => I) I) {s : σ} (hs : P s) : I (p s).2 := by
  have hp := h s hs
  rcases hr : p s with ⟨_ | a, s'⟩
  · rw [hr] at hp
    exact hp
  · rw [hr] at hp
    exact hp

/-- An invariant of the loop's body is one of the loop. -/
theorem forEach {g : γ → Program σ ε Unit} {xs : List γ}
    (h : ∀ x ∈ xs, Triple P (g x) (fun _ => P) E) : Triple P (forEach g xs) (fun _ => P) E := by
  induction xs with
  | nil => exact fun _ hs => hs
  | cons x xs ih =>
    exact (h x List.mem_cons_self).bind fun _ => ih fun x' hx' => h x' (List.mem_cons_of_mem _ hx')

end Triple

end Program

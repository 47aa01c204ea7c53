import Mathlib.Data.List.Basic
import Mathlib.Logic.Function.Basic

/-!
# Promises

Promises and the queue of microtasks, as the TypeScript code uses them. `Tracks` is the account of who
waits for what: the jobs and the reactions of each owner, whatever their order among those of others.
-/

namespace Writz.Node

/-- How a promise settles. -/
inductive Settlement (ν ε : Type) where
  | fulfilled (value : ν)
  | rejected (reason : ε)
  deriving DecidableEq

/-- What a callback comes back with. -/
inductive Completion (ι ν ε : Type) where
  | returns (value : ν)
  | throws (reason : ε)
  | returnsPromise (promise : ι)
  deriving DecidableEq

/-- The callbacks of a `then`, where it has them, and the promise it made. -/
structure Reaction (ι η : Type) where
  onFulfilled : Option η
  onRejected : Option η
  derived : ι
  deriving DecidableEq

/-- The callback for a settlement; `none` passes the settlement on. -/
def Reaction.handler {ι η ν ε : Type} (r : Reaction ι η) : Settlement ν ε → Option η
  | .fulfilled _ => r.onFulfilled
  | .rejected _ => r.onRejected

/-- A microtask: a reaction to a settled promise, or a promise that is to follow another one. -/
inductive Job (ι η ν ε : Type) where
  | react (reaction : Reaction ι η) (settlement : Settlement ν ε)
  | follow (derived target : ι)
  deriving DecidableEq

/-- The promise a job works for. -/
def Job.derived {ι η ν ε : Type} : Job ι η ν ε → ι
  | .react r _ => r.derived
  | .follow derived _ => derived

inductive PromiseState (ι η ν ε : Type) where
  | pending (reactions : List (Reaction ι η))
  | settled (settlement : Settlement ν ε)

def PromiseState.settlement? {ι η ν ε : Type} : PromiseState ι η ν ε → Option (Settlement ν ε)
  | .pending _ => none
  | .settled o => some o

/-- The promises and the microtasks. A promise that nobody has made yet is pending, without reactions. -/
structure Heap (ι η ν ε : Type) where
  promises : ι → PromiseState ι η ν ε
  jobs : List (Job ι η ν ε)

namespace Heap

variable {ι η ν ε : Type} [DecidableEq ι]

/-- Settles a promise that is pending. -/
def settle (p : ι) (o : Settlement ν ε) (h : Heap ι η ν ε) : Heap ι η ν ε :=
  match h.promises p with
  | .pending reactions =>
    { promises := Function.update h.promises p (.settled o)
      jobs := h.jobs ++ reactions.map (.react · o) }
  | .settled _ => h

/-- `p.then(...)`. -/
def performThen (p : ι) (r : Reaction ι η) (h : Heap ι η ν ε) : Heap ι η ν ε :=
  match h.promises p with
  | .pending reactions => { h with promises := Function.update h.promises p (.pending (reactions ++ [r])) }
  | .settled o => { h with jobs := h.jobs ++ [.react r o] }

/-- Resolves a promise with what its callback came back with. A promise cannot follow itself. -/
def resolve (typeError : ε) (p : ι) (completion : Completion ι ν ε) (h : Heap ι η ν ε) : Heap ι η ν ε :=
  match completion with
  | .returns v => h.settle p (.fulfilled v)
  | .throws e => h.settle p (.rejected e)
  | .returnsPromise q =>
    if q = p then h.settle p (.rejected typeError) else { h with jobs := h.jobs ++ [.follow p q] }

variable {h : Heap ι η ν ε} {p : ι}

theorem settle_of_pending {rs : List (Reaction ι η)} (hp : h.promises p = .pending rs) (o : Settlement ν ε) :
    h.settle p o =
      { promises := Function.update h.promises p (.settled o), jobs := h.jobs ++ rs.map (.react · o) } := by
  unfold settle
  rw [hp]

theorem performThen_of_pending {rs : List (Reaction ι η)} (hp : h.promises p = .pending rs) (r : Reaction ι η) :
    h.performThen p r = { h with promises := Function.update h.promises p (.pending (rs ++ [r])) } := by
  unfold performThen
  rw [hp]

theorem performThen_of_settled {o : Settlement ν ε} (hp : h.promises p = .settled o) (r : Reaction ι η) :
    h.performThen p r = { h with jobs := h.jobs ++ [.react r o] } := by
  unfold performThen
  rw [hp]

omit [DecidableEq ι] in
theorem exists_pending (hp : (h.promises p).settlement? = none) : ∃ rs, h.promises p = .pending rs := by
  cases hstate : h.promises p with
  | pending rs => exact ⟨rs, rfl⟩
  | settled o =>
    rw [hstate] at hp
    cases hp

omit [DecidableEq ι] in
theorem eq_settled {o : Settlement ν ε} (hp : (h.promises p).settlement? = some o) : h.promises p = .settled o := by
  cases hstate : h.promises p with
  | pending rs =>
    rw [hstate] at hp
    cases hp
  | settled o' =>
    rw [hstate] at hp
    rw [Option.some.inj hp]

theorem settlement_settle {o : Settlement ν ε} (hp : (h.promises p).settlement? = none) (q : ι) :
    ((h.settle p o).promises q).settlement? = if q = p then some o else (h.promises q).settlement? := by
  obtain ⟨rs, hrs⟩ := exists_pending hp
  rw [settle_of_pending hrs]
  dsimp only
  by_cases hqp : q = p
  · subst hqp
    rw [if_pos rfl, Function.update_self]
    rfl
  · rw [if_neg hqp, Function.update_of_ne hqp]

/-- A `then` settles nothing. -/
theorem settlement_performThen (p : ι) (r : Reaction ι η) (q : ι) :
    ((h.performThen p r).promises q).settlement? = (h.promises q).settlement? := by
  cases hstate : h.promises p with
  | settled o => rw [performThen_of_settled hstate]
  | pending rs =>
    rw [performThen_of_pending hstate]
    dsimp only
    by_cases hqp : q = p
    · subst hqp
      rw [Function.update_self, hstate]
      rfl
    · rw [Function.update_of_ne hqp]

end Heap

/-! ## Owners -/

/-- The jobs and the reactions to each pending promise, owner by owner. -/
structure Tracks {ι η ν ε κ : Type} [DecidableEq κ] (owner : ι → κ) (h : Heap ι η ν ε)
    (jobs : κ → List (Job ι η ν ε)) (reactions : κ → ι → List (Reaction ι η)) : Prop where
  jobs : ∀ k, h.jobs.filter (fun j => owner j.derived = k) = jobs k
  reactions : ∀ p rs, h.promises p = .pending rs →
    ∀ k, rs.filter (fun r => owner r.derived = k) = reactions k p

namespace Tracks

variable {ι η ν ε κ : Type} [DecidableEq ι] [DecidableEq κ] {owner : ι → κ} {h : Heap ι η ν ε}
  {jobs jobs' : κ → List (Job ι η ν ε)} {reactions reactions' : κ → ι → List (Reaction ι η)}

omit [DecidableEq ι] in
theorem congr (ht : Tracks owner h jobs reactions) (hjobs : ∀ k, jobs k = jobs' k)
    (hreactions : ∀ p, (h.promises p).settlement? = none → ∀ k, reactions k p = reactions' k p) :
    Tracks owner h jobs' reactions' := by
  refine ⟨fun k => (ht.jobs k).trans (hjobs k), fun p rs hp k => ?_⟩
  have hpending : (h.promises p).settlement? = none := by rw [hp]; rfl
  exact (ht.reactions p rs hp k).trans (hreactions p hpending k)

omit [DecidableEq ι] in
theorem mem_jobs (ht : Tracks owner h jobs reactions) {j : Job ι η ν ε} (hj : j ∈ h.jobs) :
    j ∈ jobs (owner j.derived) := by
  rw [← ht.jobs]
  exact List.mem_filter.mpr ⟨hj, by simp⟩

omit [DecidableEq ι] in
/-- The first job is taken. -/
theorem pop (ht : Tracks owner h jobs reactions) {j : Job ι η ν ε} {rest : List (Job ι η ν ε)}
    (hj : h.jobs = j :: rest) :
    Tracks owner { h with jobs := rest }
      (Function.update jobs (owner j.derived) (jobs (owner j.derived)).tail) reactions := by
  refine ⟨fun k => ?_, ht.reactions⟩
  have hk := ht.jobs k
  rw [hj] at hk
  by_cases heq : owner j.derived = k
  · subst heq
    rw [List.filter_cons_of_pos (by simp)] at hk
    rw [Function.update_self, ← hk]
    rfl
  · rw [List.filter_cons_of_neg (by simpa using heq)] at hk
    rw [Function.update_of_ne (Ne.symm heq), ← hk]

omit [DecidableEq ι] in
/-- A job is added. -/
theorem push (ht : Tracks owner h jobs reactions) (j : Job ι η ν ε) :
    Tracks owner { h with jobs := h.jobs ++ [j] }
      (Function.update jobs (owner j.derived) (jobs (owner j.derived) ++ [j])) reactions := by
  refine ⟨fun k => ?_, ht.reactions⟩
  by_cases heq : owner j.derived = k
  · subst heq
    rw [List.filter_append, ht.jobs, Function.update_self]
    simp
  · rw [List.filter_append, ht.jobs, Function.update_of_ne (Ne.symm heq)]
    simp [heq]

/-- Every reaction to a promise that settles becomes a job. -/
theorem settle (ht : Tracks owner h jobs reactions) {p : ι} (o : Settlement ν ε)
    (hp : (h.promises p).settlement? = none) :
    Tracks owner (h.settle p o) (fun k => jobs k ++ (reactions k p).map (.react · o)) reactions := by
  obtain ⟨rs, hrs⟩ := Heap.exists_pending hp
  rw [Heap.settle_of_pending hrs]
  refine ⟨fun k => ?_, fun q rs' hq k => ?_⟩
  · rw [List.filter_append, ht.jobs, ← ht.reactions p rs hrs, List.filter_map]
    rfl
  · dsimp only at hq
    by_cases hqp : q = p
    · subst hqp
      rw [Function.update_self] at hq
      cases hq
    · rw [Function.update_of_ne hqp] at hq
      exact ht.reactions q rs' hq k

theorem performThen_settled (ht : Tracks owner h jobs reactions) {p : ι} {o : Settlement ν ε}
    (hp : h.promises p = .settled o) (r : Reaction ι η) :
    Tracks owner (h.performThen p r)
      (Function.update jobs (owner r.derived) (jobs (owner r.derived) ++ [.react r o])) reactions := by
  rw [Heap.performThen_of_settled hp]
  exact ht.push (.react r o)

theorem performThen_pending (ht : Tracks owner h jobs reactions) {p : ι} {rs : List (Reaction ι η)}
    (hp : h.promises p = .pending rs) (r : Reaction ι η) :
    Tracks owner (h.performThen p r) jobs
      (fun k q => if k = owner r.derived ∧ q = p then reactions k q ++ [r] else reactions k q) := by
  rw [Heap.performThen_of_pending hp]
  refine ⟨ht.jobs, fun q rs' hq k => ?_⟩
  dsimp only at hq
  by_cases hqp : q = p
  · subst hqp
    rw [Function.update_self] at hq
    cases hq
    rw [List.filter_append, ht.reactions q rs hp]
    by_cases hk : k = owner r.derived
    · rw [if_pos ⟨hk, rfl⟩, hk]
      simp
    · rw [if_neg fun hc => hk hc.1]
      simp [Ne.symm hk]
  · rw [Function.update_of_ne hqp] at hq
    rw [if_neg fun hc => hqp hc.2]
    exact ht.reactions q rs' hq k

/-- A promise that was made settled has no reactions. -/
theorem update_settled (ht : Tracks owner h jobs reactions) (p : ι) (o : Settlement ν ε) :
    Tracks owner { h with promises := Function.update h.promises p (.settled o) } jobs reactions := by
  refine ⟨ht.jobs, fun q rs hq k => ?_⟩
  dsimp only at hq
  by_cases hqp : q = p
  · subst hqp
    rw [Function.update_self] at hq
    cases hq
  · rw [Function.update_of_ne hqp] at hq
    exact ht.reactions q rs hq k

end Tracks

end Writz.Node

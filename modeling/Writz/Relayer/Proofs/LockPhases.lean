import Writz.Relayer.AccountLock

/-!
# Proofs: the phases of a call

Every call of the lock is in one of a few phases, and its phase says which of its promises have settled and which
job or reaction it waits for.
-/

namespace Writz.Relayer.AccountLock

open Node

variable {τ ε : Type}

/-! ## Phases -/

/-- How far a call is. -/
inductive Phase (τ ε : Type) where
  | absent
  /-- The call before it has not settled. -/
  | waiting
  | queued (o : Settled τ ε)
  /-- The callback of the task runs. -/
  | started
  /-- The task came back with a promise: to be followed, followed, and settled. -/
  | adopting (p : PromiseId)
  | following (p : PromiseId)
  | passing (p : PromiseId) (o : Settled τ ε)
  /-- `run` has settled. -/
  | done (o : Settled τ ε)
  | closing (o : Settled τ ε)
  /-- `settled` has settled. -/
  | passed (o o' : Settled τ ε)
  | forgotten (o o' : Settled τ ε)

/-- `run` follows another promise. -/
def passReaction (n : Nat) : Reaction PromiseId Handler :=
  { onFulfilled := none, onRejected := none, derived := .run n }

/-- The call that a promise belongs to. -/
def owner : PromiseId → Nat
  | .initial n | .run n | .settled n | .forgotten n | .outside n => n

namespace Phase

/-- The job that a call waits for. -/
def jobs (n : Nat) : Phase τ ε → List (Job PromiseId Handler (Option τ) (Reason ε))
  | queued o => [.react (taskReaction n) o]
  | adopting p => [.follow (.run n) p]
  | passing _ o => [.react (passReaction n) o]
  | done o => [.react (catchReaction n) o]
  | passed _ o' => [.react (forgetReaction n) o']
  | absent | waiting | started | following _ | closing _ | forgotten _ _ => []

/-- The reactions of a call to its own promises, before `run` settles. -/
def ownReactions (n : Nat) (p : PromiseId) : List (Reaction PromiseId Handler) :=
  if p = .run n then [catchReaction n] else if p = .settled n then [forgetReaction n] else []

/-- The reactions of a call to a pending promise. -/
def reactions (previous : Option PromiseId) (n : Nat) (p : PromiseId) : Phase τ ε → List (Reaction PromiseId Handler)
  | waiting => if previous = some p then [taskReaction n] else ownReactions n p
  | following q => if q = p then [passReaction n] else ownReactions n p
  | queued _ | started | adopting _ | passing _ _ => ownReactions n p
  | done _ | closing _ => if p = .settled n then [forgetReaction n] else []
  | absent | passed _ _ | forgotten _ _ => []

/-- The settlement of `run`. -/
def run? : Phase τ ε → Option (Settled τ ε)
  | done o | closing o | passed o _ | forgotten o _ => some o
  | absent | waiting | queued _ | started | adopting _ | following _ | passing _ _ => none

/-- The settlement of `settled`. -/
def settled? : Phase τ ε → Option (Settled τ ε)
  | passed _ o' | forgotten _ o' => some o'
  | absent | waiting | queued _ | started | adopting _ | following _ | passing _ _ | done _ | closing _ => none

/-- The phase after the job of a call was taken. -/
def pop : Phase τ ε → Phase τ ε
  | queued _ | adopting _ | passing _ _ => started
  | done o => closing o
  | passed o o' => forgotten o o'
  | ph => ph

/-- The phase after a promise has settled. -/
def settle (previous : Option PromiseId) (n : Nat) (p : PromiseId) (o : Settled τ ε) : Phase τ ε → Phase τ ε
  | waiting => if previous = some p then queued o else waiting
  | following q => if q = p then passing q o else following q
  | started => if p = .run n then done o else started
  | closing o' => if p = .settled n then passed o' o else closing o'
  | ph => ph

section Lemmas

variable (previous : Option PromiseId) (n : Nat) (p : PromiseId) (o : Settled τ ε) (ph : Phase τ ε)

attribute [local simp] settle pop jobs reactions run? settled?

theorem jobs_pop : ph.pop.jobs n = [] := by
  cases ph <;> rfl

theorem reactions_pop : ph.pop.reactions previous n p = ph.reactions previous n p := by
  cases ph <;> rfl

theorem run_pop : ph.pop.run? = ph.run? := by
  cases ph <;> rfl

theorem settled_pop : ph.pop.settled? = ph.settled? := by
  cases ph <;> rfl

theorem pop_eq_waiting : ph.pop = waiting ↔ ph = waiting := by
  cases ph <;> simp

theorem pop_eq_following : ph.pop = following p ↔ ph = following p := by
  cases ph <;> simp

/-- Nobody is left to settle or follow a promise after its job was taken. -/
theorem pop_ne : ph.pop ≠ adopting p ∧ ph.pop ≠ passing p o := by
  cases ph <;> simp

/-- `run` settles when the callback is over, `settled` after it. -/
structure Settles (n : Nat) (p : PromiseId) (ph : Phase τ ε) : Prop where
  run : p = .run n → ph = started
  settled : p = .settled n → ∃ o, ph = closing o

variable {n p ph} {q : PromiseId}

theorem Settles.ownReactions (h : Settles n p ph) (hs : ph ≠ started) (hc : ∀ o, ph ≠ closing o) :
    ownReactions n p = [] := by
  have hrun : p ≠ .run n := fun hp => hs (h.run hp)
  have hsettled : p ≠ .settled n := by
    intro hp
    obtain ⟨o, ho⟩ := h.settled hp
    exact hc o ho
  rw [Phase.ownReactions, if_neg hrun, if_neg hsettled]

/-- The reactions of a call to a promise that settles are its jobs. -/
theorem jobs_settle (h : Settles n p ph) :
    (ph.settle previous n p o).jobs n = ph.jobs n ++ (ph.reactions previous n p).map (.react · o) := by
  cases ph with
  | waiting =>
    have hown := h.ownReactions (by simp) (by simp)
    by_cases hp : previous = some p
    · simp [hp]
    · simp [hp, hown]
  | following q =>
    have hown := h.ownReactions (by simp) (by simp)
    by_cases hp : q = p
    · simp [hp]
    · simp [hp, hown]
  | started =>
    have hsettled : p ≠ .settled n := by
      intro hp
      obtain ⟨o, ho⟩ := h.settled hp
      cases ho
    by_cases hp : p = .run n
    · simp [Phase.ownReactions, hp]
    · simp [Phase.ownReactions, hp, hsettled]
  | closing o' =>
    by_cases hp : p = .settled n
    · simp [hp]
    · simp [hp]
  | done o' =>
    have hsettled : p ≠ .settled n := by
      intro hp
      obtain ⟨o, ho⟩ := h.settled hp
      cases ho
    simp [hsettled]
  | queued o' | adopting q | passing q o' =>
    have hown := h.ownReactions (by simp) (by simp)
    simp [hown]
  | absent | passed o' o'' | forgotten o' o'' => simp

/-- The reactions to other promises stay. -/
theorem reactions_settle (hq : q ≠ p) :
    (ph.settle previous n p o).reactions previous n q = ph.reactions previous n q := by
  cases ph with
  | waiting =>
    by_cases hp : previous = some p
    · simp [hp, Ne.symm hq]
    · simp [hp]
  | following p' =>
    by_cases hp : p' = p
    · simp [hp, Ne.symm hq]
    · simp [hp]
  | started =>
    by_cases hp : p = .run n
    · subst hp
      simp [Phase.ownReactions, hq]
    · simp [hp]
  | closing o' =>
    by_cases hp : p = .settled n
    · subst hp
      simp [hq]
    · simp [hp]
  | absent | queued o' | adopting p' | passing p' o' | done o' | passed o' o'' | forgotten o' o'' => rfl

theorem run_settle (h : Settles n p ph) :
    (ph.settle previous n p o).run? = if .run n = p then some o else ph.run? := by
  by_cases hp : p = .run n
  · subst hp
    rw [h.run rfl, if_pos rfl]
    simp
  · rw [if_neg (Ne.symm hp)]
    cases ph <;> simp only [settle, run?, hp, if_false] <;> split_ifs <;> rfl

theorem settled_settle (h : Settles n p ph) :
    (ph.settle previous n p o).settled? = if .settled n = p then some o else ph.settled? := by
  by_cases hp : p = .settled n
  · subst hp
    obtain ⟨o', ho'⟩ := h.settled rfl
    rw [ho', if_pos rfl]
    simp
  · rw [if_neg (Ne.symm hp)]
    cases ph <;> simp only [settle, settled?, hp, if_false] <;> split_ifs <;> rfl

variable (n p ph)

theorem settle_eq_waiting :
    ph.settle previous n p o = waiting ↔ ph = waiting ∧ previous ≠ some p := by
  cases ph <;> simp <;> split_ifs <;> simp_all

theorem settle_eq_following (q : PromiseId) :
    ph.settle previous n p o = following q ↔ ph = following q ∧ q ≠ p := by
  cases ph <;> simp <;> grind

theorem settle_eq_adopting (q : PromiseId) :
    ph.settle previous n p o = adopting q ↔ ph = adopting q := by
  cases ph <;> simp <;> split_ifs <;> simp_all

theorem settle_eq_passing (q : PromiseId) (o' : Settled τ ε) :
    ph.settle previous n p o = passing q o' ↔ ph = passing q o' ∨ ph = following p ∧ q = p ∧ o' = o := by
  cases ph <;> simp <;> grind

end Lemmas

end Phase

/-! ## The promises of the calls -/

def previousOf (calls : List Call) (n : Nat) : Option PromiseId := calls[n]?.map Call.previous

/-- The promises and the microtasks are those of the phases. -/
structure HeapInv (h : Promises τ ε) (calls : List Call) (ph : Nat → Phase τ ε) : Prop where
  tracks : Tracks owner h (fun n => (ph n).jobs n) (fun n p => (ph n).reactions (previousOf calls n) n p)
  runs : ∀ n, (h.promises (.run n)).settlement? = (ph n).run?
  settleds : ∀ n, (h.promises (.settled n)).settlement? = (ph n).settled?
  waiting : ∀ n p, previousOf calls n = some p → (ph n = .waiting ↔ (h.promises p).settlement? = none)
  adopting : ∀ n p, ph n = .adopting p → p ≠ .run n
  following : ∀ n p, ph n = .following p → p ≠ .run n ∧ (h.promises p).settlement? = none
  passing : ∀ n p o, ph n = .passing p o → (h.promises p).settlement? = some o

namespace HeapInv

variable {h : Promises τ ε} {calls : List Call} {ph : Nat → Phase τ ε} {n : Nat} {p : PromiseId}

/-- The first microtask is taken. -/
theorem pop (hi : HeapInv h calls ph) {j : Job PromiseId Handler (Option τ) (Reason ε)}
    {rest : List (Job PromiseId Handler (Option τ) (Reason ε))} (hjobs : h.jobs = j :: rest)
    (hn : owner j.derived = n) (hj : (ph n).jobs n = [j]) :
    HeapInv { h with jobs := rest } calls (Function.update ph n (ph n).pop) := by
  subst hn
  have hpop : ∀ k, Function.update ph (owner j.derived) (ph (owner j.derived)).pop k = ph k ∨
      k = owner j.derived ∧ Function.update ph (owner j.derived) (ph (owner j.derived)).pop k = (ph k).pop := by
    intro k
    by_cases hk : k = owner j.derived
    · subst hk
      exact .inr ⟨rfl, Function.update_self ..⟩
    · exact .inl (Function.update_of_ne hk ..)
  refine ⟨(hi.tracks.pop hjobs).congr ?_ ?_, ?_, ?_, ?_, ?_, ?_, ?_⟩
  · intro k
    by_cases hk : k = owner j.derived
    · subst hk
      rw [Function.update_self, Function.update_self, hj, Phase.jobs_pop]
      rfl
    · rw [Function.update_of_ne hk, Function.update_of_ne hk]
  · intro p _ k
    rcases hpop k with hk | ⟨-, hk⟩
    · rw [hk]
    · rw [hk, Phase.reactions_pop]
  · intro k
    rcases hpop k with hk | ⟨-, hk⟩
    · rw [hk, hi.runs]
    · rw [hk, Phase.run_pop, hi.runs]
  · intro k
    rcases hpop k with hk | ⟨-, hk⟩
    · rw [hk, hi.settleds]
    · rw [hk, Phase.settled_pop, hi.settleds]
  · intro k p hp
    rcases hpop k with hk | ⟨-, hk⟩
    · rw [hk, hi.waiting k p hp]
    · rw [hk, Phase.pop_eq_waiting, hi.waiting k p hp]
  · intro k p hp
    rcases hpop k with hk | ⟨-, hk⟩
    · exact hi.adopting k p (hk ▸ hp)
    · exact absurd (hk ▸ hp) (Phase.pop_ne p (.fulfilled none) (ph k)).1
  · intro k p hp
    rcases hpop k with hk | ⟨-, hk⟩
    · exact hi.following k p (hk ▸ hp)
    · exact hi.following k p ((Phase.pop_eq_following p _).mp (hk ▸ hp))
  · intro k p o hp
    rcases hpop k with hk | ⟨-, hk⟩
    · exact hi.passing k p o (hk ▸ hp)
    · exact absurd (hk ▸ hp) (Phase.pop_ne p o (ph k)).2

/-- A pending promise settles: its reactions are jobs. -/
theorem settle (hi : HeapInv h calls ph) (hp : (h.promises p).settlement? = none)
    (hown : ∀ n, Phase.Settles n p (ph n)) (o : Settled τ ε) :
    HeapInv (h.settle p o) calls (fun n => (ph n).settle (previousOf calls n) n p o) := by
  have hsettlement := Heap.settlement_settle (o := o) hp
  refine ⟨(hi.tracks.settle o hp).congr ?_ ?_, ?_, ?_, ?_, ?_, ?_, ?_⟩
  · exact fun k => (Phase.jobs_settle _ o (hown k)).symm
  · intro q hq k
    have hqp : q ≠ p := by
      rintro rfl
      rw [hsettlement, if_pos rfl] at hq
      cases hq
    exact (Phase.reactions_settle _ o hqp).symm
  · intro k
    rw [hsettlement, Phase.run_settle _ o (hown k), hi.runs]
  · intro k
    rw [hsettlement, Phase.settled_settle _ o (hown k), hi.settleds]
  · intro k q hq
    rw [Phase.settle_eq_waiting, hsettlement, hi.waiting k q hq, hq]
    by_cases hqp : q = p
    · simp [hqp]
    · simp [hqp]
  · intro k q hq
    exact hi.adopting k q ((Phase.settle_eq_adopting ..).mp hq)
  · intro k q hq
    obtain ⟨hq, hqp⟩ := (Phase.settle_eq_following ..).mp hq
    obtain ⟨hne, hpending⟩ := hi.following k q hq
    exact ⟨hne, by rw [hsettlement, if_neg hqp, hpending]⟩
  · intro k q o' hq
    rw [hsettlement]
    rcases (Phase.settle_eq_passing ..).mp hq with hq | ⟨-, rfl, rfl⟩
    · have hsettled := hi.passing k q o' hq
      have hqp : q ≠ p := by
        rintro rfl
        rw [hp] at hsettled
        cases hsettled
      rw [if_neg hqp, hsettled]
    · rw [if_pos rfl]

/-- The phases of a task that came back with a promise. -/
inductive Resolving (h : Promises τ ε) (n : Nat) : Phase τ ε → Prop where
  | adopting {p : PromiseId} (hp : p ≠ .run n) : Resolving h n (.adopting p)
  | following {p : PromiseId} (hp : p ≠ .run n) (hpending : (h.promises p).settlement? = none) :
    Resolving h n (.following p)
  | passing {p : PromiseId} {o : Settled τ ε} (hsettled : (h.promises p).settlement? = some o) :
    Resolving h n (.passing p o)

/-- One call goes on, and nothing settles. -/
theorem resolving (hi : HeapInv h calls ph) (hn : ph n = .started) {h' : Promises τ ε} {new : Phase τ ε}
    (hsame : ∀ q, (h'.promises q).settlement? = (h.promises q).settlement?) (hnew : Resolving h n new)
    (ht : Tracks owner h' (fun k => (Function.update ph n new k).jobs k)
      (fun k p => (Function.update ph n new k).reactions (previousOf calls k) k p)) :
    HeapInv h' calls (Function.update ph n new) := by
  have hother : ∀ k, k ≠ n → Function.update ph n new k = ph k := fun k hk => Function.update_of_ne hk ..
  have hself : Function.update ph n new n = new := Function.update_self ..
  have hrun : new.run? = none ∧ new.settled? = none ∧ new ≠ .waiting := by
    cases hnew <;> exact ⟨rfl, rfl, by simp⟩
  refine ⟨ht, fun k => ?_, fun k => ?_, fun k q hq => ?_, fun k q hq => ?_, fun k q hq => ?_, fun k q o hq => ?_⟩
  all_goals by_cases hk : k = n
  · subst hk
    rw [hsame, hself, hi.runs, hn, hrun.1]
    rfl
  · rw [hsame, hother k hk, hi.runs]
  · subst hk
    rw [hsame, hself, hi.settleds, hn, hrun.2.1]
    rfl
  · rw [hsame, hother k hk, hi.settleds]
  · subst hk
    have hwaiting := hi.waiting k q hq
    rw [hn] at hwaiting
    rw [hsame, hself, ← hwaiting]
    simp [hrun.2.2]
  · rw [hsame, hother k hk, hi.waiting k q hq]
  · subst hk
    rw [hself] at hq
    subst hq
    cases hnew with
    | adopting hp => exact hp
  · exact hi.adopting k q (hother k hk ▸ hq)
  · subst hk
    rw [hself] at hq
    subst hq
    cases hnew with
    | following hp hpending => exact ⟨hp, by rw [hsame, hpending]⟩
  · rw [hsame]
    exact hi.following k q (hother k hk ▸ hq)
  · subst hk
    rw [hself] at hq
    subst hq
    cases hnew with
    | passing hsettled => rw [hsame, hsettled]
  · rw [hsame]
    exact hi.passing k q o (hother k hk ▸ hq)

/-- The task came back with a promise, which `run` is to follow. -/
theorem push (hi : HeapInv h calls ph) (hn : ph n = .started) (hp : p ≠ .run n) :
    HeapInv { h with jobs := h.jobs ++ [.follow (.run n) p] } calls (Function.update ph n (.adopting p)) := by
  refine hi.resolving hn (fun q => rfl) (.adopting hp) ((hi.tracks.push _).congr ?_ ?_)
  · intro k
    change Function.update _ n _ k = _
    by_cases hk : k = n
    · subst hk
      rw [Function.update_self, Function.update_self]
      change (ph k).jobs k ++ _ = _
      rw [hn]
      rfl
    · rw [Function.update_of_ne hk, Function.update_of_ne hk]
  · intro q _ k
    by_cases hk : k = n
    · subst hk
      rw [Function.update_self, hn]
      rfl
    · rw [Function.update_of_ne hk]

/-- `run` follows the promise. -/
theorem follow (hi : HeapInv h calls ph) (hn : ph n = .started) (hp : p ≠ .run n) (hp' : p ≠ .settled n) :
    ∃ new, (new = .following p ∨ ∃ o, new = .passing p o) ∧
      HeapInv (h.performThen p (passReaction n)) calls (Function.update ph n new) := by
  have hsame := Heap.settlement_performThen (h := h) p (passReaction n)
  cases hstate : h.promises p with
  | settled o =>
    have hsettled : (h.promises p).settlement? = some o := by
      rw [hstate]
      rfl
    refine ⟨_, .inr ⟨o, rfl⟩, hi.resolving hn hsame (.passing hsettled) ?_⟩
    refine (hi.tracks.performThen_settled hstate (passReaction n)).congr ?_ ?_
    · intro k
      change Function.update _ n _ k = _
      by_cases hk : k = n
      · subst hk
        rw [Function.update_self, Function.update_self]
        change (ph k).jobs k ++ _ = _
        rw [hn]
        rfl
      · rw [Function.update_of_ne hk, Function.update_of_ne hk]
    · intro q _ k
      by_cases hk : k = n
      · subst hk
        rw [Function.update_self, hn]
        rfl
      · rw [Function.update_of_ne hk]
  | pending rs =>
    have hpending : (h.promises p).settlement? = none := by
      rw [hstate]
      rfl
    refine ⟨_, .inl rfl, hi.resolving hn hsame (.following hp hpending) ?_⟩
    refine (hi.tracks.performThen_pending hstate (passReaction n)).congr ?_ ?_
    · intro k
      by_cases hk : k = n
      · subst hk
        rw [Function.update_self, hn]
        rfl
      · rw [Function.update_of_ne hk]
    · intro q _ k
      change (if k = n ∧ q = p then _ else _) = _
      by_cases hk : k = n
      · subst hk
        rw [Function.update_self, hn]
        by_cases hq : q = p
        · simp [Phase.reactions, Phase.ownReactions, hq, hp, hp']
        · simp [Phase.reactions, hq, Ne.symm hq]
      · rw [Function.update_of_ne hk, if_neg fun hc => hk hc.1]

theorem previousOf_append (calls : List Call) (call : Call) (k : Nat) :
    previousOf (calls ++ [call]) k = if k = calls.length then some call.previous else previousOf calls k := by
  unfold previousOf
  rw [List.getElem?_append]
  split_ifs with hlt heq heq
  · omega
  · rfl
  · rw [heq, Nat.sub_self]
    rfl
  · rw [List.getElem?_eq_none (by simp; omega), List.getElem?_eq_none (by omega)]

/-- `Promise.resolve()` is made for a call. -/
theorem resolveInitial (hi : HeapInv h calls ph) (hprevious : ∀ k, previousOf calls k ≠ some (.initial n))
    (hfollow : ∀ k, ph k ≠ .following (.initial n) ∧ ∀ o, ph k ≠ .passing (.initial n) o) :
    HeapInv (promiseResolve (.initial n) h) calls ph := by
  have hsame : ∀ q, q ≠ .initial n → (promiseResolve (.initial n) h).promises q = h.promises q := fun q hq =>
    Function.update_of_ne hq ..
  refine ⟨hi.tracks.update_settled (.initial n) (.fulfilled none), fun k => ?_, fun k => ?_, fun k q hq => ?_, hi.adopting,
    fun k q hq => ?_, fun k q o hq => ?_⟩
  · rw [hsame _ (by simp), hi.runs]
  · rw [hsame _ (by simp), hi.settleds]
  · have hne : q ≠ .initial n := by
      rintro rfl
      exact hprevious k hq
    rw [hsame q hne, hi.waiting k q hq]
  · have hne : q ≠ .initial n := by
      rintro rfl
      exact (hfollow k).1 hq
    rw [hsame q hne]
    exact hi.following k q hq
  · have hne : q ≠ .initial n := by
      rintro rfl
      exact (hfollow k).2 o hq
    rw [hsame q hne]
    exact hi.passing k q o hq

/-- The phase of a new call. -/
def newPhase (h : Promises τ ε) (p : PromiseId) : Phase τ ε :=
  match (h.promises p).settlement? with
  | none => .waiting
  | some o => .queued o

/-- A call chains its task to the promise before it. -/
theorem call (hi : HeapInv h calls ph) (habsent : ph calls.length = .absent) (account : Text)
    (hrun : p ≠ .run calls.length) (hsettled : p ≠ .settled calls.length) :
    HeapInv (((h.performThen p (taskReaction calls.length)).performThen (.run calls.length)
        (catchReaction calls.length)).performThen (.settled calls.length) (forgetReaction calls.length))
      (calls ++ [{ account, previous := p }]) (Function.update ph calls.length (newPhase h p)) := by
  obtain ⟨n, hn⟩ : ∃ n, n = calls.length := ⟨_, rfl⟩
  rw [← hn] at habsent hrun hsettled ⊢
  have hother : ∀ k, k ≠ n → Function.update ph n (newPhase h p) k = ph k := fun k hk => Function.update_of_ne hk ..
  have hself : Function.update ph n (newPhase h p) n = newPhase h p := Function.update_self ..
  have hprevious : ∀ k, k ≠ n → previousOf (calls ++ [{ account, previous := p }]) k = previousOf calls k := by
    intro k hk
    rw [previousOf_append, if_neg (hn ▸ hk)]
  have hprevious' : previousOf (calls ++ [{ account, previous := p }]) n = some p := by
    rw [previousOf_append, if_pos hn]
  have hnone : (newPhase h p).run? = none ∧ (newPhase h p).settled? = none := by
    unfold newPhase
    cases (h.promises p).settlement? <;> exact ⟨rfl, rfl⟩
  have hsame : ∀ q, ((((h.performThen p (taskReaction n)).performThen (.run n) (catchReaction n)).performThen
      (.settled n) (forgetReaction n)).promises q).settlement? = (h.promises q).settlement? := by
    intro q
    rw [Heap.settlement_performThen, Heap.settlement_performThen, Heap.settlement_performThen]
  have htracks : Tracks owner (((h.performThen p (taskReaction n)).performThen (.run n) (catchReaction n)).performThen
      (.settled n) (forgetReaction n)) (fun k => (Function.update ph n (newPhase h p) k).jobs k)
      (fun k q => (Function.update ph n (newPhase h p) k).reactions
        (previousOf (calls ++ [{ account, previous := p }]) k) k q) := by
    have hrunPending : ((h.performThen p (taskReaction n)).promises (.run n)).settlement? = none := by
      rw [Heap.settlement_performThen, hi.runs, habsent]
      rfl
    have hsettledPending : (((h.performThen p (taskReaction n)).performThen (.run n) (catchReaction n)).promises
        (.settled n)).settlement? = none := by
      rw [Heap.settlement_performThen, Heap.settlement_performThen, hi.settleds, habsent]
      rfl
    obtain ⟨rs, hrs⟩ := Heap.exists_pending hrunPending
    obtain ⟨rs', hrs'⟩ := Heap.exists_pending hsettledPending
    cases hstate : h.promises p with
    | settled o =>
      have hnew : newPhase h p = .queued o := by
        unfold newPhase
        rw [hstate]
        rfl
      refine (((hi.tracks.performThen_settled hstate (taskReaction n)).performThen_pending hrs
        (catchReaction n)).performThen_pending hrs' (forgetReaction n)).congr (fun k => ?_) fun q _ k => ?_
      · change Function.update _ n _ k = _
        by_cases hk : k = n
        · rw [hk, Function.update_self, hself, hnew]
          change (ph n).jobs n ++ _ = _
          rw [habsent]
          rfl
        · rw [Function.update_of_ne hk, hother k hk]
      · change (if k = n ∧ q = .settled n then (if k = n ∧ q = .run n then _ else _) ++ _
          else (if k = n ∧ q = .run n then _ else _)) = _
        by_cases hk : k = n
        · rw [hk, hself, hnew, habsent]
          by_cases hq : q = .settled n
          · simp [hq, Phase.reactions, Phase.ownReactions]
          · by_cases hq' : q = .run n <;> simp [hq, hq', Phase.reactions, Phase.ownReactions]
        · rw [hprevious k hk, hother k hk]
          simp [hk]
    | pending ps =>
      have hnew : newPhase h p = .waiting := by
        unfold newPhase
        rw [hstate]
        rfl
      refine (((hi.tracks.performThen_pending hstate (taskReaction n)).performThen_pending hrs
        (catchReaction n)).performThen_pending hrs' (forgetReaction n)).congr (fun k => ?_) fun q _ k => ?_
      · by_cases hk : k = n
        · rw [hk, hself, hnew, habsent]
          rfl
        · rw [hother k hk]
      · change (if k = n ∧ q = .settled n then (if k = n ∧ q = .run n then (if k = n ∧ q = p then _ else _) ++ _
          else (if k = n ∧ q = p then _ else _)) ++ _ else (if k = n ∧ q = .run n then
            (if k = n ∧ q = p then _ else _) ++ _ else (if k = n ∧ q = p then _ else _))) = _
        by_cases hk : k = n
        · rw [hk, hself, hnew, habsent, hprevious']
          by_cases hq : q = p
          · simp [hq, hrun, hsettled, Phase.reactions]
          · by_cases hq' : q = .settled n
            · simp [hq', Ne.symm hsettled, hsettled, Phase.reactions, Phase.ownReactions]
            · by_cases hq'' : q = .run n
              · simp [hq'', hrun, Ne.symm hrun, Phase.reactions, Phase.ownReactions]
              · simp [hq, hq', hq'', Ne.symm hq, Phase.reactions, Phase.ownReactions]
        · rw [hprevious k hk, hother k hk]
          simp [hk]
  refine ⟨htracks, fun k => ?_, fun k => ?_, fun k q hq => ?_, fun k q hq => ?_, fun k q hq => ?_, fun k q o hq => ?_⟩
  all_goals by_cases hk : k = n
  · rw [hk, hsame, hself, hi.runs, habsent, hnone.1]
    rfl
  · rw [hsame, hother k hk, hi.runs]
  · rw [hk, hsame, hself, hi.settleds, habsent, hnone.2]
    rfl
  · rw [hsame, hother k hk, hi.settleds]
  · rw [hk, hprevious'] at hq
    obtain rfl := Option.some.inj hq
    rw [hk, hsame, hself]
    unfold newPhase
    cases (h.promises p).settlement? <;> simp
  · rw [hprevious k hk] at hq
    rw [hsame, hother k hk, hi.waiting k q hq]
  · rw [hk, hself] at hq
    unfold newPhase at hq
    split at hq <;> cases hq
  · exact hi.adopting k q (hother k hk ▸ hq)
  · rw [hk, hself] at hq
    unfold newPhase at hq
    split at hq <;> cases hq
  · rw [hsame]
    exact hi.following k q (hother k hk ▸ hq)
  · rw [hk, hself] at hq
    unfold newPhase at hq
    split at hq <;> cases hq
  · rw [hsame]
    exact hi.passing k q o (hother k hk ▸ hq)

end HeapInv

end Writz.Relayer.AccountLock

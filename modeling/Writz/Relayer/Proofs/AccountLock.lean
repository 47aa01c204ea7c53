import Writz.Relayer.Proofs.LockStages

/-!
# Proofs: one transaction at a time for each account

A call stops waiting when the call before it, of the same account, has settled; so the tasks of an account follow
each other, whatever the order of the microtasks.
-/

namespace Writz.Relayer.AccountLock

open Node

variable {τ ε : Type}

/-! ## Steps -/

theorem Phase.stable_settle {n : Nat} {p : PromiseId} (previous : Option PromiseId) (o : Settled τ ε) {ph : Phase τ ε}
    (h : ph.Stable) : (ph.settle previous n p o).Stable := by
  cases ph with
  | closing o' => exact h.elim
  | passed o' o'' => exact h
  | waiting | following q | started =>
    simp only [settle]
    split_ifs <;> trivial
  | absent | queued o' | adopting q | passing q o' | done o' | forgotten o' o'' => trivial

theorem settling_settle (h : Promises τ ε) (p : PromiseId) (o : Settled τ ε) : LockInv.Settling h (h.settle p o) := by
  intro q o' hq
  cases hp : (h.promises p).settlement? with
  | none =>
    have hqp : q ≠ p := by
      rintro rfl
      rw [hp] at hq
      cases hq
    rw [Heap.settlement_settle hp, if_neg hqp, hq]
  | some o'' =>
    have heq : h.settle p o = h := by
      unfold Heap.settle
      rw [Heap.eq_settled hp]
    rwa [heq]

theorem stage_update (ph : Nat → Phase τ ε) (n : Nat) (new : Phase τ ε) :
    (fun k => (Function.update ph n new k).stage) = Function.update (fun k => (ph k).stage) n new.stage :=
  Function.comp_update Phase.stage ph n new

namespace Inv

variable {s : State τ ε} {ph : Nat → Phase τ ε} {n : Nat}

/-- What a call has behind it once it does not wait: the calls before it, of its account, are over. -/
theorem earlier (hi : Inv s ph) : ∀ {n m : Nat}, m < n → accountOf s m = accountOf s n → n < s.calls.length →
    ph n ≠ .waiting → (ph m).stage.Over := by
  intro n
  induction n using Nat.strong_induction_on with
  | _ n ih =>
    intro m hmn haccount hn hwaiting
    obtain ⟨call, hcall⟩ : ∃ call, s.calls[n]? = some call := ⟨s.calls[n], List.getElem?_eq_getElem hn⟩
    have haccountOf : accountOf s n = some call.account := by rw [accountOf, hcall]; rfl
    have hprevious : previousOf s.calls n = some call.previous := by rw [previousOf, hcall]; rfl
    rcases hi.lock.chain n call hcall with ⟨-, -, hover⟩ | ⟨k, hkn, hk, hkaccount, hbetween⟩
    · exact hover m hmn (haccount.trans haccountOf)
    · have hsettled : (ph k).settled? ≠ none := by
        rw [← hi.heap.settleds, ← hk]
        exact fun hc => hwaiting ((hi.heap.waiting n _ hprevious).mpr hc)
      rcases lt_trichotomy m k with hmk | rfl | hkm
      · refine ih k hkn hmk (haccount.trans (haccountOf.trans hkaccount.symm)) (hkn.trans hn) fun hc => ?_
        rw [hc] at hsettled
        exact hsettled rfl
      · cases hph : ph m <;> rw [hph] at hsettled <;> trivial
      · exact absurd (haccount.trans haccountOf) (hbetween m hkm hmn)

/-- A promise of no call, or the last one of a call, settles. -/
theorem settleOther (hi : Inv s ph) {p : PromiseId} (o : Settled τ ε) (hrun : ∀ n, p ≠ .run n)
    (hsettled : ∀ n, p ≠ .settled n) (hinitial : ∀ n, p ≠ .initial n) :
    ∃ ph', Inv { s with heap := s.heap.settle p o } ph' := by
  cases hp : (s.heap.promises p).settlement? with
  | some o' =>
    have heq : s.heap.settle p o = s.heap := by
      unfold Heap.settle
      rw [Heap.eq_settled hp]
    rw [heq]
    exact ⟨ph, hi⟩
  | none =>
    refine ⟨_, hi.heap.settle hp (fun n => ⟨fun hc => absurd hc (hrun n), fun hc => absurd hc (hsettled n)⟩) o, ?_,
      fun n => Phase.stable_settle _ o (hi.stable n), fun n hn => ?_⟩
    · have hstages : (fun n => ((ph n).settle (previousOf s.calls n) n p o).stage) = fun n => (ph n).stage :=
        funext fun n => Phase.stage_settle _ o (ph n) (hrun n) (hsettled n)
      rw [hstages]
      exact hi.lock.heap (settling_settle _ p o)
    · rw [Heap.settlement_settle hp, if_neg (Ne.symm (hinitial n))]
      exact hi.fresh n hn

theorem initial : Inv (AccountLock.initial (τ := τ) (ε := ε)) fun _ => .absent := by
  refine ⟨⟨⟨fun _ => rfl, fun p rs hp k => ?_⟩, fun _ => rfl, fun _ => rfl, fun n p hp => ?_, ?_, ?_, ?_⟩,
    ⟨fun n => ?_, fun n => ?_, fun _ => rfl, ?_, fun n call hcall => ?_, fun account p hp => ?_, fun account _ n hn => ?_,
      fun n => ?_, fun account => List.Pairwise.nil⟩, fun _ => trivial, fun _ _ => rfl⟩
  · cases hp
    rfl
  · cases hp
  · exact fun n p hp => by cases hp
  · exact fun n p hp => by cases hp
  · exact fun n p o hp => by cases hp
  · simp [Phase.stage, AccountLock.initial]
  · simp [Phase.stage, AccountLock.initial]
  · exact fun n p hp => by cases hp
  · cases hcall
  · cases hp
  · cases hn
  · simp [Phase.stage, AccountLock.initial, Stage.Started]

theorem withAccountLock (hi : Inv s ph) (account : Text) : ∃ ph', Inv (AccountLock.withAccountLock account s) ph' := by
  have habsentStage := (hi.lock.absent s.calls.length).mpr le_rfl
  have habsent : ph s.calls.length = .absent := by
    cases hph : ph s.calls.length <;> rw [hph] at habsentStage <;> first | rfl | cases habsentStage
  have hnew : ∀ h p, (HeapInv.newPhase (τ := τ) (ε := ε) h p).stage = .pending ∧ (HeapInv.newPhase h p).Stable := by
    intro h p
    unfold HeapInv.newPhase
    split <;> exact ⟨rfl, trivial⟩
  have hinv : ∀ (h : Promises τ ε) (p : PromiseId), HeapInv h s.calls ph → LockInv.Settling s.heap h →
      (∀ k, s.calls.length < k → (h.promises (.initial k)).settlement? = none) →
      p ≠ .run s.calls.length → p ≠ .settled s.calls.length →
      (s.queues.get account = some p ∨ s.queues.get account = none ∧ p = .initial s.calls.length ∧
        (h.promises (.initial s.calls.length)).settlement? ≠ none) →
      ∃ ph', Inv { s with
        heap := ((h.performThen p (taskReaction s.calls.length)).performThen (.run s.calls.length)
          (catchReaction s.calls.length)).performThen (.settled s.calls.length) (forgetReaction s.calls.length)
        queues := s.queues.set account (.settled s.calls.length)
        calls := s.calls ++ [{ account, previous := p }] } ph' := by
    intro h p hheap hsettling hfresh hrun hsettled hprevious
    have hsame : ∀ q, ((((h.performThen p (taskReaction s.calls.length)).performThen (.run s.calls.length)
        (catchReaction s.calls.length)).performThen (.settled s.calls.length) (forgetReaction s.calls.length)).promises
          q).settlement? = (h.promises q).settlement? := by
      intro q
      rw [Heap.settlement_performThen, Heap.settlement_performThen, Heap.settlement_performThen]
    refine ⟨_, hheap.call habsent account hrun hsettled, ?_, fun k => ?_, fun k hk => ?_⟩
    · rw [stage_update, (hnew h p).1]
      refine hi.lock.call account (fun q o hq => ?_) ?_
      · rw [hsame]
        exact hsettling q o hq
      · rw [hsame]
        exact hprevious
    · by_cases hk : k = s.calls.length
      · rw [hk, Function.update_self]
        exact (hnew h p).2
      · rw [Function.update_of_ne hk]
        exact hi.stable k
    · rw [hsame]
      refine hfresh k ?_
      simp only [List.length_append, List.length_singleton] at hk
      omega
  cases hentry : s.queues.get account with
  | some p =>
    obtain ⟨m, rfl, hm, -⟩ := hi.lock.entry account p hentry
    have hlt : m < s.calls.length := by
      by_contra hge
      rw [LockInv.accountOf_eq_none.mpr (not_lt.mp hge)] at hm
      cases hm
    have hmne : m ≠ s.calls.length := hlt.ne
    have := hinv s.heap (.settled m) hi.heap (fun _ _ hq => hq) (fun k hk => hi.fresh k hk.le) (by simp)
      (by simpa using hmne) (.inl hentry)
    unfold AccountLock.withAccountLock
    rw [hentry]
    exact this
  | none =>
    have hresolve : HeapInv (promiseResolve (.initial s.calls.length) s.heap) s.calls ph := by
      refine hi.heap.resolveInitial (fun k hk => ?_) fun k => ⟨fun hk => ?_, fun o hk => ?_⟩
      · obtain ⟨call, hcall, hprevious⟩ := Option.map_eq_some_iff.mp hk
        have hlt : k < s.calls.length := (List.getElem?_eq_some_iff.mp hcall).1
        rcases hi.lock.chain k call hcall with ⟨hinitial, -⟩ | ⟨m, -, hsettled, -⟩
        · rw [hinitial] at hprevious
          have := PromiseId.initial.inj hprevious
          omega
        · rw [hsettled] at hprevious
          cases hprevious
      · exact hi.lock.exposed k (.initial s.calls.length) (by rw [hk]; rfl)
      · exact hi.lock.exposed k (.initial s.calls.length) (by rw [hk]; rfl)
    have hother : ∀ q, q ≠ .initial s.calls.length →
        (promiseResolve (.initial s.calls.length) s.heap).promises q = s.heap.promises q := fun q hq =>
      Function.update_of_ne hq ..
    have hself : ((promiseResolve (.initial s.calls.length) s.heap).promises (.initial s.calls.length)).settlement? =
        some (.fulfilled none) := by
      unfold promiseResolve
      dsimp only
      rw [Function.update_self]
      rfl
    have := hinv (promiseResolve (.initial s.calls.length) s.heap) (.initial s.calls.length) hresolve
      (fun q o hq => by
        have hne : q ≠ .initial s.calls.length := by
          rintro rfl
          rw [hi.fresh _ le_rfl] at hq
          cases hq
        rw [hother q hne, hq])
      (fun k hk => by
        rw [hother _ (by simpa using hk.ne'), hi.fresh k hk.le])
      (by simp) (by simp) (.inr ⟨hentry, rfl, by rw [hself]; simp⟩)
    unfold AccountLock.withAccountLock
    rw [hentry]
    exact this

/-- `run` of a task settles. -/
theorem runSettles (hi : Inv s ph) {ph₁ : Nat → Phase τ ε} {h : Promises τ ε} (hheap : HeapInv h s.calls ph₁)
    (hpromises : h.promises = s.heap.promises) (hn : ph₁ n = .started) (hother : ∀ k, k ≠ n → ph₁ k = ph k)
    (hold : (ph n).stage.Started) (hold' : ¬ (ph n).stage.Over) {o : Settled τ ε} {s' : State τ ε}
    (hs' : s'.heap = h.settle (.run n) o) (hcalls : s'.calls = s.calls) (hqueues : s'.queues = s.queues)
    (hstarts : s'.starts = s.starts) (hresults : ∀ k, k ≠ n → s'.results k = s.results k)
    (hrunning : s'.running = none) (hrunning' : ∀ k, k ≠ n → s.running ≠ some k)
    (hresult : taskSettlement s' n = some o) : ∃ ph', Inv s' ph' := by
  have hp : (h.promises (.run n)).settlement? = none := by
    rw [hheap.runs, hn]
    rfl
  have howns : ∀ k, Phase.Settles k (.run n) (ph₁ k) := by
    refine fun k => ⟨fun hk => ?_, fun hk => by cases hk⟩
    rw [← PromiseId.run.inj hk]
    exact hn
  have hphases : ∀ k, k ≠ n → ((ph₁ k).settle (previousOf s.calls k) k (.run n) o).stage = (ph k).stage := by
    intro k hk
    rw [Phase.stage_settle _ o _ (by simpa using hk.symm) (by simp), hother k hk]
  have hphase : (ph₁ n).settle (previousOf s.calls n) n (.run n) o = .done o := by
    rw [hn]
    exact if_pos rfl
  have hsettling : LockInv.Settling s.heap s'.heap := by
    intro q o' hq
    rw [hs']
    refine settling_settle h _ o q o' ?_
    rw [hpromises]
    exact hq
  have hstages : (fun k => ((ph₁ k).settle (previousOf s.calls k) k (.run n) o).stage) =
      Function.update (fun k => (ph k).stage) n (.settled o) := by
    funext k
    by_cases hk : k = n
    · rw [hk, Function.update_self, hphase]
      rfl
    · rw [Function.update_of_ne hk, hphases k hk]
  refine ⟨fun k => (ph₁ k).settle (previousOf s.calls k) k (.run n) o, ?_, ?_, fun k => ?_, fun k hk => ?_⟩
  · rw [hs', hcalls]
    exact hheap.settle hp howns o
  · rw [hstages]
    exact hi.lock.advance hcalls hqueues hstarts hsettling hresults hrunning hrunning' hold hold' (.inr (.inl ⟨o, rfl⟩))
      hresult
  · by_cases hk : k = n
    · rw [hk, hphase]
      trivial
    · rw [hother k hk]
      exact Phase.stable_settle _ o (hi.stable k)
  · rw [hs', Heap.settlement_settle hp, if_neg (by simp), hpromises]
    rw [hcalls] at hk
    exact hi.fresh k hk

theorem phase_of_running (hi : Inv s ph) (hrunning : s.running = some n) : ph n = .started := by
  have hstage := (hi.lock.running n).mp hrunning
  cases hph : ph n <;> rw [hph] at hstage <;> first | rfl | cases hstage

/-- The callback of a task comes back. -/
theorem finishTask (hi : Inv s ph) (hrunning : s.running = some n) {result : Result τ ε} (hpossible : Possible s result) :
    ∃ ph', Inv (AccountLock.finishTask n result s) ph' := by
  have hn := hi.phase_of_running hrunning
  have hstage : (ph n).stage = .running := by rw [hn]; rfl
  have hstarted : (ph n).stage.Started := by rw [hstage]; trivial
  have hnotOver : ¬ (ph n).stage.Over := by rw [hstage]; exact id
  have hresults : ∀ k, k ≠ n → (AccountLock.finishTask n result s).results k = s.results k := fun k hk =>
    Function.update_of_ne hk ..
  have hresult : (AccountLock.finishTask n result s).results n = some result := Function.update_self ..
  have hrunning' : ∀ k, k ≠ n → s.running ≠ some k := by
    intro k hk hc
    rw [hrunning] at hc
    exact hk (Option.some.inj hc).symm
  have hsettles : ∀ o, (AccountLock.finishTask n result s).heap = s.heap.settle (.run n) o →
      taskSettlement (AccountLock.finishTask n result s) n = some o → ∃ ph', Inv (AccountLock.finishTask n result s) ph' :=
    fun o hheap htask => hi.runSettles hi.heap rfl hn (fun _ _ => rfl) hstarted hnotOver hheap rfl rfl rfl hresults rfl
      hrunning' htask
  cases result with
  | returns v =>
    refine hsettles (.fulfilled v) rfl ?_
    rw [taskSettlement, hresult]
  | throws e =>
    refine hsettles (.rejected e) rfl ?_
    rw [taskSettlement, hresult]
  | returnsPromise p =>
    by_cases hp : p = .run n
    · have hheap : (AccountLock.finishTask n (.returnsPromise p) s).heap = s.heap.settle (.run n) (.rejected .typeError) := by
        unfold AccountLock.finishTask Heap.resolve
        exact if_pos hp
      refine hsettles (.rejected .typeError) hheap ?_
      have hpending : (s.heap.promises (.run n)).settlement? = none := by
        rw [hi.heap.runs, hn]
        rfl
      rw [taskSettlement, hresult]
      dsimp only
      rw [hheap, Heap.settlement_settle hpending, if_pos hp]
    · have hheap : (AccountLock.finishTask n (.returnsPromise p) s).heap =
          { s.heap with jobs := s.heap.jobs ++ [.follow (.run n) p] } := by
        unfold AccountLock.finishTask Heap.resolve
        exact if_neg hp
      have hexposed : Exposed s p := hpossible
      refine ⟨Function.update ph n (.adopting p), ?_, ?_, fun k => ?_, fun k hk => ?_⟩
      · rw [hheap]
        exact hi.heap.push hn hp
      · have hsettling : LockInv.Settling s.heap (AccountLock.finishTask n (.returnsPromise p) s).heap := by
          rw [hheap]
          exact fun q o hq => hq
        rw [stage_update]
        exact hi.lock.advance (by rfl) (by rfl) (by rfl) hsettling hresults (by rfl) hrunning' hstarted hnotOver
          (.inl ⟨p, rfl, hexposed⟩) hresult
      · by_cases hk : k = n
        · rw [hk, Function.update_self]
          trivial
        · rw [Function.update_of_ne hk]
          exact hi.stable k
      · rw [hheap]
        exact hi.fresh k hk

section Microtask

variable {rest : List (Job PromiseId Handler (Option τ) (Reason ε))} {o : Settled τ ε}

/-- The heap without its first microtask. -/
theorem lock_pop (hi : Inv s ph) : LockInv { s with heap := { s.heap with jobs := rest } } fun k => (ph k).stage :=
  hi.lock.heap fun _ _ hq => hq

/-- The task of a call is started. -/
theorem startTask (hi : Inv s ph) (hrunning : s.running = none) (hn : ph n = .queued o)
    (hheap : HeapInv { s.heap with jobs := rest } s.calls (Function.update ph n .started)) :
    ∃ ph', Inv (runJob (.react (taskReaction n) o) { s with heap := { s.heap with jobs := rest } }) ph' := by
  have heq : runJob (.react (taskReaction n) o) { s with heap := { s.heap with jobs := rest } } =
      { s with heap := { s.heap with jobs := rest }, running := some n, starts := s.starts ++ [n] } := by
    cases o <;> rfl
  rw [heq]
  refine ⟨_, hheap, ?_, fun k => ?_, hi.fresh⟩
  · rw [stage_update]
    refine hi.lock_pop.start hrunning (by rw [hn]; rfl) fun k hk haccount => ?_
    have hstarted := (hi.lock.starts k).mp hk
    -- a later one would not have started
    by_contra hle
    rcases (not_lt.mp hle).lt_or_eq with hnk | rfl
    · have hlen : k < s.calls.length := by
        by_contra hge
        rw [(hi.lock.absent k).mpr (not_lt.mp hge)] at hstarted
        exact hstarted
      have hover := hi.earlier hnk haccount.symm hlen fun hc => by
        rw [hc] at hstarted
        exact hstarted
      rw [hn] at hover
      exact hover
    · rw [hn] at hstarted
      exact hstarted
  · by_cases hk : k = n
    · rw [hk, Function.update_self]
      trivial
    · rw [Function.update_of_ne hk]
      exact hi.stable k

/-- `run` follows the promise of the task. -/
theorem followPromise (hi : Inv s ph) {p : PromiseId} (hn : ph n = .adopting p)
    (hheap : HeapInv { s.heap with jobs := rest } s.calls (Function.update ph n .started)) :
    ∃ ph', Inv (runJob (.follow (.run n) p) { s with heap := { s.heap with jobs := rest } }) ph' := by
  have hexposed := hi.lock.exposed n p (by rw [hn]; rfl)
  have hsettled : p ≠ .settled n := by
    rintro rfl
    exact hexposed
  obtain ⟨new, hnew, hfollow⟩ := hheap.follow (Function.update_self ..) (hi.heap.adopting n p hn) hsettled
  have hsame := Heap.settlement_performThen (h := { s.heap with jobs := rest }) p (passReaction n)
  rw [Function.update_idem] at hfollow
  refine ⟨_, hfollow, ?_, fun k => ?_, fun k hk => ?_⟩
  · have hstage : new.stage = (ph n).stage := by
      rw [hn]
      rcases hnew with rfl | ⟨o, rfl⟩ <;> rfl
    rw [stage_update, hstage, Function.update_eq_self]
    refine hi.lock.heap fun q o hq => ?_
    exact (hsame q).trans hq
  · by_cases hk : k = n
    · rw [hk, Function.update_self]
      rcases hnew with rfl | ⟨o, rfl⟩ <;> trivial
    · rw [Function.update_of_ne hk]
      exact hi.stable k
  · exact (hsame _).trans (hi.fresh k hk)

/-- `run` settles like the promise of the task. -/
theorem passOn (hi : Inv s ph) (hrunning : s.running = none) {p : PromiseId} (hn : ph n = .passing p o)
    (hheap : HeapInv { s.heap with jobs := rest } s.calls (Function.update ph n .started)) :
    ∃ ph', Inv (runJob (.react (passReaction n) o) { s with heap := { s.heap with jobs := rest } }) ph' := by
  have heq : runJob (.react (passReaction n) o) { s with heap := { s.heap with jobs := rest } } =
      { s with heap := Heap.settle (.run n) o { s.heap with jobs := rest } } := by
    cases o <;> rfl
  rw [heq]
  have hstage : (ph n).stage = .resolving p := by rw [hn]; rfl
  refine hi.runSettles hheap rfl (Function.update_self ..) (fun k hk => Function.update_of_ne hk ..)
    (by rw [hstage]; trivial) (by rw [hstage]; exact id) rfl rfl rfl rfl (fun _ _ => rfl) hrunning ?_ ?_
  · intro k _ hc
    rw [hrunning] at hc
    cases hc
  · have hresult := hi.lock.results n
    rw [hstage] at hresult
    rw [taskSettlement, show s.results n = some (.returnsPromise p) from hresult]
    exact settling_settle _ _ o p o (hi.heap.passing n p o hn)

/-- `settled` settles after `run`, and is never rejected. -/
theorem catchRun (hi : Inv s ph) (hrunning : s.running = none) (hn : ph n = .done o)
    (hheap : HeapInv { s.heap with jobs := rest } s.calls (Function.update ph n (.closing o))) :
    ∃ ph', Inv (runJob (.react (catchReaction n) o) { s with heap := { s.heap with jobs := rest } }) ph' := by
  obtain ⟨v, heq⟩ : ∃ v, runJob (.react (catchReaction n) o) { s with heap := { s.heap with jobs := rest } } =
      { s with heap := Heap.settle (.settled n) (.fulfilled v) { s.heap with jobs := rest } } := by
    cases o with
    | fulfilled v => exact ⟨v, rfl⟩
    | rejected e => exact ⟨none, rfl⟩
  rw [heq]
  have hself : Function.update ph n (.closing o) n = .closing o := Function.update_self ..
  have hother : ∀ k, k ≠ n → Function.update ph n (.closing o) k = ph k := fun k hk => Function.update_of_ne hk ..
  revert hheap hself hother
  generalize Function.update ph n (.closing o) = ph₁
  intro hheap hself hother
  have hp : (s.heap.promises (.settled n)).settlement? = none := by
    rw [hi.heap.settleds, hn]
    rfl
  have howns : ∀ k, Phase.Settles k (.settled n) (ph₁ k) := by
    refine fun k => ⟨fun hk => PromiseId.noConfusion hk, fun hk => ⟨o, ?_⟩⟩
    rw [← PromiseId.settled.inj hk]
    exact hself
  have hphase : (ph₁ n).settle (previousOf s.calls n) n (.settled n) (.fulfilled v) =
      .passed o (.fulfilled v) := by
    rw [hself]
    exact if_pos rfl
  have hstages : (fun k => ((ph₁ k).settle (previousOf s.calls k) k (.settled n)
      (.fulfilled v)).stage) = Function.update (fun k => (ph k).stage) n (.passed o) := by
    funext k
    by_cases hk : k = n
    · rw [hk, Function.update_self, hphase]
      rfl
    · rw [Function.update_of_ne hk, Phase.stage_settle _ _ _ (by simp) (by simpa using Ne.symm hk), hother k hk]
  have hstage : (ph n).stage = .settled o := by rw [hn]; rfl
  have hsettling : LockInv.Settling s.heap (Heap.settle (.settled n) (.fulfilled v) { s.heap with jobs := rest }) :=
    settling_settle { s.heap with jobs := rest } _ _
  refine ⟨_, hheap.settle hp howns (.fulfilled v), ?_, fun k => ?_, fun k hk => ?_⟩
  · rw [hstages]
    refine hi.lock.advance (by rfl) (by rfl) (by rfl) hsettling (by exact fun _ _ => rfl) (by exact hrunning)
      (fun k _ hc => ?_)
      (by rw [hstage]; trivial) (by rw [hstage]; exact id) (.inr (.inr ⟨o, rfl⟩)) ?_
    · rw [hrunning] at hc
      cases hc
    · have hresult := hi.lock.results n
      rw [hstage] at hresult
      have hresult' : HasResult s n (.passed o) := hresult
      exact LockInv.Settling.hasResult (by exact hsettling) (by rfl) hresult'
  · by_cases hk : k = n
    · rw [hk, hphase]
      trivial
    · rw [hother k hk]
      exact Phase.stable_settle _ _ (hi.stable k)
  · rw [Heap.settlement_settle (h := { s.heap with jobs := rest }) hp, if_neg (by simp)]
    exact hi.fresh k hk

/-- The account is forgotten. -/
theorem forget (hi : Inv s ph) {v : Option τ} (hn : ph n = .passed o (.fulfilled v))
    (hheap : HeapInv { s.heap with jobs := rest } s.calls (Function.update ph n (.forgotten o (.fulfilled v)))) :
    ∃ ph', Inv (runJob (.react (forgetReaction n) (.fulfilled v)) { s with heap := { s.heap with jobs := rest } }) ph' := by
  obtain ⟨s₁, hs₁⟩ : ∃ s₁ : State τ ε, s₁ = forgetAccount n { s with heap := { s.heap with jobs := rest } } := ⟨_, rfl⟩
  have hsame : s₁.heap = { s.heap with jobs := rest } ∧ s₁.calls = s.calls := by
    rw [hs₁]
    unfold forgetAccount
    split
    · split_ifs <;> exact ⟨rfl, rfl⟩
    · exact ⟨rfl, rfl⟩
  have hstage : (ph n).stage = .passed o := by rw [hn]; rfl
  have hinv : Inv s₁ (Function.update ph n (.forgotten o (.fulfilled v))) := by
    refine ⟨?_, ?_, fun k => ?_, fun k hk => ?_⟩
    · rw [hsame.1, hsame.2]
      exact hheap
    · rw [stage_update, hs₁]
      have hpop : LockInv { s with heap := { s.heap with jobs := rest } } fun k => (ph k).stage := hi.lock_pop
      refine hpop.forget hstage fun k hk haccount => ?_
      have hlen : n < s.calls.length := by
        by_contra hge
        rw [(hi.lock.absent n).mpr (not_lt.mp hge)] at hstage
        cases hstage
      exact hi.earlier hk haccount hlen (by rw [hn]; simp)
    · by_cases hk : k = n
      · rw [hk, Function.update_self]
        trivial
      · rw [Function.update_of_ne hk]
        exact hi.stable k
    · rw [hsame.2] at hk
      rw [hsame.1]
      exact hi.fresh k hk
  have hsettle := hinv.settleOther (p := .forgotten n) (.fulfilled none) (by simp) (by simp) (by simp)
  rw [hs₁] at hsettle
  exact hsettle

end Microtask

theorem microtask (hi : Inv s ph) (hrunning : s.running = none) {j : Job PromiseId Handler (Option τ) (Reason ε)}
    {rest : List (Job PromiseId Handler (Option τ) (Reason ε))} (hjobs : s.heap.jobs = j :: rest) :
    ∃ ph', Inv (runJob j { s with heap := { s.heap with jobs := rest } }) ph' := by
  have hmem := hi.heap.tracks.mem_jobs (hjobs ▸ List.mem_cons_self : j ∈ s.heap.jobs)
  generalize hn : owner j.derived = n at hmem
  have hpop := fun hj => hi.heap.pop hjobs hn hj
  cases hph : ph n with
  | queued o =>
    rw [hph] at hmem hpop
    obtain rfl := List.mem_singleton.mp hmem
    exact hi.startTask hrunning hph (hpop rfl)
  | adopting p =>
    rw [hph] at hmem hpop
    obtain rfl := List.mem_singleton.mp hmem
    exact hi.followPromise hph (hpop rfl)
  | passing p o =>
    rw [hph] at hmem hpop
    obtain rfl := List.mem_singleton.mp hmem
    exact hi.passOn hrunning hph (hpop rfl)
  | done o =>
    rw [hph] at hmem hpop
    obtain rfl := List.mem_singleton.mp hmem
    exact hi.catchRun hrunning hph (hpop rfl)
  | passed o o' =>
    have hstable := hi.stable n
    rw [hph] at hmem hpop hstable
    obtain rfl := List.mem_singleton.mp hmem
    cases o' with
    | fulfilled v => exact hi.forget hph (hpop rfl)
    | rejected e => exact hstable.elim
  | absent | waiting | started | following p | closing o | forgotten o o' =>
    rw [hph] at hmem
    cases hmem

theorem step (hi : Inv s ph) {l : Label τ ε} {s' : State τ ε} (hs : AccountLock.step s l = some s') :
    ∃ ph', Inv s' ph' := by
  cases l with
  | call account =>
    obtain rfl : AccountLock.withAccountLock account s = s' := Option.some.inj hs
    exact hi.withAccountLock account
  | microtask =>
    simp only [AccountLock.step] at hs
    split at hs
    · next job rest hrunning hjobs =>
      cases hs
      exact hi.microtask hrunning hjobs
    · cases hs
  | finish result =>
    simp only [AccountLock.step] at hs
    split at hs
    · next n hrunning =>
      split_ifs at hs with hpossible
      cases hs
      exact hi.finishTask hrunning hpossible
    · cases hs
  | settle k o =>
    obtain rfl : { s with heap := s.heap.settle (.outside k) o } = s' := Option.some.inj hs
    exact hi.settleOther o (by simp) (by simp) (by simp)

end Inv

/-- Every state that a run reaches has phases. -/
theorem exists_inv {s : State τ ε} (h : Runs.Reachable (system (τ := τ) (ε := ε)) s) : ∃ ph, Inv s ph := by
  refine Runs.Via.invariant (I := fun s => ∃ ph, Inv s ph) (fun s hs => ?_) (fun s l s' hi _ hs => ?_) h
  · obtain rfl : s = initial := hs
    exact ⟨_, Inv.initial⟩
  · obtain ⟨ph, hi⟩ := hi
    exact hi.step hs

/-! ## The lock -/

namespace Inv

variable {s : State τ ε} {ph : Nat → Phase τ ε} {m n : Nat}

theorem isSome_of_over (hi : Inv s ph) (h : (ph n).stage.Over) : taskSettlement s n ≠ none := by
  have hresult := hi.lock.results n
  cases hstage : (ph n).stage <;> rw [hstage] at h hresult
  case passed o => simp [show taskSettlement s n = some o from hresult]
  case forgotten o => simp [show taskSettlement s n = some o from hresult]
  all_goals exact h.elim

/-- A task starts after every earlier one of its account has settled. -/
theorem settled_of_started (hi : Inv s ph) (hmn : m < n) (haccount : accountOf s m = accountOf s n)
    (hn : n ∈ s.starts) : taskSettlement s m ≠ none := by
  have hstarted := (hi.lock.starts n).mp hn
  have hlen : n < s.calls.length := by
    by_contra hge
    rw [(hi.lock.absent n).mpr (not_lt.mp hge)] at hstarted
    exact hstarted
  refine hi.isSome_of_over (hi.earlier hmn haccount hlen fun hc => ?_)
  rw [hc] at hstarted
  exact hstarted

/-- The caller gets what its task settled with. -/
theorem task_of_caller (hi : Inv s ph) {o : Settled τ ε} (h : callerSettlement s n = some o) :
    taskSettlement s n = some o := by
  have hrun := hi.heap.runs n
  have hresult := hi.lock.results n
  rw [callerSettlement] at h
  rw [h] at hrun
  cases hph : ph n <;> rw [hph] at hrun hresult <;> cases hrun <;> exact hresult

/-- When nothing is left to run, a call waits for an earlier one, or its task for a promise, or it is over. -/
theorem phase_of_idle (hi : Inv s ph) (hidle : Idle s) (n : Nat) :
    ph n = .absent ∨ ph n = .waiting ∨ (∃ p, ph n = .following p) ∨ ∃ o o', ph n = .forgotten o o' := by
  have hjobs : (ph n).jobs n = [] := by
    rw [← hi.heap.tracks.jobs n, hidle.2]
    rfl
  have hrunning := hi.lock.running n
  have hstable := hi.stable n
  rw [hidle.1] at hrunning
  cases hph : ph n <;> rw [hph] at hjobs hrunning hstable
  case absent => exact .inl rfl
  case waiting => exact .inr (.inl rfl)
  case following p => exact .inr (.inr (.inl ⟨p, rfl⟩))
  case forgotten o o' => exact .inr (.inr (.inr ⟨o, o', rfl⟩))
  case started => exact absurd (hrunning.mpr rfl) (by simp)
  case closing o => exact hstable.elim
  all_goals cases hjobs

/-- When nothing is left to run, a task that settled is over. -/
theorem forgotten_of_idle (hi : Inv s ph) (hidle : Idle s) (h : taskSettlement s n ≠ none) :
    ∃ o o', ph n = .forgotten o o' := by
  have hresult := hi.lock.results n
  rcases hi.phase_of_idle hidle n with hn | hn | ⟨p, hn⟩ | hn
  · rw [hn] at hresult
    exact absurd (by rw [taskSettlement, show s.results n = none from hresult]) h
  · rw [hn] at hresult
    exact absurd (by rw [taskSettlement, show s.results n = none from hresult]) h
  · rw [hn] at hresult
    refine absurd ?_ h
    rw [taskSettlement, show s.results n = some (.returnsPromise p) from hresult]
    exact (hi.heap.following n p hn).2
  · exact hn

end Inv

/-- One task of an account at a time, in the order of the calls, each caller gets the outcome of its task; and when
nothing is left to run, no task waits for a settled one, and no account is held whose tasks have settled. -/
theorem account_lock {s : State τ ε} (h : Runs.Reachable (system (τ := τ) (ε := ε)) s) :
    (∀ m n, Open s m → Open s n → accountOf s m = accountOf s n → m = n) ∧
    (∀ account, (s.starts.filter fun n => accountOf s n = some account).Pairwise (· < ·)) ∧
    (∀ m n, m < n → accountOf s m = accountOf s n → n ∈ s.starts → taskSettlement s m ≠ none) ∧
    (∀ n o, callerSettlement s n = some o → taskSettlement s n = some o) ∧
    (Idle s →
      (∀ n, callerSettlement s n = taskSettlement s n) ∧
      (∀ n < s.calls.length, (∀ m < n, accountOf s m = accountOf s n → taskSettlement s m ≠ none) → n ∈ s.starts) ∧
      (∀ account, (∀ n, accountOf s n = some account → taskSettlement s n ≠ none) →
        s.queues.get account = none)) := by
  obtain ⟨ph, hi⟩ := exists_inv h
  refine ⟨fun m n hm hn haccount => ?_, hi.lock.order, fun m n => hi.settled_of_started, fun n o => hi.task_of_caller,
    fun hidle => ⟨fun n => ?_, fun n hn hearlier => ?_, fun account hall => ?_⟩⟩
  · rcases lt_trichotomy m n with hmn | hmn | hnm
    · exact absurd hm.2 (hi.settled_of_started hmn haccount hn.1)
    · exact hmn
    · exact absurd hn.2 (hi.settled_of_started hnm haccount.symm hm.1)
  · by_cases htask : taskSettlement s n = none
    · cases hcaller : callerSettlement s n with
      | none => exact htask.symm
      | some o => exact (hi.task_of_caller hcaller).symm
    · obtain ⟨o, o', hn⟩ := hi.forgotten_of_idle hidle htask
      have hcaller : callerSettlement s n = some o := by
        rw [callerSettlement, hi.heap.runs, hn]
        rfl
      rw [hcaller, hi.task_of_caller hcaller]
  · rw [hi.lock.starts]
    rcases hi.phase_of_idle hidle n with habsent | hwaiting | ⟨p, hfollowing⟩ | ⟨o, o', hforgotten⟩
    · exact absurd ((hi.lock.absent n).mp (by rw [habsent]; rfl)) (by omega)
    · -- it waits for a call before it, whose task has settled
      obtain ⟨call, hcall⟩ : ∃ call, s.calls[n]? = some call := ⟨s.calls[n], List.getElem?_eq_getElem hn⟩
      have hprevious : previousOf s.calls n = some call.previous := by rw [previousOf, hcall]; rfl
      have hpending := (hi.heap.waiting n _ hprevious).mp hwaiting
      rcases hi.lock.chain n call hcall with ⟨heq, hsettled, -⟩ | ⟨m, hmn, heq, haccount, -⟩
      · rw [heq] at hpending
        exact absurd hpending hsettled
      · have haccount' : accountOf s m = accountOf s n := by rw [haccount, accountOf, hcall]; rfl
        obtain ⟨o, o', hm⟩ := hi.forgotten_of_idle hidle (hearlier m hmn haccount')
        rw [heq, hi.heap.settleds, hm] at hpending
        cases hpending
    · rw [hfollowing]
      trivial
    · rw [hforgotten]
      trivial
  · cases hentry : s.queues.get account with
    | none => rfl
    | some p =>
      obtain ⟨n, -, haccount, -, hnot⟩ := hi.lock.entry account p hentry
      obtain ⟨o, o', hn⟩ := hi.forgotten_of_idle hidle (hall n haccount)
      rw [hn] at hnot
      exact absurd trivial hnot

/-- Two tasks of an account and one of another: the first is rejected, the third waits for a promise. -/
def Demo.labels : List (Label Nat Nat) :=
  [.call "GA".toList, .call "GA".toList, .call "GB".toList, .microtask, .finish (.throws (.thrown 7)), .microtask,
    .finish (.returnsPromise (.outside 0)), .microtask, .microtask, .microtask, .microtask]

theorem account_lock_rejected :
    ∃ s : State Nat Nat, Runs.Reachable system s ∧ s.starts = [0, 2, 1] ∧
      taskSettlement s 0 = some (.rejected (.thrown 7)) ∧ (Open s 1 ∧ Open s 2) ∧
      ∀ m n, Open s m → Open s n → accountOf s m = accountOf s n → m = n := by
  have hrun : (system.replay initial Demo.labels).any (fun s => decide (s.starts = [0, 2, 1]) &&
      decide (taskSettlement s 0 = some (.rejected (.thrown 7))) && decide (taskSettlement s 1 = none) &&
      decide (taskSettlement s 2 = none)) = true := by decide
  obtain ⟨s, hs, hchecks⟩ := (Option.any_eq_true _ _).mp hrun
  simp only [Bool.and_eq_true, decide_eq_true_eq] at hchecks
  obtain ⟨⟨⟨hstarts, hrejected⟩, hone⟩, htwo⟩ := hchecks
  have hreach : Runs.Reachable system s := (Runs.Via.init rfl).replay hs
  refine ⟨s, hreach, hstarts, hrejected, ⟨⟨?_, hone⟩, ?_, htwo⟩, (account_lock hreach).1⟩
  · rw [hstarts]
    simp
  · rw [hstarts]
    simp

end Writz.Relayer.AccountLock

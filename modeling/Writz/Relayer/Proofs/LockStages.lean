import Writz.Relayer.Proofs.LockPhases

/-!
# Proofs: the stages of a call

What callers see of the phases: a task is pending, runs, follows its promise and is over. The entry of an account
is the last of its calls.
-/

namespace Writz.Relayer.AccountLock

open Node

variable {τ ε : Type}

/-! ## Stages -/

/-- What the phases of a call look like from outside. -/
inductive Stage (τ ε : Type) where
  | absent
  | pending
  | running
  | resolving (p : PromiseId)
  | settled (o : Settled τ ε)
  /-- The next call may start. -/
  | passed (o : Settled τ ε)
  | forgotten (o : Settled τ ε)

namespace Stage

def Started : Stage τ ε → Prop
  | absent | pending => False
  | running | resolving _ | settled _ | passed _ | forgotten _ => True

def Over : Stage τ ε → Prop
  | passed _ | forgotten _ => True
  | absent | pending | running | resolving _ | settled _ => False

def Forgotten : Stage τ ε → Prop
  | forgotten _ => True
  | absent | pending | running | resolving _ | settled _ | passed _ => False

end Stage

def Phase.stage : Phase τ ε → Stage τ ε
  | absent => .absent
  | waiting | queued _ => .pending
  | started => .running
  | adopting p | following p | passing p _ => .resolving p
  | done o | closing o => .settled o
  | passed o _ => .passed o
  | forgotten o _ => .forgotten o

/-- The phases between two steps. -/
def Phase.Stable : Phase τ ε → Prop
  | closing _ | passed _ (.rejected _) => False
  | _ => True

/-- The promise of another call, or an outside one, settles. -/
theorem Phase.stage_settle {n : Nat} {p : PromiseId} (previous : Option PromiseId) (o : Settled τ ε) (ph : Phase τ ε)
    (hrun : p ≠ .run n) (hsettled : p ≠ .settled n) : (ph.settle previous n p o).stage = ph.stage := by
  cases ph <;> simp only [settle, hrun, hsettled, if_false] <;> split_ifs <;> rfl

/-- What a task has come back with. -/
def HasResult (s : State τ ε) (n : Nat) : Stage τ ε → Prop
  | .absent | .pending | .running => s.results n = none
  | .resolving p => s.results n = some (.returnsPromise p)
  | .settled o | .passed o | .forgotten o => taskSettlement s n = some o

/-- A call is chained to the last one of its account, or all of them are over. -/
def Chained (s : State τ ε) (stages : Nat → Stage τ ε) (n : Nat) (call : Call) : Prop :=
  (call.previous = .initial n ∧ (s.heap.promises (.initial n)).settlement? ≠ none ∧
    ∀ k < n, accountOf s k = some call.account → (stages k).Over) ∨
  ∃ m < n, call.previous = .settled m ∧ accountOf s m = some call.account ∧
    ∀ k, m < k → k < n → accountOf s k ≠ some call.account

/-- The lock, stage by stage. -/
structure LockInv (s : State τ ε) (stages : Nat → Stage τ ε) : Prop where
  absent : ∀ n, stages n = .absent ↔ s.calls.length ≤ n
  running : ∀ n, s.running = some n ↔ stages n = .running
  results : ∀ n, HasResult s n (stages n)
  exposed : ∀ n p, stages n = .resolving p → Exposed s p
  chain : ∀ n call, s.calls[n]? = some call → Chained s stages n call
  entry : ∀ account p, s.queues.get account = some p → ∃ n, p = .settled n ∧ accountOf s n = some account ∧
    (∀ k, n < k → accountOf s k ≠ some account) ∧ ¬ (stages n).Forgotten
  noEntry : ∀ account, s.queues.get account = none → ∀ n, accountOf s n = some account → (stages n).Over
  starts : ∀ n, n ∈ s.starts ↔ (stages n).Started
  order : ∀ account, (s.starts.filter fun n => accountOf s n = some account).Pairwise (· < ·)

structure Inv (s : State τ ε) (ph : Nat → Phase τ ε) : Prop where
  heap : HeapInv s.heap s.calls ph
  lock : LockInv s fun n => (ph n).stage
  stable : ∀ n, (ph n).Stable
  fresh : ∀ n, s.calls.length ≤ n → (s.heap.promises (.initial n)).settlement? = none

namespace LockInv

variable {s : State τ ε} {stages : Nat → Stage τ ε} {n : Nat}

theorem accountOf_eq_none {n : Nat} : accountOf s n = none ↔ s.calls.length ≤ n := by
  rw [accountOf, Option.map_eq_none_iff, List.getElem?_eq_none_iff]

/-- What has settled stays so. -/
def Settling (h h' : Promises τ ε) : Prop :=
  ∀ q o, (h.promises q).settlement? = some o → (h'.promises q).settlement? = some o

theorem Settling.hasResult {t : State τ ε} (h : Settling s.heap t.heap) (hn : t.results n = s.results n)
    {stage : Stage τ ε} (hresult : HasResult s n stage) : HasResult t n stage := by
  have htask : ∀ o, taskSettlement s n = some o → taskSettlement t n = some o := by
    intro o ho
    unfold taskSettlement at ho ⊢
    rw [hn]
    split at ho
    · cases ho
    · exact ho
    · exact ho
    · exact h _ o ho
  cases stage with
  | absent | pending | running | resolving p => exact hn.trans hresult
  | settled o | passed o | forgotten o => exact htask o hresult

theorem Settling.chained {t : State τ ε} {stages' : Nat → Stage τ ε} (h : Settling s.heap t.heap)
    (hcalls : ∀ k < n, accountOf t k = accountOf s k)
    (hover : ∀ k, (stages k).Over → (stages' k).Over) {call : Call}
    (hchained : Chained s stages n call) : Chained t stages' n call := by
  rcases hchained with ⟨hprevious, hsettled, hearlier⟩ | ⟨m, hm, hprevious, haccount, hbetween⟩
  · refine .inl ⟨hprevious, ?_, fun k hk haccount => hover k (hearlier k hk (hcalls k hk ▸ haccount))⟩
    obtain ⟨o, ho⟩ := Option.ne_none_iff_exists'.mp hsettled
    rw [h _ o ho]
    simp
  · refine .inr ⟨m, hm, hprevious, by rw [hcalls m hm, haccount], fun k hmk hkn => ?_⟩
    rw [hcalls k hkn]
    exact hbetween k hmk hkn

/-- The promises go on settling. -/
theorem heap (hi : LockInv s stages) {h : Promises τ ε} (hsettling : Settling s.heap h) :
    LockInv { s with heap := h } stages :=
  { hi with
    results := fun n => Settling.hasResult (s := s) (t := { s with heap := h }) hsettling rfl (hi.results n)
    chain := fun n call hcall => Settling.chained (s := s) (t := { s with heap := h }) hsettling (fun _ _ => rfl)
      (fun _ hk => hk) (hi.chain n call hcall) }

/-- A started task goes on to another stage before it is forgotten. -/
theorem advance (hi : LockInv s stages) {s' : State τ ε} (hcalls : s'.calls = s.calls)
    (hqueues : s'.queues = s.queues) (hstarts : s'.starts = s.starts) (hsettling : Settling s.heap s'.heap)
    (hresults : ∀ k, k ≠ n → s'.results k = s.results k) (hrunning : s'.running = none)
    (hrunning' : ∀ k, k ≠ n → s.running ≠ some k) (hold : (stages n).Started) (hold' : ¬ (stages n).Over)
    {new : Stage τ ε} (hnew : (∃ p, new = .resolving p ∧ Exposed s p) ∨ (∃ o, new = .settled o) ∨ ∃ o, new = .passed o)
    (hresult : HasResult s' n new) : LockInv s' (Function.update stages n new) := by
  have hother : ∀ k, k ≠ n → Function.update stages n new k = stages k := fun k hk => Function.update_of_ne hk ..
  have hself : Function.update stages n new n = new := Function.update_self ..
  have haccount : ∀ k, accountOf s' k = accountOf s k := fun k => by rw [accountOf, accountOf, hcalls]
  have hne : ∀ k, (stages k).Over → k ≠ n := by
    rintro k hk rfl
    exact hold' hk
  have hnewStarted : new.Started ∧ ¬ new.Forgotten ∧ new ≠ .absent ∧ new ≠ .running := by
    rcases hnew with ⟨p, rfl, -⟩ | ⟨o, rfl⟩ | ⟨o, rfl⟩
    · exact ⟨trivial, id, by simp, by simp⟩
    · exact ⟨trivial, id, by simp, by simp⟩
    · exact ⟨trivial, id, by simp, by simp⟩
  refine ⟨fun k => ?_, fun k => ?_, fun k => ?_, fun k p hp => ?_, fun k call hcall => ?_, fun account p hp => ?_,
    fun account hnone k hk => ?_, fun k => ?_, fun account => ?_⟩
  · rw [hcalls]
    by_cases hk : k = n
    · have habsent := hi.absent k
      rw [hk] at habsent
      rw [hk, hself, ← habsent]
      constructor
      · exact fun hc => absurd hc hnewStarted.2.2.1
      · intro hc
        rw [hc] at hold
        exact hold.elim
    · rw [hother k hk]
      exact hi.absent k
  · rw [hrunning]
    by_cases hk : k = n
    · rw [hk, hself]
      simp [hnewStarted.2.2.2]
    · rw [hother k hk, ← hi.running k]
      simp [hrunning' k hk]
  · by_cases hk : k = n
    · rw [hk, hself]
      exact hresult
    · rw [hother k hk]
      exact Settling.hasResult hsettling (hresults k hk) (hi.results k)
  · have hexposed : Exposed s p := by
      by_cases hk : k = n
      · rw [hk, hself] at hp
        rcases hnew with ⟨q, rfl, hq⟩ | ⟨o, rfl⟩ | ⟨o, rfl⟩
        · cases hp
          exact hq
        · cases hp
        · cases hp
      · exact hi.exposed k p (hother k hk ▸ hp)
    cases p <;> first | exact hexposed | (rw [Exposed, hcalls]; exact hexposed)
  · rw [hcalls] at hcall
    refine Settling.chained hsettling (fun k _ => haccount k) (fun k hk => ?_) (hi.chain k call hcall)
    rw [hother k (hne k hk)]
    exact hk
  · rw [hqueues] at hp
    obtain ⟨m, rfl, hm, hlater, hforgotten⟩ := hi.entry account p hp
    refine ⟨m, rfl, by rw [haccount, hm], fun k hk => by rw [haccount]; exact hlater k hk, ?_⟩
    by_cases hmn : m = n
    · rw [hmn, hself]
      exact hnewStarted.2.1
    · rwa [hother m hmn]
  · rw [hqueues] at hnone
    rw [haccount] at hk
    have hover := hi.noEntry account hnone k hk
    rw [hother k (hne k hover)]
    exact hover
  · rw [hstarts, hi.starts]
    by_cases hk : k = n
    · rw [hk, hself]
      exact iff_of_true hold hnewStarted.1
    · rw [hother k hk]
  · rw [hstarts]
    simp only [haccount]
    exact hi.order account

/-- A task is started when no later one of its account was. -/
theorem start (hi : LockInv s stages) (hrunning : s.running = none) (hn : stages n = .pending)
    (hlast : ∀ k ∈ s.starts, accountOf s k = accountOf s n → k < n) :
    LockInv { s with running := some n, starts := s.starts ++ [n] } (Function.update stages n .running) := by
  have hother : ∀ k, k ≠ n → Function.update stages n .running k = stages k := fun k hk => Function.update_of_ne hk ..
  have hself : Function.update stages n .running n = .running := Function.update_self ..
  have hnot : ¬ (stages n).Over := by
    rw [hn]
    exact id
  have hne : ∀ k, (stages k).Over → k ≠ n := by
    rintro k hk rfl
    exact hnot hk
  refine ⟨fun k => ?_, fun k => ?_, fun k => ?_, fun k p hp => ?_, fun k call hcall => ?_, fun account p hp => ?_,
    fun account hnone k hk => ?_, fun k => ?_, fun account => ?_⟩
  · by_cases hk : k = n
    · have habsent := hi.absent k
      rw [hk, hn] at habsent
      rw [hk, hself, ← habsent]
      simp
    · rw [hother k hk]
      exact hi.absent k
  · by_cases hk : k = n
    · rw [hk, hself]
      simp
    · rw [hother k hk, ← hi.running k, hrunning]
      simp [Ne.symm hk]
  · by_cases hk : k = n
    · have hresult := hi.results k
      rw [hk, hn] at hresult
      rw [hk, hself]
      exact hresult
    · rw [hother k hk]
      exact hi.results k
  · by_cases hk : k = n
    · rw [hk, hself] at hp
      cases hp
    · exact hi.exposed k p (hother k hk ▸ hp)
  · rcases hi.chain k call hcall with ⟨hprevious, hsettled, hearlier⟩ | hchained
    · refine .inl ⟨hprevious, hsettled, fun m hm haccount => ?_⟩
      have hover := hearlier m hm haccount
      rw [hother m (hne m hover)]
      exact hover
    · exact .inr hchained
  · obtain ⟨m, rfl, haccount, hlater, hforgotten⟩ := hi.entry account p hp
    refine ⟨m, rfl, haccount, hlater, ?_⟩
    by_cases hm : m = n
    · rw [hm, hself]
      exact id
    · rwa [hother m hm]
  · have hover := hi.noEntry account hnone k hk
    rw [hother k (hne k hover)]
    exact hover
  · rw [List.mem_append, List.mem_singleton, hi.starts]
    by_cases hk : k = n
    · rw [hk, hself]
      simp [Stage.Started]
    · rw [hother k hk]
      simp [hk]
  · rw [List.filter_append]
    refine List.pairwise_append.mpr ⟨hi.order account, (List.pairwise_singleton _ n).filter _, fun a ha b hb => ?_⟩
    obtain ⟨hamem, ha⟩ := List.mem_filter.mp ha
    obtain ⟨hbmem, hb⟩ := List.mem_filter.mp hb
    rw [List.mem_singleton] at hbmem
    subst hbmem
    exact hlast a hamem ((of_decide_eq_true ha).trans (of_decide_eq_true hb).symm)

/-- The account of a call is forgotten when no later call is chained to it. -/
theorem forget (hi : LockInv s stages) {o : Settled τ ε} (hn : stages n = .passed o)
    (hearlier : ∀ k < n, accountOf s k = accountOf s n → (stages k).Over) :
    LockInv (forgetAccount n s) (Function.update stages n (.forgotten o)) := by
  have hother : ∀ k, k ≠ n → Function.update stages n (.forgotten o) k = stages k := fun k hk =>
    Function.update_of_ne hk ..
  have hself : Function.update stages n (.forgotten o) n = .forgotten o := Function.update_self ..
  have hmono : ∀ k, (stages k).Over → (Function.update stages n (.forgotten o) k).Over := by
    intro k hk
    by_cases hkn : k = n
    · rw [hkn, hself]
      trivial
    · rwa [hother k hkn]
  obtain ⟨call, hcall⟩ : ∃ call, s.calls[n]? = some call := by
    have habsent := (hi.absent n).not.mp (by rw [hn]; simp)
    exact ⟨s.calls[n], List.getElem?_eq_getElem (by omega)⟩
  have hcallAccount : accountOf s n = some call.account := by rw [accountOf, hcall]; rfl
  -- but for the entry of the account nothing changes
  obtain ⟨queues, hs', hqueues⟩ : ∃ queues, forgetAccount n s = { s with queues } ∧
      ∀ account, queues.get account = if account = call.account ∧ s.queues.get account = some (.settled n) then none
        else s.queues.get account := by
    unfold forgetAccount
    rw [hcall]
    dsimp only
    by_cases hentry : s.queues.get call.account = some (.settled n)
    · rw [if_pos hentry]
      refine ⟨_, rfl, fun account => ?_⟩
      rw [JsMap.get_delete]
      by_cases haccount : account = call.account
      · subst haccount
        simp [hentry]
      · simp [haccount, Ne.symm haccount]
    · rw [if_neg hentry]
      refine ⟨_, rfl, fun account => ?_⟩
      by_cases haccount : account = call.account
      · subst haccount
        simp [hentry]
      · simp [haccount]
  rw [hs']
  refine ⟨fun k => ?_, fun k => ?_, fun k => ?_, fun k p hp => ?_, fun k call' hcall' => ?_, fun account p hp => ?_,
    fun account hnone k hk => ?_, fun k => ?_, hi.order⟩
  · by_cases hk : k = n
    · have habsent := hi.absent k
      rw [hk, hn] at habsent
      rw [hk, hself, ← habsent]
      simp
    · rw [hother k hk]
      exact hi.absent k
  · by_cases hk : k = n
    · have hrunning := hi.running k
      rw [hk, hn] at hrunning
      rw [hk, hself, hrunning]
      simp
    · rw [hother k hk]
      exact hi.running k
  · by_cases hk : k = n
    · have hresult := hi.results k
      rw [hk, hn] at hresult
      rw [hk, hself]
      exact hresult
    · rw [hother k hk]
      exact hi.results k
  · by_cases hk : k = n
    · rw [hk, hself] at hp
      cases hp
    · exact hi.exposed k p (hother k hk ▸ hp)
  · exact Settling.chained (s := s) (t := { s with queues }) (fun _ _ hq => hq) (fun _ _ => rfl) hmono
      (hi.chain k call' hcall')
  · dsimp only at hp
    rw [hqueues] at hp
    split_ifs at hp with hdeleted
    obtain ⟨m, rfl, haccount, hlater, hforgotten⟩ := hi.entry account p hp
    refine ⟨m, rfl, haccount, hlater, ?_⟩
    by_cases hm : m = n
    · subst hm
      rw [hcallAccount] at haccount
      exact absurd ⟨(Option.some.inj haccount).symm, hp⟩ hdeleted
    · rwa [hother m hm]
  · dsimp only at hnone
    rw [hqueues] at hnone
    by_cases hdeleted : account = call.account ∧ s.queues.get account = some (.settled n)
    · -- the entry was of this call, the last one of the account
      obtain ⟨rfl, hentry⟩ := hdeleted
      obtain ⟨m, hm, -, hlater, -⟩ := hi.entry call.account _ hentry
      obtain rfl : n = m := PromiseId.settled.inj hm
      rcases lt_trichotomy k n with hkn | hkn | hkn
      · exact hmono k (hearlier k hkn (hk.trans hcallAccount.symm))
      · rw [hkn, hself]
        trivial
      · exact absurd hk (hlater k hkn)
    · rw [if_neg hdeleted] at hnone
      exact hmono k (hi.noEntry account hnone k hk)
  · by_cases hk : k = n
    · have hstarted := hi.starts k
      rw [hk, hn] at hstarted
      rw [hk, hself, hstarted]
      exact Iff.rfl
    · rw [hother k hk]
      exact hi.starts k

theorem accountOf_append {t : State τ ε} {c : Call} (hcalls : t.calls = s.calls ++ [c]) (k : Nat) :
    accountOf t k = if k = s.calls.length then some c.account else accountOf s k := by
  unfold accountOf
  rw [hcalls, List.getElem?_append]
  split_ifs with hlt heq heq
  · omega
  · rfl
  · rw [heq, Nat.sub_self]
    rfl
  · rw [List.getElem?_eq_none (by simp; omega), List.getElem?_eq_none (by omega)]

/-- A new call waits behind the last one of its account. -/
theorem call (hi : LockInv s stages) (account : Text) {previous : PromiseId} {h : Promises τ ε}
    (hsettling : Settling s.heap h)
    (hprevious : s.queues.get account = some previous ∨ s.queues.get account = none ∧
      previous = .initial s.calls.length ∧ (h.promises (.initial s.calls.length)).settlement? ≠ none) :
    LockInv { s with heap := h, queues := s.queues.set account (.settled s.calls.length),
                     calls := s.calls ++ [{ account, previous }] }
      (Function.update stages s.calls.length .pending) := by
  obtain ⟨s', hs'⟩ : ∃ s' : State τ ε, s' = { s with heap := h, queues := s.queues.set account (.settled s.calls.length),
                                                     calls := s.calls ++ [{ account, previous }] } := ⟨_, rfl⟩
  have haccount := accountOf_append (s := s) (t := s') (c := { account, previous }) (by rw [hs'])
  have haccount' : ∀ k, k ≠ s.calls.length → accountOf s' k = accountOf s k := fun k hk => by
    rw [haccount, if_neg hk]
  rw [← hs']
  generalize hn : s.calls.length = n at *
  have habsent : stages n = .absent := (hi.absent n).mpr hn.le
  have hother : ∀ k, k ≠ n → Function.update stages n .pending k = stages k := fun k hk => Function.update_of_ne hk ..
  have hself : Function.update stages n .pending n = .pending := Function.update_self ..
  have hne : ∀ k, (stages k).Over → k ≠ n := by
    rintro k hk rfl
    rw [habsent] at hk
    exact hk
  have hover : ∀ k, (stages k).Over → (Function.update stages n .pending k).Over := fun k hk => by
    rw [hother k (hne k hk)]
    exact hk
  have hlt : ∀ k, accountOf s k ≠ none → k < n := by
    intro k hk
    rw [Ne, accountOf_eq_none, hn] at hk
    omega
  have hsettling' : Settling s.heap s'.heap := by
    rw [hs']
    exact hsettling
  have hresults : s'.results = s.results := by rw [hs']
  have hcalls : s'.calls.length = n + 1 := by
    rw [hs', ← hn]
    simp
  refine ⟨fun k => ?_, fun k => ?_, fun k => ?_, fun k p hp => ?_, fun k call hcall => ?_, fun account' p hp => ?_,
    fun account' hnone k hk => ?_, fun k => ?_, fun account' => ?_⟩
  · rw [hcalls]
    by_cases hk : k = n
    · rw [hk, hself]
      simp
    · rw [hother k hk, hi.absent k, hn]
      omega
  · have hrunning : s'.running = s.running := by rw [hs']
    rw [hrunning, hi.running]
    by_cases hk : k = n
    · rw [hk, hself, habsent]
      simp
    · rw [hother k hk]
  · by_cases hk : k = n
    · have hresult := hi.results k
      rw [hk, habsent] at hresult
      rw [hk, hself]
      exact (congrFun hresults n).trans hresult
    · rw [hother k hk]
      exact Settling.hasResult hsettling' (congrFun hresults k) (hi.results k)
  · by_cases hk : k = n
    · rw [hk, hself] at hp
      cases hp
    · have hexposed := hi.exposed k p (hother k hk ▸ hp)
      cases p with
      | run m =>
        have hm : m < s.calls.length := hexposed
        change m < s'.calls.length
        omega
      | outside m => trivial
      | initial m | settled m | forgotten m => exact hexposed
  · by_cases hk : k = n
    · obtain rfl : { account, previous } = call := by
        rw [hs', hk, ← hn, List.getElem?_concat_length] at hcall
        exact Option.some.inj hcall
      rw [hk]
      rcases hprevious with hentry | ⟨hnone, rfl, hsettled⟩
      · obtain ⟨m, rfl, hm, hlater, -⟩ := hi.entry account previous hentry
        have hmn : m < n := hlt m (by rw [hm]; simp)
        refine .inr ⟨m, hmn, rfl, by rw [haccount' m hmn.ne, hm], fun j hmj hjn => ?_⟩
        rw [haccount' j hjn.ne]
        exact hlater j hmj
      · refine .inl ⟨rfl, by rw [hs']; exact hsettled, fun j hj hj' => hover j (hi.noEntry account hnone j ?_)⟩
        rwa [haccount' j hj.ne] at hj'
    · have hkn : k < n := by
        have hk' : k < s'.calls.length := (List.getElem?_eq_some_iff.mp hcall).1
        omega
      have hcall' : s.calls[k]? = some call := by
        rw [hs', List.getElem?_append_left (by omega)] at hcall
        exact hcall
      exact Settling.chained hsettling' (fun j hj => haccount' j (by omega)) hover (hi.chain k call hcall')
  · have hget : s'.queues.get account' = if account = account' then some (.settled n) else s.queues.get account' := by
      rw [hs']
      exact JsMap.get_set ..
    rw [hget] at hp
    by_cases heq : account = account'
    · rw [if_pos heq] at hp
      refine ⟨n, (Option.some.inj hp).symm, by rw [haccount, if_pos rfl, heq], fun k hk => ?_, ?_⟩
      · rw [haccount' k (by omega), accountOf_eq_none.mpr (by omega)]
        simp
      · rw [hself]
        exact id
    · rw [if_neg heq] at hp
      obtain ⟨m, rfl, hm, hlater, hforgotten⟩ := hi.entry account' p hp
      have hmn : m < n := hlt m (by rw [hm]; simp)
      refine ⟨m, rfl, by rw [haccount' m hmn.ne, hm], fun k hk => ?_, by rwa [hother m hmn.ne]⟩
      by_cases hkn : k = n
      · rw [haccount, if_pos hkn]
        exact fun hc => heq (Option.some.inj hc)
      · rw [haccount' k hkn]
        exact hlater k hk
  · have hget : s'.queues.get account' = if account = account' then some (.settled n) else s.queues.get account' := by
      rw [hs']
      exact JsMap.get_set ..
    rw [hget] at hnone
    by_cases heq : account = account'
    · rw [if_pos heq] at hnone
      cases hnone
    · rw [if_neg heq] at hnone
      have hkn : k ≠ n := by
        rintro rfl
        rw [haccount, if_pos rfl] at hk
        exact heq (Option.some.inj hk)
      rw [haccount' k hkn] at hk
      exact hover k (hi.noEntry account' hnone k hk)
  · have hstarts : s'.starts = s.starts := by rw [hs']
    rw [hstarts, hi.starts]
    by_cases hk : k = n
    · rw [hk, hself, habsent]
      exact Iff.rfl
    · rw [hother k hk]
  · have hstarts : s'.starts.filter (fun k => accountOf s' k = some account') =
        s.starts.filter fun k => accountOf s k = some account' := by
      rw [hs']
      refine List.filter_congr fun k hk => ?_
      have hkn : k ≠ n := by
        rintro rfl
        have hstarted := (hi.starts k).mp hk
        rw [habsent] at hstarted
        exact hstarted
      rw [← hs', haccount' k hkn]
    rw [hstarts]
    exact hi.order account'

end LockInv

end Writz.Relayer.AccountLock

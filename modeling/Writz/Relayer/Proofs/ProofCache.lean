import Writz.Relayer.Proofs.CacheInvariant

/-!
# Proofs: the bounded cache

What a step does to the entries and to the computations, and what callers get over whole runs.
-/

namespace Writz.Relayer.ProofCache

open Node

variable {V T ε : Type} {maxEntries : Rat} [LinearOrder T] {s s' : State V T ε} {l : Label V T ε}

/-! ## Hits -/

/-- A hit is the value last stored, before its expiry. -/
theorem get_hit (hi : Inv maxEntries s) {key : Text} {value : V} (hhit : (s.cache.get key s.now).1 = some value) :
    ∃ r, s.lastStored key = some r ∧ r.value = some value ∧ s.now < r.expiresAt := by
  rcases get_cases key s.now s.cache with ⟨-, hget⟩ | ⟨entry, -, -, hget⟩ | ⟨entry, hentry, hlive, hget⟩
  · rw [hget] at hhit
    cases hhit
  · rw [hget] at hhit
    cases hhit
  · rw [hget] at hhit
    obtain ⟨r, hr, hvalue, hexpires⟩ := hi.stored key entry hentry
    exact ⟨r, hr, hvalue.trans hhit, by rw [hexpires]; exact hlive⟩

/-- A hit was stored after every computation of its key started. -/
theorem hit_since (hi : Inv maxEntries s) {n : Nat} {c : Computation V T ε} (hc : s.computations[n]? = some c)
    {value : V} (hhit : (s.cache.get c.key s.now).1 = some value) : StoredSince s n c := by
  rcases get_cases c.key s.now s.cache with ⟨-, hget⟩ | ⟨entry, -, -, hget⟩ | ⟨entry, hentry, -, hget⟩
  · rw [hget] at hhit
    cases hhit
  · rw [hget] at hhit
    cases hhit
  · rw [hget] at hhit
    exact hi.fresh n c hc entry hentry fun hnone => by rw [hnone] at hhit; cases hhit

/-- What a caller of `getOrCompute` gets. -/
def answerOf (s : State V T ε) (key : Text) : TtlCache.Answer V :=
  (s.cache.getOrCompute key s.now s.computations.length).1

/-- The value of an unexpired entry that a caller of `set` stored after a computation started. -/
def DirectHit (s : State V T ε) (c : Computation V T ε) (answer : TtlCache.Answer V) : Prop :=
  ∃ value r, answer = .hit value ∧ s.lastStored c.key = some r ∧ r.value = some value ∧ s.now < r.expiresAt ∧
    r.computation = none ∧ c.started < r.operation

/-- A caller shares a computation in flight, or finds a value stored since it started, directly or by it. -/
theorem answer_in_flight (hi : Inv maxEntries s) {n : Nat} {c : Computation V T ε} (hc : s.computations[n]? = some c)
    (hflight : c.InFlight) :
    answerOf s c.key = .shared n ∨ DirectHit s c (answerOf s c.key) ∨
      ∃ value ttlMs, answerOf s c.key = .hit value ∧ c.outcome = some (.computed (some value) ttlMs) := by
  have hinflight := (hi.inflight c.key n).mpr ⟨c, hc, rfl, hflight⟩
  rcases getOrCompute_cases c.key s with ⟨value, hhit, hanswer, -⟩ | ⟨m, -, hpending, hanswer, -⟩ | ⟨-, hidle, -, -⟩
  · right
    obtain ⟨r, hr, hvalue, hlive⟩ := get_hit hi hhit
    obtain ⟨r', hr', hsince, hlater⟩ := hit_since hi hc hhit
    cases hr.symm.trans hr'
    cases hwriter : r.computation with
    | none => exact .inl ⟨value, r, hanswer, hr, hvalue, hlive, hwriter, hsince⟩
    | some m =>
      obtain ⟨d, ttlMs, hd, hkey, hcomputed⟩ := hi.own c.key r m hr hwriter
      -- no later computation of the key has started
      cases (hi.latest n m c d hc hd hflight hkey.symm).antisymm (hlater m hwriter)
      cases hc.symm.trans hd
      exact .inr ⟨value, ttlMs, hanswer, by rw [hcomputed, hvalue]⟩
  · rw [hinflight] at hpending
    cases hpending
    exact .inl hanswer
  · rw [hinflight] at hidle
    cases hidle

/-- After a computation has failed, the next caller of its key starts another, or finds a value stored directly. -/
theorem answer_after_failure (hi : Inv maxEntries s) {n : Nat} {c : Computation V T ε} {error : ε}
    (hc : s.computations[n]? = some c) (hfailed : c.outcome = some (.failed error)) (hover : ¬c.InFlight)
    (hlast : ∀ (m : Nat) (d : Computation V T ε), s.computations[m]? = some d → d.key = c.key → m ≤ n) :
    answerOf s c.key = .shared s.computations.length ∨ DirectHit s c (answerOf s c.key) := by
  rcases getOrCompute_cases c.key s with ⟨value, hhit, hanswer, -⟩ | ⟨m, -, hpending, -, -⟩ | ⟨-, -, hanswer, -⟩
  · obtain ⟨r, hr, hvalue, hlive⟩ := get_hit hi hhit
    obtain ⟨r', hr', hsince, hlater⟩ := hit_since hi hc hhit
    cases hr.symm.trans hr'
    cases hwriter : r.computation with
    | none => exact .inr ⟨value, r, hanswer, hr, hvalue, hlive, hwriter, hsince⟩
    | some m =>
      obtain ⟨d, ttlMs, hd, hkey, hcomputed⟩ := hi.own c.key r m hr hwriter
      cases (hlast m d hd hkey).antisymm (hlater m hwriter)
      cases hc.symm.trans hd
      cases hfailed.symm.trans hcomputed
  · obtain ⟨d, hd, hkey, hflight⟩ := (hi.inflight c.key m).mp hpending
    -- the one in flight would be the last one of the key, which has failed
    cases (hlast m d hd hkey).antisymm (hi.latest m n d c hd hc hflight hkey)
    cases hc.symm.trans hd
    exact absurd hflight hover
  · exact .inl hanswer

theorem runGetOrCompute_entries (key : Text) (s : State V T ε) :
    (runGetOrCompute key s).cache.entries = (s.cache.get key s.now).2.entries := by
  unfold runGetOrCompute TtlCache.getOrCompute
  obtain ⟨_ | value, cache⟩ := s.cache.get key s.now
  · dsimp only
    cases cache.inflight.get key with
    | none =>
      dsimp only
      split_ifs <;> rfl
    | some n =>
      dsimp only
      split_ifs <;> rfl
  · rfl

variable [Add T] [Zero T]

/-! ## One step -/

/-- `runSet` leaves the entries, or adds one at the end and evicts. -/
theorem runSet_entries (computation : Option Nat) (key : Text) (value : Option V) (ttlMs : T) (s : State V T ε) :
    (runSet maxEntries computation key value ttlMs s).cache.entries = s.cache.entries ∨
    ∃ entry, (runSet maxEntries computation key value ttlMs s).cache.entries =
        TtlCache.evict maxEntries ((s.cache.entries.filter fun e => e.1 ≠ key) ++ [(key, entry)]) ∧
      (runSet maxEntries computation key value ttlMs s).lastUse = Function.update s.lastUse key s.operations := by
  unfold runSet TtlCache.set
  by_cases hskip : ttlMs ≤ 0 ∨ maxEntries ≤ 0
  · rw [if_pos hskip]
    exact .inl rfl
  · rw [if_neg hskip, if_neg hskip, set_delete]
    exact .inr ⟨_, rfl, rfl⟩

/-- A step leaves the entries, reads one of them, or stores one. -/
theorem step_entries (hs : step maxEntries s l = some s') :
    s'.cache.entries = s.cache.entries ∨
    (∃ key, (l = .get key ∨ l = .getOrCompute key) ∧ s'.cache.entries = (s.cache.get key s.now).2.entries) ∨
    ∃ key entry, s'.cache.entries =
        TtlCache.evict maxEntries ((s.cache.entries.filter fun e => e.1 ≠ key) ++ [(key, entry)]) ∧
      s'.lastUse = Function.update s.lastUse key s.operations := by
  obtain ⟨t, ht, rfl⟩ := moves_of_step hs
  cases ht with
  | get key => exact .inr (.inl ⟨key, .inl rfl, rfl⟩)
  | getOrCompute key => exact .inr (.inl ⟨key, .inr rfl, runGetOrCompute_entries key s⟩)
  | set key value ttlMs =>
    rcases runSet_entries none key value ttlMs s with hsame | ⟨entry, hstored⟩
    · exact .inl hsame
    · exact .inr (.inr ⟨key, entry, hstored⟩)
  | @store n c value ttlMs hc hstage houtcome =>
    rcases runSet_entries (some n) c.key value ttlMs (advance n { c with stage := .handled } s) with
      hsame | ⟨entry, hstored⟩
    · exact .inl hsame
    · exact .inr (.inr ⟨c.key, entry, hstored⟩)
  | clock | settle | skip | release | deliver => exact .inl rfl

/-- An entry goes when it is read after its expiry, or when the cache is full and all others were used after it. -/
theorem step_evicts (hi : Inv maxEntries s) (hs : step maxEntries s l = some s') {key : Text} {entry : Entry V T}
    (hentry : s.cache.entries.get key = some entry) (hgone : s'.cache.entries.get key = none) :
    ((l = .get key ∨ l = .getOrCompute key) ∧ entry.expiresAt ≤ s.now) ∨
    maxEntries < s'.cache.entries.length + 1 ∧
      ∀ kept entry', s'.cache.entries.get kept = some entry' → s'.lastUse key < s'.lastUse kept := by
  rcases step_entries hs with hsame | ⟨k, hl, hread⟩ | ⟨k, new, hstored, hlastUse⟩
  · rw [hsame, hentry] at hgone
    cases hgone
  · left
    rcases get_cases k s.now s.cache with ⟨-, hget⟩ | ⟨old, hold, hexpired, hget⟩ | ⟨old, hold, hlive, hget⟩
    · rw [hread, hget, hentry] at hgone
      cases hgone
    · rw [hread, hget, JsMap.get_delete] at hgone
      split_ifs at hgone with hk
      · rw [← hk, hold] at hentry
        cases hentry
        exact ⟨hk ▸ hl, hexpired⟩
      · rw [hentry] at hgone
        cases hgone
    · rw [hread, hget, JsMap.get_set, JsMap.get_delete] at hgone
      split_ifs at hgone
      rw [hentry] at hgone
      cases hgone
  · right
    have htouch := hi.recency.touch k new
    obtain ⟨dropped, heq, hneeded, -⟩ := evict_spec maxEntries
      ((s.cache.entries.filter fun e => e.1 ≠ k) ++ [(k, new)])
    rw [← hstored] at heq hneeded
    rw [heq, ← hlastUse] at htouch
    -- it stood in front of those that are kept
    have hdropped : ∃ e, (key, e) ∈ dropped := by
      have hmem : ∃ e, (key, e) ∈ dropped ++ s'.cache.entries := by
        rw [← heq]
        by_cases hk : key = k
        · exact ⟨new, by simp [hk]⟩
        · exact ⟨entry, by simp [JsMap.mem_of_get hentry, hk]⟩
      obtain ⟨e, he⟩ := hmem
      rcases List.mem_append.mp he with he | he
      · exact ⟨e, he⟩
      · have hkept := htouch.sublist (List.sublist_append_right ..)
        rw [JsMap.get_of_mem he fun v hv => hkept.unique hv he] at hgone
        cases hgone
    obtain ⟨e, he⟩ := hdropped
    refine ⟨hneeded (List.ne_nil_of_mem he), fun kept entry' hkept => ?_⟩
    exact htouch.lt_of_append he (JsMap.mem_of_get hkept)

/-- A computation is never forgotten, and its outcome never changes. -/
theorem step_computation (hi : Inv maxEntries s) (hs : step maxEntries s l = some s') {n : Nat}
    {c : Computation V T ε} (hc : s.computations[n]? = some c) :
    ∃ c', s'.computations[n]? = some c' ∧ ∀ outcome, c.outcome = some outcome → c'.outcome = some outcome := by
  have hadvance : ∀ (m : Nat) (d d' : Computation V T ε), s.computations[m]? = some d →
      (∀ outcome, d.outcome = some outcome → d'.outcome = some outcome) →
      ∃ c', (s.computations.set m d')[n]? = some c' ∧
        ∀ outcome, c.outcome = some outcome → c'.outcome = some outcome := by
    intro m d d' hd hkeeps
    by_cases hmn : m = n
    · subst hmn
      cases hc.symm.trans hd
      exact ⟨d', List.getElem?_set_self (List.getElem?_eq_some_iff.mp hd).1, hkeeps⟩
    · exact ⟨c, (List.getElem?_set_ne hmn).trans hc, fun _ => id⟩
  have hrunSet : ∀ (t : State V T ε) (computation : Option Nat) (key : Text) (value : Option V) (ttlMs : T),
      (runSet maxEntries computation key value ttlMs t).computations = t.computations := by
    intro t computation key value ttlMs
    unfold runSet
    split_ifs <;> rfl
  obtain ⟨t, ht, rfl⟩ := moves_of_step hs
  cases ht with
  | clock => exact ⟨c, hc, fun _ => id⟩
  | get key => exact ⟨c, by rw [State.later, runGet_computations]; exact hc, fun _ => id⟩
  | set key value ttlMs => exact ⟨c, by rw [State.later, hrunSet]; exact hc, fun _ => id⟩
  | getOrCompute key =>
    refine ⟨c, ?_, fun _ => id⟩
    change (runGetOrCompute key s).computations[n]? = some c
    rcases getOrCompute_cases key s with ⟨value, -, -, heq⟩ | ⟨m, -, hpending, -, heq⟩ | ⟨-, -, -, heq⟩
    · rw [heq, runGet_computations]
      exact hc
    · obtain ⟨d, hd, -⟩ := (hi.inflight key m).mp hpending
      rw [heq (List.getElem?_eq_some_iff.mp hd).1.ne, runGet_computations]
      exact hc
    · rw [heq]
      exact (List.getElem?_append_left (List.getElem?_eq_some_iff.mp hc).1).trans hc
  | @settle m d outcome hd hstage =>
    refine hadvance m d _ hd fun o ho => ?_
    rw [hi.pending m d hd hstage] at ho
    cases ho
  | @store m d value ttlMs hd hstage houtcome =>
    rw [State.later, hrunSet]
    exact hadvance m d _ hd fun _ => id
  | skip hd | release hd | deliver hd => exact hadvance _ _ _ hd fun _ => id

/-! ## Runs -/

/-- A computation keeps its outcome. -/
theorem outcome_after (h : Runs.Reachable (system maxEntries) s) {n : Nat} {c : Computation V T ε}
    (hc : s.computations[n]? = some c) (hs' : Runs.Reachable ((system maxEntries).after s) s') :
    Inv maxEntries s' ∧ ∃ c', s'.computations[n]? = some c' ∧
      ∀ outcome, c.outcome = some outcome → c'.outcome = some outcome := by
  refine hs'.invariant (I := fun t => Inv maxEntries t ∧ ∃ c', t.computations[n]? = some c' ∧
      ∀ outcome, c.outcome = some outcome → c'.outcome = some outcome) (fun t ht => ?_) ?_
  · cases ht
    exact ⟨inv_of_reachable h, c, hc, fun _ => id⟩
  · rintro t l t' ⟨hi, c', hc', hkeeps⟩ - hs
    obtain ⟨c'', hc'', hkeeps'⟩ := step_computation hi hs hc'
    exact ⟨hi.step hs, c'', hc'', fun o ho => hkeeps' o (hkeeps o ho)⟩

/-- The cache is bounded, a hit is the value last stored and not expired, what goes has expired or was used before
all others, a key has one computation at a time whose outcome its callers get, and one that fails stores nothing.
Only a value that is stored by a direct call of `set` meanwhile comes before. -/
theorem proof_cache (h : Runs.Reachable (system maxEntries) s) :
    (s.cache.entries.length : Rat) ≤ max 0 maxEntries ∧
    (∀ key value, (s.cache.get key s.now).1 = some value →
      ∃ r, s.lastStored key = some r ∧ r.value = some value ∧ s.now < r.expiresAt) ∧
    (∀ l s', step maxEntries s l = some s' → ∀ key entry, s.cache.entries.get key = some entry →
      s'.cache.entries.get key = none →
      ((l = .get key ∨ l = .getOrCompute key) ∧ entry.expiresAt ≤ s.now) ∨
      maxEntries < s'.cache.entries.length + 1 ∧
        ∀ kept entry', s'.cache.entries.get kept = some entry' → s'.lastUse key < s'.lastUse kept) ∧
    (∀ (m n : Nat) (c d : Computation V T ε), s.computations[m]? = some c → s.computations[n]? = some d →
      c.InFlight → d.InFlight → c.key = d.key → m = n) ∧
    (∀ (n : Nat) (c : Computation V T ε), s.computations[n]? = some c → c.InFlight →
      DirectHit s c (answerOf s c.key) ∨
      ∀ s', Runs.Reachable ((system maxEntries).after s) s' → ∀ result,
        callerOutcome s' (.shared n) = some result → callerOutcome s' (answerOf s c.key) = some result) ∧
    ∀ (n : Nat) (c : Computation V T ε) error, s.computations[n]? = some c → c.outcome = some (.failed error) →
      (∀ key r, s.lastStored key = some r → r.computation ≠ some n) ∧
      (¬c.InFlight →
        (∀ (m : Nat) (d : Computation V T ε), s.computations[m]? = some d → d.key = c.key → m ≤ n) →
        answerOf s c.key = .shared s.computations.length ∨ DirectHit s c (answerOf s c.key)) := by
  have hi := inv_of_reachable h
  refine ⟨?_, fun key value => get_hit hi, fun l s' hs key entry => step_evicts hi hs,
    fun m n c d hc hd => hi.exclusive hc hd, fun n c hc hflight => ?_, fun n c error hc hfailed => ⟨?_, ?_⟩⟩
  · rcases hi.size with hnil | hle
    · rw [hnil]
      exact le_max_left ..
    · exact hle.trans (le_max_right ..)
  · rcases answer_in_flight hi hc hflight with hshared | hdirect | ⟨value, ttlMs, hhit, hcomputed⟩
    · rw [hshared]
      exact .inr fun _ _ _ => id
    · exact .inl hdirect
    · refine .inr fun s' hs' result hresult => ?_
      obtain ⟨-, c', hc', hkeeps⟩ := outcome_after h hc hs'
      rw [callerOutcome, hc'] at hresult
      dsimp only at hresult
      split_ifs at hresult
      rw [hkeeps _ hcomputed] at hresult
      rw [hhit]
      exact hresult
  · intro key r hr hn
    obtain ⟨d, ttlMs, hd, -, hcomputed⟩ := hi.own key r n hr hn
    cases hc.symm.trans hd
    cases hfailed.symm.trans hcomputed
  · exact answer_after_failure hi hc hfailed

def Demo.initial : State Nat Int Nat where
  cache := { entries := [], inflight := [] }
  now := 0
  computations := []
  operations := 0
  lastUse _ := 0
  lastStored _ := none

theorem Demo.reachable_initial : Runs.Reachable (system (2 : Rat)) Demo.initial := .init ⟨rfl, rfl, rfl, rfl, rfl⟩

/-- A computation fails, and its callers get the error, while another goes on. -/
def Demo.failure : List (Label Nat Int Nat) :=
  [.getOrCompute "a".toList, .getOrCompute "b".toList, .settle 0 (.failed 7), .afterThen 0, .afterFinally 0, .deliver 0,
    .set "c".toList (some 3) 10]

theorem proof_cache_failure :
    ∃ s : State Nat Int Nat, Runs.Reachable (system 2) s ∧ callerOutcome s (.shared 0) = some (.error 7) ∧
      (s.cache.entries.length : Rat) ≤ max 0 2 ∧ ∃ c, s.computations[0]? = some c ∧
      (answerOf s c.key = .shared s.computations.length ∨ DirectHit s c (answerOf s c.key)) := by
  have hrun : ((system (2 : Rat)).replay Demo.initial Demo.failure).any (fun s => decide (s.computations =
      [{ key := "a".toList, started := 0, stage := .delivered, outcome := some (.failed 7) },
        { key := "b".toList, started := 1, stage := .pending, outcome := none }])) = true := by decide
  obtain ⟨s, hs, hcomputations⟩ := (Option.any_eq_true _ _).mp hrun
  have hcomputations := of_decide_eq_true hcomputations
  have hreach : Runs.Reachable (system (2 : Rat)) s := Demo.reachable_initial.replay hs
  obtain ⟨hsize, -, -, -, -, hfailed⟩ := proof_cache hreach
  have hc : s.computations[0]? =
      some { key := "a".toList, started := 0, stage := .delivered, outcome := some (.failed 7) } := by
    rw [hcomputations]
    rfl
  refine ⟨s, hreach, ?_, hsize, _, hc, (hfailed 0 _ 7 hc rfl).2 (by simp [Computation.InFlight]) ?_⟩
  · rw [callerOutcome, hc]
    rfl
  · intro m d hd hkey
    rw [hcomputations] at hd
    rcases m with _ | _ | m
    · exact le_rfl
    · cases hd
      exact absurd hkey (by decide)
    · cases hd

def Demo.overtaken : List (Label Nat Int Nat) := [.getOrCompute "a".toList, .set "a".toList (some 2) 10]

def Demo.computed : List (Label Nat Int Nat) :=
  [.settle 0 (.computed (some 1) 10), .afterThen 0, .afterFinally 0, .deliver 0]

/-- A direct `set` while the value of its key is computed: the next caller gets that value, and not the outcome. -/
theorem direct_set_overtakes :
    ¬∀ s : State Nat Int Nat, Runs.Reachable (system 2) s → ∀ (n : Nat) (c : Computation Nat Int Nat),
      s.computations[n]? = some c → c.InFlight → ∀ s', Runs.Reachable ((system 2).after s) s' → ∀ result,
      callerOutcome s' (.shared n) = some result → callerOutcome s' (answerOf s c.key) = some result := by
  intro hall
  have hrun : ((system (2 : Rat)).replay Demo.initial Demo.overtaken).any (fun s =>
      decide (s.computations = [{ key := "a".toList, started := 0, stage := .pending, outcome := none }]) &&
      decide (answerOf s "a".toList = .hit 2) &&
      ((system (2 : Rat)).replay s Demo.computed).any fun s' => decide (s'.computations =
        [{ key := "a".toList, started := 0, stage := .delivered, outcome := some (.computed (some 1) 10) }])) =
      true := by decide
  obtain ⟨s, hs, hchecks⟩ := (Option.any_eq_true _ _).mp hrun
  simp only [Bool.and_eq_true, decide_eq_true_eq] at hchecks
  obtain ⟨⟨hcomputations, hhit⟩, hafter⟩ := hchecks
  obtain ⟨s', hs', hcomputations'⟩ := (Option.any_eq_true _ _).mp hafter
  have hcomputations' := of_decide_eq_true hcomputations'
  have hreach' : Runs.Reachable ((system (2 : Rat)).after s) s' := (Runs.Via.init rfl).replay hs'
  have houtcome : callerOutcome s' (.shared 0) = some (.ok (some 1)) := by
    rw [callerOutcome, hcomputations']
    rfl
  have hcaller := hall s (Demo.reachable_initial.replay hs) 0 _ (by rw [hcomputations]; rfl) (.inl rfl) s' hreach' _
    houtcome
  rw [hhit] at hcaller
  cases hcaller

end Writz.Relayer.ProofCache

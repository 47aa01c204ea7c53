import Mathlib.Tactic.Linarith
import Writz.Relayer.ProofCache
import Writz.Util.Recency

/-!
# Proofs: the invariant of the cache

The entries stand in the order of their last use, each is what was last stored for its key, and the map of
computations has those whose `finally` has not run. An entry that has a value was stored after the last computation
of its key started.
-/

namespace Writz.Relayer.ProofCache

open Node

variable {V T ε : Type} {maxEntries : Rat}

/-! ## Entries -/

section Entries

variable {entries : JsMap Text (Entry V T)} {key : Text}

/-- The first entries are dropped, no more than needed. -/
theorem evict_spec (maxEntries : Rat) (entries : JsMap Text (Entry V T)) :
    ∃ dropped, entries = dropped ++ TtlCache.evict maxEntries entries ∧
      (dropped ≠ [] → ((TtlCache.evict maxEntries entries).length : Rat) + 1 > maxEntries) ∧
      (TtlCache.evict maxEntries entries = [] ∨ ((TtlCache.evict maxEntries entries).length : Rat) ≤ maxEntries) := by
  induction entries with
  | nil => exact ⟨[], rfl, fun h => absurd rfl h, .inl rfl⟩
  | cons e entries ih =>
    rw [TtlCache.evict]
    by_cases hlong : ((e :: entries).length : Rat) > maxEntries
    · obtain ⟨dropped, heq, hneeded, hsize⟩ := ih
      rw [if_pos hlong]
      refine ⟨e :: dropped, by rw [List.cons_append, ← heq], fun _ => ?_, hsize⟩
      by_cases hdropped : dropped = []
      · rw [hdropped, List.nil_append] at heq
        rw [← heq]
        simpa using hlong
      · exact hneeded hdropped
    · rw [if_neg hlong]
      exact ⟨[], rfl, fun h => absurd rfl h, .inr (not_lt.mp hlong)⟩

/-- An entry that is set again goes to the end. -/
theorem set_delete (entry : Entry V T) :
    (entries.delete key).set key entry = (entries.filter fun e => e.1 ≠ key) ++ [(key, entry)] := by
  refine JsMap.set_of_get_eq_none ?_
  rw [JsMap.get_delete, if_pos rfl]

theorem get_of_delete {k : Text} {entry : Entry V T} (h : (entries.delete key).get k = some entry) :
    entries.get k = some entry := by
  rw [JsMap.get_delete] at h
  split_ifs at h
  exact h

variable [LinearOrder T]

/-- The three ways of `get`: there is no entry, it has expired, or it is used. -/
theorem get_cases (key : Text) (now : T) (cache : TtlCache V T) :
    (cache.entries.get key = none ∧ cache.get key now = (none, cache)) ∨
    (∃ entry, cache.entries.get key = some entry ∧ entry.expiresAt ≤ now ∧
      cache.get key now = (none, { cache with entries := cache.entries.delete key })) ∨
    ∃ entry, cache.entries.get key = some entry ∧ now < entry.expiresAt ∧
      cache.get key now = (entry.value, { cache with entries := (cache.entries.delete key).set key entry }) := by
  unfold TtlCache.get
  cases hentry : cache.entries.get key with
  | none => exact .inl ⟨rfl, rfl⟩
  | some entry =>
    by_cases hexpired : entry.expiresAt ≤ now
    · exact .inr (.inl ⟨entry, rfl, hexpired, if_pos hexpired⟩)
    · exact .inr (.inr ⟨entry, rfl, not_le.mp hexpired, if_neg hexpired⟩)

theorem inflight_get (key : Text) (now : T) (cache : TtlCache V T) : (cache.get key now).2.inflight = cache.inflight := by
  rcases get_cases key now cache with ⟨-, hget⟩ | ⟨entry, -, -, hget⟩ | ⟨entry, -, -, hget⟩ <;> rw [hget]

/-- After a miss there is no entry, or one of `undefined`. -/
theorem value_of_get_none {now : T} {cache : TtlCache V T} (hmiss : (cache.get key now).1 = none)
    {entry : Entry V T} (hentry : (cache.get key now).2.entries.get key = some entry) : entry.value = none := by
  rcases get_cases key now cache with ⟨habsent, hget⟩ | ⟨old, -, -, hget⟩ | ⟨old, -, -, hget⟩
  · rw [hget] at hentry
    cases habsent.symm.trans hentry
  · rw [hget, JsMap.get_delete, if_pos rfl] at hentry
    cases hentry
  · rw [hget, JsMap.get_set, if_pos rfl] at hentry
    rw [hget] at hmiss
    cases hentry
    exact hmiss

/-- `get` does nothing but to the entries and their last uses. -/
theorem runGet_eq (key : Text) (s : State V T ε) :
    runGet key s = { s with cache := (s.cache.get key s.now).2, lastUse := (runGet key s).lastUse } := by
  unfold runGet markUse
  cases s.cache.entries.get key with
  | none => rfl
  | some entry =>
    dsimp only
    split_ifs <;> rfl

theorem runGet_computations (key : Text) (s : State V T ε) : (runGet key s).computations = s.computations := by
  rw [runGet_eq]

/-- The three ways of `getOrCompute`: a hit, a computation in flight is shared, or one starts. -/
theorem getOrCompute_cases (key : Text) (s : State V T ε) :
    (∃ value, (s.cache.get key s.now).1 = some value ∧
      (s.cache.getOrCompute key s.now s.computations.length).1 = .hit value ∧
      runGetOrCompute key s = runGet key s) ∨
    (∃ n, (s.cache.get key s.now).1 = none ∧ s.cache.inflight.get key = some n ∧
      (s.cache.getOrCompute key s.now s.computations.length).1 = .shared n ∧
      (n ≠ s.computations.length → runGetOrCompute key s = runGet key s)) ∨
    (s.cache.get key s.now).1 = none ∧ s.cache.inflight.get key = none ∧
      (s.cache.getOrCompute key s.now s.computations.length).1 = .shared s.computations.length ∧
      runGetOrCompute key s = { runGet key s with
        cache := { (runGet key s).cache with
          inflight := (runGet key s).cache.inflight.set key s.computations.length }
        computations := s.computations ++
          [{ key, started := s.operations, stage := .pending, outcome := none }] } := by
  have hinflight := inflight_get key s.now s.cache
  have hcache : (runGet key s).cache = (s.cache.get key s.now).2 := rfl
  unfold runGetOrCompute TtlCache.getOrCompute
  rw [hcache]
  unfold runGet
  generalize s.cache.get key s.now = result at hinflight
  obtain ⟨_ | value, cache⟩ := result
  · cases hpending : cache.inflight.get key with
    | some n =>
      refine .inr (.inl ⟨n, rfl, (congrArg _ hinflight.symm).trans hpending, ?_, fun hn => ?_⟩)
      · dsimp only
        rw [hpending]
      · dsimp only
        rw [hpending]
        exact if_neg hn
    | none =>
      refine .inr (.inr ⟨rfl, (congrArg _ hinflight.symm).trans hpending, ?_, ?_⟩)
      · dsimp only
        rw [hpending]
      · dsimp only
        rw [hpending]
        exact if_pos rfl
  · exact .inl ⟨value, rfl, rfl, rfl⟩

end Entries

/-! ## Labels -/

/-- What a label can do. -/
inductive Moves [LinearOrder T] [Add T] [Zero T] (maxEntries : Rat) (s : State V T ε) :
    Label V T ε → State V T ε → Prop where
  | clock {now : T} (h : s.now ≤ now) : Moves maxEntries s (.clock now) { s with now }
  | get (key : Text) : Moves maxEntries s (.get key) (runGet key s)
  | set (key : Text) (value : Option V) (ttlMs : T) :
    Moves maxEntries s (.set key value ttlMs) (runSet maxEntries none key value ttlMs s)
  | getOrCompute (key : Text) : Moves maxEntries s (.getOrCompute key) (runGetOrCompute key s)
  | settle {n : Nat} {c : Computation V T ε} (outcome : Outcome V T ε) (hc : s.computations[n]? = some c)
    (hstage : c.stage = .pending) :
    Moves maxEntries s (.settle n outcome) (advance n { c with stage := .settled, outcome := some outcome } s)
  | store {n : Nat} {c : Computation V T ε} {value : Option V} {ttlMs : T} (hc : s.computations[n]? = some c)
    (hstage : c.stage = .settled) (houtcome : c.outcome = some (.computed value ttlMs)) :
    Moves maxEntries s (.afterThen n)
      (runSet maxEntries (some n) c.key value ttlMs (advance n { c with stage := .handled } s))
  | skip {n : Nat} {c : Computation V T ε} (hc : s.computations[n]? = some c) (hstage : c.stage = .settled) :
    Moves maxEntries s (.afterThen n) (advance n { c with stage := .handled } s)
  | release {n : Nat} {c : Computation V T ε} (hc : s.computations[n]? = some c) (hstage : c.stage = .handled) :
    Moves maxEntries s (.afterFinally n)
      { advance n { c with stage := .released } s with
        cache := { s.cache with inflight := s.cache.inflight.delete c.key } }
  | deliver {n : Nat} {c : Computation V T ε} (hc : s.computations[n]? = some c) (hstage : c.stage = .released) :
    Moves maxEntries s (.deliver n) (advance n { c with stage := .delivered } s)

theorem moves_of_step [LinearOrder T] [Add T] [Zero T] {s s' : State V T ε} {l : Label V T ε}
    (hs : step maxEntries s l = some s') : ∃ t, Moves maxEntries s l t ∧ s' = t.later := by
  obtain ⟨t, ht, rfl⟩ := Option.map_eq_some_iff.mp hs
  refine ⟨t, ?_, rfl⟩
  cases l with
  | clock now =>
    rw [runLabel] at ht
    split_ifs at ht with h
    cases ht
    exact .clock h
  | get key =>
    cases ht
    exact .get key
  | set key value ttlMs =>
    cases ht
    exact .set key value ttlMs
  | getOrCompute key =>
    cases ht
    exact .getOrCompute key
  | settle n outcome =>
    rw [runLabel] at ht
    split at ht
    · rename_i c hc
      split_ifs at ht with hstage
      cases ht
      exact .settle outcome hc hstage
    · cases ht
  | afterThen n =>
    rw [runLabel] at ht
    split at ht
    · rename_i c hc
      split_ifs at ht with hstage
      dsimp only at ht
      split at ht
      · rename_i value ttlMs houtcome
        cases ht
        exact .store hc hstage houtcome
      · cases ht
        exact .skip hc hstage
    · cases ht
  | afterFinally n =>
    rw [runLabel] at ht
    split at ht
    · rename_i c hc
      split_ifs at ht with hstage
      cases ht
      exact .release hc hstage
    · cases ht
  | deliver n =>
    rw [runLabel] at ht
    split at ht
    · rename_i c hc
      split_ifs at ht with hstage
      cases ht
      exact .deliver hc hstage
    · cases ht

/-! ## The invariant -/

/-- The value of a key was stored after a computation of it started, directly or by that computation or a later
one. -/
def StoredSince (s : State V T ε) (n : Nat) (c : Computation V T ε) : Prop :=
  ∃ r, s.lastStored c.key = some r ∧ c.started < r.operation ∧ ∀ m, r.computation = some m → n ≤ m

structure Inv (maxEntries : Rat) (s : State V T ε) : Prop where
  recency : IsRecency s.lastUse s.operations s.cache.entries
  size : s.cache.entries = [] ∨ (s.cache.entries.length : Rat) ≤ maxEntries
  stored : ∀ key entry, s.cache.entries.get key = some entry →
    ∃ r, s.lastStored key = some r ∧ r.value = entry.value ∧ r.expiresAt = entry.expiresAt
  inflight : ∀ key (n : Nat), s.cache.inflight.get key = some n ↔
    ∃ c : Computation V T ε, s.computations[n]? = some c ∧ c.key = key ∧ c.InFlight
  started : ∀ (n : Nat) (c : Computation V T ε), s.computations[n]? = some c → c.started < s.operations
  pending : ∀ (n : Nat) (c : Computation V T ε), s.computations[n]? = some c → c.stage = .pending → c.outcome = none
  latest : ∀ (m n : Nat) (c d : Computation V T ε), s.computations[m]? = some c → s.computations[n]? = some d →
    c.InFlight → c.key = d.key → n ≤ m
  fresh : ∀ (n : Nat) (c : Computation V T ε), s.computations[n]? = some c →
    ∀ entry, s.cache.entries.get c.key = some entry → entry.value ≠ none → StoredSince s n c
  own : ∀ key r (n : Nat), s.lastStored key = some r → r.computation = some n →
    ∃ (c : Computation V T ε) (ttlMs : T), s.computations[n]? = some c ∧ c.key = key ∧
      c.outcome = some (.computed r.value ttlMs)

namespace Inv

variable {s : State V T ε}

/-- The entries are reordered, or some of them are dropped. -/
theorem reorder (hi : Inv maxEntries s) {entries : JsMap Text (Entry V T)} {lastUse : Text → Nat}
    (hrecency : IsRecency lastUse (s.operations + 1) entries) (hlength : entries.length ≤ s.cache.entries.length)
    (hget : ∀ k e, entries.get k = some e → s.cache.entries.get k = some e) :
    Inv maxEntries { s with cache := { s.cache with entries }, lastUse, operations := s.operations + 1 } := by
  refine ⟨hrecency, ?_, fun k e he => hi.stored k e (hget k e he), hi.inflight, fun n c hc => ?_, hi.pending,
    hi.latest, fun n c hc e he => hi.fresh n c hc e (hget c.key e he), hi.own⟩
  · rcases hi.size with hnil | hle
    · refine .inl (List.length_eq_zero_iff.mp ?_)
      rw [hnil] at hlength
      exact Nat.le_zero.mp hlength
    · exact .inr (le_trans (by exact_mod_cast hlength) hle)
  · exact (hi.started n c hc).trans (Nat.lt_succ_self _)

/-- Nothing of the cache changes. -/
theorem later (hi : Inv maxEntries s) : Inv maxEntries s.later :=
  hi.reorder hi.recency.later le_rfl fun _ _ he => he

/-- A computation goes on to its next stage; the map of computations has it as long as its `finally` has not run. -/
theorem advance (hi : Inv maxEntries s) {n : Nat} {c : Computation V T ε} (c' : Computation V T ε)
    {inflight : JsMap Text Nat}
    (hc : s.computations[n]? = some c) (hkey : c'.key = c.key) (hstarted : c'.started = c.started)
    (houtcome : c'.outcome = c.outcome ∨ c.outcome = none) (hstage : c'.stage ≠ .pending)
    (hinflight : c'.InFlight → c.InFlight)
    (hmap : ∀ key m, inflight.get key = some m ↔ s.cache.inflight.get key = some m ∧ (m = n → c'.InFlight)) :
    Inv maxEntries { ProofCache.advance n c' s with cache := { s.cache with inflight } } := by
  have hn : n < s.computations.length := (List.getElem?_eq_some_iff.mp hc).1
  have hself : (s.computations.set n c')[n]? = some c' := List.getElem?_set_self hn
  have hother : ∀ m, m ≠ n → (s.computations.set n c')[m]? = s.computations[m]? := fun m hm =>
    List.getElem?_set_ne hm.symm
  have hold : ∀ (m : Nat) (d : Computation V T ε), (s.computations.set n c')[m]? = some d →
      ∃ d' : Computation V T ε, s.computations[m]? = some d' ∧ d.key = d'.key ∧ (d.InFlight → d'.InFlight) := by
    intro m d hd
    by_cases hmn : m = n
    · subst hmn
      cases hself.symm.trans hd
      exact ⟨c, hc, hkey, hinflight⟩
    · exact ⟨d, (hother m hmn).symm.trans hd, rfl, id⟩
  refine ⟨hi.recency, hi.size, hi.stored, fun key m => ?_, fun m d hd => ?_, fun m d hd hpending => ?_,
    fun m k d e hd he hflight hdkey => ?_, fun m d hd entry hentry hvalue => ?_, fun key r m hr hm => ?_⟩
  · change inflight.get key = some m ↔ ∃ d, (s.computations.set n c')[m]? = some d ∧ d.key = key ∧ d.InFlight
    rw [hmap, hi.inflight]
    by_cases hmn : m = n
    · subst hmn
      rw [hself, hc]
      constructor
      · rintro ⟨⟨d, hd, hdkey, -⟩, hflight⟩
        cases hd
        exact ⟨c', rfl, hkey.trans hdkey, hflight rfl⟩
      · rintro ⟨d, hd, hdkey, hflight⟩
        cases hd
        exact ⟨⟨c, rfl, hkey.symm.trans hdkey, hinflight hflight⟩, fun _ => hflight⟩
    · rw [hother m hmn]
      exact ⟨fun h => h.1, fun h => ⟨h, fun h' => absurd h' hmn⟩⟩
  · by_cases hmn : m = n
    · subst hmn
      cases hself.symm.trans hd
      rw [hstarted]
      exact hi.started m c hc
    · exact hi.started m d ((hother m hmn).symm.trans hd)
  · by_cases hmn : m = n
    · subst hmn
      cases hself.symm.trans hd
      exact absurd hpending hstage
    · exact hi.pending m d ((hother m hmn).symm.trans hd) hpending
  · obtain ⟨d', hd', hdkey', hflight'⟩ := hold m d hd
    obtain ⟨e', he', hekey', -⟩ := hold k e he
    exact hi.latest m k d' e' hd' he' (hflight' hflight) (by rw [← hdkey', ← hekey', hdkey])
  · by_cases hmn : m = n
    · subst hmn
      cases hself.symm.trans hd
      rw [hkey] at hentry
      obtain ⟨r, hr, hsince, hwriter⟩ := hi.fresh m c hc entry hentry hvalue
      exact ⟨r, by rw [hkey]; exact hr, by rw [hstarted]; exact hsince, hwriter⟩
    · exact hi.fresh m d ((hother m hmn).symm.trans hd) entry hentry hvalue
  · obtain ⟨d, ttlMs, hd, hdkey, hcomputed⟩ := hi.own key r m hr hm
    by_cases hmn : m = n
    · subst hmn
      cases hc.symm.trans hd
      rcases houtcome with heq | hnone
      · exact ⟨c', ttlMs, hself, hkey.trans hdkey, heq.trans hcomputed⟩
      · rw [hnone] at hcomputed
        cases hcomputed
    · exact ⟨d, ttlMs, (hother m hmn).trans hd, hdkey, hcomputed⟩

/-- At most one computation of a key is in flight. -/
theorem exclusive (hi : Inv maxEntries s) {m n : Nat} {c d : Computation V T ε} (hc : s.computations[m]? = some c)
    (hd : s.computations[n]? = some d) (hflight : c.InFlight) (hflight' : d.InFlight) (hkey : c.key = d.key) : m = n := by
  have hm := (hi.inflight d.key m).mpr ⟨c, hc, hkey, hflight⟩
  rw [(hi.inflight d.key n).mpr ⟨d, hd, rfl, hflight'⟩] at hm
  exact (Option.some_inj.mp hm).symm

/-- A computation of a key starts when none is in flight and no value is cached. -/
theorem start (hi : Inv maxEntries s) {key : Text} {started : Nat} (hstarted : started < s.operations)
    (hidle : s.cache.inflight.get key = none)
    (hmiss : ∀ entry, s.cache.entries.get key = some entry → entry.value = none) :
    Inv maxEntries { s with
      cache := { s.cache with inflight := s.cache.inflight.set key s.computations.length }
      computations := s.computations ++ [{ key, started, stage := .pending, outcome := none }] } := by
  have hold : ∀ (n : Nat) (c : Computation V T ε), s.computations[n]? = some c →
      (s.computations ++ [{ key, started, stage := .pending, outcome := none }])[n]? = some c := by
    intro n c hc
    rw [List.getElem?_append_left (List.getElem?_eq_some_iff.mp hc).1]
    exact hc
  have hcases : ∀ (n : Nat) (c : Computation V T ε),
      (s.computations ++ [{ key, started, stage := .pending, outcome := none }])[n]? = some c →
      s.computations[n]? = some c ∨
        n = s.computations.length ∧ c = { key, started, stage := .pending, outcome := none } := by
    intro n c hc
    rcases lt_trichotomy n s.computations.length with hn | hn | hn
    · rw [List.getElem?_append_left hn] at hc
      exact .inl hc
    · rw [hn, List.getElem?_concat_length] at hc
      exact .inr ⟨hn, (Option.some_inj.mp hc).symm⟩
    · rw [List.getElem?_eq_none (by simpa using Nat.succ_le_of_lt hn)] at hc
      cases hc
  refine ⟨hi.recency, hi.size, hi.stored, fun k n => ?_, fun n c hc => ?_, fun n c hc hpending => ?_,
    fun m n c d hc hd hflight hkey => ?_, fun n c hc entry hentry hvalue => ?_, fun k r n hr hn => ?_⟩
  · change (s.cache.inflight.set key s.computations.length).get k = some n ↔ _
    rw [JsMap.get_set]
    by_cases hk : key = k
    · subst hk
      rw [if_pos rfl]
      constructor
      · intro hn
        rw [← Option.some_inj.mp hn]
        exact ⟨_, List.getElem?_concat_length, rfl, .inl rfl⟩
      · rintro ⟨c, hc, hkey, hflight⟩
        rcases hcases n c hc with hc | ⟨rfl, -⟩
        · rw [(hi.inflight key n).mpr ⟨c, hc, hkey, hflight⟩] at hidle
          cases hidle
        · rfl
    · rw [if_neg hk, hi.inflight]
      constructor
      · rintro ⟨c, hc, hrest⟩
        exact ⟨c, hold n c hc, hrest⟩
      · rintro ⟨c, hc, hkey, hflight⟩
        rcases hcases n c hc with hc | ⟨-, rfl⟩
        · exact ⟨c, hc, hkey, hflight⟩
        · exact absurd hkey hk
  · rcases hcases n c hc with hc | ⟨-, rfl⟩
    · exact hi.started n c hc
    · exact hstarted
  · rcases hcases n c hc with hc | ⟨-, rfl⟩
    · exact hi.pending n c hc hpending
    · rfl
  · rcases hcases m c hc with hc | ⟨rfl, -⟩
    · rcases hcases n d hd with hd | ⟨-, rfl⟩
      · exact hi.latest m n c d hc hd hflight hkey
      · rw [(hi.inflight key m).mpr ⟨c, hc, hkey, hflight⟩] at hidle
        cases hidle
    · rcases hcases n d hd with hd | ⟨rfl, -⟩
      · exact (List.getElem?_eq_some_iff.mp hd).1.le
      · exact le_rfl
  · rcases hcases n c hc with hc | ⟨-, rfl⟩
    · exact hi.fresh n c hc entry hentry hvalue
    · exact absurd (hmiss entry hentry) hvalue
  · obtain ⟨c, ttlMs, hc, hcomputed⟩ := hi.own k r n hr hn
    exact ⟨c, ttlMs, hold n c hc, hcomputed⟩

/-- A stage that leaves the map of computations as it is. -/
theorem advance_same (hi : Inv maxEntries s) {n : Nat} {c : Computation V T ε} (c' : Computation V T ε)
    (hc : s.computations[n]? = some c) (hkey : c'.key = c.key) (hstarted : c'.started = c.started)
    (houtcome : c'.outcome = c.outcome ∨ c.outcome = none) (hstage : c'.stage ≠ .pending)
    (hflight : c'.InFlight ↔ c.InFlight) : Inv maxEntries (ProofCache.advance n c' s) := by
  refine hi.advance c' hc hkey hstarted houtcome hstage hflight.mp fun key m => ⟨fun hm => ⟨hm, fun hmn => ?_⟩, And.left⟩
  obtain ⟨d, hd, -, hflight'⟩ := (hi.inflight key m).mp hm
  rw [hmn, hc] at hd
  cases hd
  exact hflight.mpr hflight'

theorem release (hi : Inv maxEntries s) {n : Nat} {c : Computation V T ε} (hc : s.computations[n]? = some c)
    (hstage : c.stage = .handled) :
    Inv maxEntries { ProofCache.advance n { c with stage := .released } s with
      cache := { s.cache with inflight := s.cache.inflight.delete c.key } } := by
  have hflight : c.InFlight := .inr (.inr hstage)
  have hreleased : ¬({ c with stage := .released } : Computation V T ε).InFlight := by simp [Computation.InFlight]
  refine hi.advance { c with stage := .released } hc rfl rfl (.inl rfl) nofun (fun h => absurd h hreleased)
    fun key m => ?_
  rw [JsMap.get_delete]
  by_cases hk : c.key = key
  · rw [if_pos hk]
    constructor
    · intro h
      cases h
    · rintro ⟨hm, hno⟩
      rw [← hk, (hi.inflight c.key n).mpr ⟨c, hc, rfl, hflight⟩] at hm
      exact absurd (hno (Option.some_inj.mp hm).symm) hreleased
  · rw [if_neg hk]
    refine ⟨fun hm => ⟨hm, fun hmn => ?_⟩, And.left⟩
    obtain ⟨d, hd, hkey, -⟩ := (hi.inflight key m).mp hm
    rw [hmn, hc] at hd
    cases hd
    exact absurd hkey hk

variable [LinearOrder T]

theorem runGet (hi : Inv maxEntries s) (key : Text) :
    Inv maxEntries (ProofCache.runGet key s).later := by
  unfold ProofCache.runGet markUse
  rcases get_cases key s.now s.cache with ⟨hentry, hget⟩ | ⟨entry, hentry, hexpired, hget⟩ | ⟨entry, hentry, hlive, hget⟩
  · rw [hget, hentry]
    exact hi.later
  · rw [hget, hentry]
    dsimp only
    rw [if_pos hexpired]
    exact hi.reorder (hi.recency.later.sublist List.filter_sublist) (List.length_filter_le ..) fun k e => get_of_delete
  · rw [hget, hentry]
    dsimp only
    rw [if_neg (not_le.mpr hlive)]
    have hmem : (key, entry) ∈ s.cache.entries := JsMap.mem_of_get hentry
    refine hi.reorder ?_ ?_ fun k e he => ?_
    · rw [set_delete]
      exact hi.recency.touch key entry
    · have hdropped : (s.cache.entries.filter fun e => e.1 ≠ key).length < s.cache.entries.length :=
        List.length_filter_lt_length_iff_exists.mpr ⟨_, hmem, by simp⟩
      rw [set_delete, List.length_append, List.length_singleton]
      exact hdropped
    · rw [JsMap.get_set] at he
      split_ifs at he with hk
      · rw [← hk, hentry, he]
      · exact get_of_delete he

theorem runGetOrCompute (hi : Inv maxEntries s) (key : Text) :
    Inv maxEntries (ProofCache.runGetOrCompute key s).later := by
  rcases getOrCompute_cases key s with ⟨value, -, -, heq⟩ | ⟨n, -, hpending, -, heq⟩ | ⟨hmiss, hidle, -, heq⟩
  · rw [heq]
    exact hi.runGet key
  · obtain ⟨c, hc, -⟩ := (hi.inflight key n).mp hpending
    rw [heq (List.getElem?_eq_some_iff.mp hc).1.ne]
    exact hi.runGet key
  · rw [heq, ← runGet_computations key s]
    exact (hi.runGet key).start (by rw [State.later, runGet_eq]; exact Nat.lt_succ_self _) ((congrArg _ (inflight_get ..)).trans hidle) fun entry hentry =>
      value_of_get_none hmiss hentry

variable [Add T] [Zero T]

/-- A value is stored by a caller, or by the computation of its key. -/
theorem runSet (hi : Inv maxEntries s) {computation : Option Nat} {key : Text} {value : Option V} {ttlMs : T}
    (hby : ∀ n, computation = some n → ∃ (c : Computation V T ε) (ttlMs : T), s.computations[n]? = some c ∧
      c.key = key ∧ c.InFlight ∧ c.outcome = some (.computed value ttlMs)) :
    Inv maxEntries (ProofCache.runSet maxEntries computation key value ttlMs s).later := by
  unfold ProofCache.runSet TtlCache.set
  by_cases hskip : ttlMs ≤ 0 ∨ maxEntries ≤ 0
  · rw [if_pos hskip]
    exact hi.later
  rw [if_neg hskip, if_neg hskip, set_delete]
  dsimp only
  have htouch := hi.recency.touch key ({ value, expiresAt := s.now + ttlMs } : Entry V T)
  obtain ⟨dropped, heq, -, hsize⟩ := evict_spec maxEntries
    ((s.cache.entries.filter fun e => e.1 ≠ key) ++ [(key, { value, expiresAt := s.now + ttlMs })])
  generalize TtlCache.evict maxEntries
    ((s.cache.entries.filter fun e => e.1 ≠ key) ++ [(key, { value, expiresAt := s.now + ttlMs })]) = kept at heq hsize
  have hget : ∀ k e, kept.get k = some e → k = key ∧ e = { value, expiresAt := s.now + ttlMs } ∨
      k ≠ key ∧ s.cache.entries.get k = some e := by
    intro k e he
    have hmem : (k, e) ∈ (s.cache.entries.filter fun e => e.1 ≠ key) ++
        [(key, ({ value, expiresAt := s.now + ttlMs } : Entry V T))] := by
      rw [heq]
      exact List.mem_append_right _ (JsMap.mem_of_get he)
    rcases List.mem_append.mp hmem with hold | hnew
    · have hne : k ≠ key := by simpa using (List.mem_filter.mp hold).2
      have hmem := List.mem_of_mem_filter hold
      exact .inr ⟨hne, JsMap.get_of_mem hmem fun v' hv' => hi.recency.unique hv' hmem⟩
    · cases List.mem_singleton.mp hnew
      exact .inl ⟨rfl, rfl⟩
  refine ⟨htouch.sublist ?_, hsize, fun k e he => ?_, hi.inflight, fun n c hc => ?_, hi.pending,
    hi.latest, fun n c hc e he hvalue => ?_, fun k r n hr hn => ?_⟩
  · rw [heq]
    exact List.sublist_append_right ..
  · rcases hget k e he with ⟨rfl, rfl⟩ | ⟨hne, he⟩
    · exact ⟨_, Function.update_self .., rfl, rfl⟩
    · obtain ⟨r, hr, heq⟩ := hi.stored k e he
      exact ⟨r, (Function.update_of_ne hne ..).trans hr, heq⟩
  · exact (hi.started n c hc).trans (Nat.lt_succ_self _)
  · rcases hget c.key e he with ⟨rfl, rfl⟩ | ⟨hne, he⟩
    · refine ⟨_, Function.update_self .., hi.started n c hc, fun m hm => ?_⟩
      obtain ⟨d, -, hd, hkey, hflight, -⟩ := hby m hm
      exact hi.latest m n d c hd hc hflight hkey
    · obtain ⟨r, hr, hsince⟩ := hi.fresh n c hc e he hvalue
      exact ⟨r, (Function.update_of_ne hne ..).trans hr, hsince⟩
  · by_cases hk : k = key
    · subst hk
      cases (Function.update_self ..).symm.trans hr
      obtain ⟨c, ttlMs, hc, hkey, -, hcomputed⟩ := hby n hn
      exact ⟨c, ttlMs, hc, hkey, hcomputed⟩
    · exact hi.own k r n ((Function.update_of_ne hk ..).symm.trans hr) hn

theorem step (hi : Inv maxEntries s) {l : Label V T ε} {s' : State V T ε}
    (hs : ProofCache.step maxEntries s l = some s') : Inv maxEntries s' := by
  obtain ⟨t, ht, rfl⟩ := moves_of_step hs
  cases ht with
  | clock => exact { hi.later with }
  | get key => exact hi.runGet key
  | set key value ttlMs =>
    refine hi.runSet fun n hn => ?_
    cases hn
  | getOrCompute key => exact hi.runGetOrCompute key
  | @settle n c outcome hc hstage =>
    exact (hi.advance_same { c with stage := .settled, outcome := some outcome } hc rfl rfl
      (.inr (hi.pending n c hc hstage)) nofun ⟨fun _ => .inl hstage, fun _ => .inr (.inl rfl)⟩).later
  | @store n c value ttlMs hc hstage houtcome =>
    have hhandled := hi.advance_same { c with stage := .handled } hc rfl rfl (.inl rfl) nofun
      ⟨fun _ => .inr (.inl hstage), fun _ => .inr (.inr rfl)⟩
    refine hhandled.runSet fun m hm => ?_
    cases hm
    exact ⟨{ c with stage := .handled }, ttlMs, List.getElem?_set_self (List.getElem?_eq_some_iff.mp hc).1, rfl,
      .inr (.inr rfl), houtcome⟩
  | @skip n c hc hstage =>
    exact (hi.advance_same { c with stage := .handled } hc rfl rfl (.inl rfl) nofun
      ⟨fun _ => .inr (.inl hstage), fun _ => .inr (.inr rfl)⟩).later
  | release hc hstage => exact (hi.release hc hstage).later
  | @deliver n c hc hstage =>
    refine (hi.advance_same { c with stage := .delivered } hc rfl rfl (.inl rfl) nofun ?_).later
    simp [Computation.InFlight, hstage]

end Inv

theorem inv_of_reachable [LinearOrder T] [Add T] [Zero T] {s : State V T ε}
    (h : Runs.Reachable (system maxEntries) s) : Inv maxEntries s := by
  refine h.invariant (fun s hs => ?_) fun s l s' hi _ hs => hi.step hs
  obtain ⟨hcache, hcomputations, hoperations, hlastUse, hlastStored⟩ := hs
  constructor
  case recency => rw [hcache]; exact IsRecency.nil
  case size => exact .inl (by rw [hcache])
  case inflight =>
    intro key n
    rw [hcache, hcomputations]
    simp [JsMap.get]
  all_goals simp [hcache, hcomputations, hlastStored, JsMap.get]

end Writz.Relayer.ProofCache

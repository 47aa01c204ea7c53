import Mathlib.Algebra.Order.Ring.Rat
import Writz.Node.Buffer
import Writz.Node.Map
import Writz.Util.Runs

/-!
# Bounded cache with an expiry

`proof-cache.ts`: an in-memory cache that computes a value once for all who ask for it meanwhile. Times are of any
ordered type with an addition, so of numbers that are rounded, too; a value may be `undefined`, which a reader
takes for a miss.
-/

namespace Writz.Relayer.ProofCache

open Node

variable {V T ε : Type}

structure Entry (V T : Type) where
  /-- `none` for `undefined`. -/
  value : Option V
  expiresAt : T
  deriving DecidableEq

/-- The computations that others wait for are numbered. -/
structure TtlCache (V T : Type) where
  entries : JsMap Text (Entry V T)
  inflight : JsMap Text Nat

namespace TtlCache

section

variable [LinearOrder T]

/-- The value of an entry that has not expired, which becomes the most recently used one. -/
def get (key : Text) (now : T) (cache : TtlCache V T) : Option V × TtlCache V T :=
  match cache.entries.get key with
  | none => (none, cache)
  | some entry =>
    if entry.expiresAt ≤ now then (none, { cache with entries := cache.entries.delete key })
    else (entry.value, { cache with entries := (cache.entries.delete key).set key entry })

/-- `while (this.entries.size > this.maxEntries)`: deletes the first entry. -/
def evict (maxEntries : Rat) : JsMap Text (Entry V T) → JsMap Text (Entry V T)
  | [] => []
  | e :: entries => if ((e :: entries).length : Rat) > maxEntries then evict maxEntries entries else e :: entries

variable [Add T] [Zero T]

def set (maxEntries : Rat) (key : Text) (value : Option V) (ttlMs now : T) (cache : TtlCache V T) : TtlCache V T :=
  if ttlMs ≤ 0 ∨ maxEntries ≤ 0 then cache
  else
    let entries := (cache.entries.delete key).set key { value, expiresAt := now + ttlMs }
    { cache with entries := evict maxEntries entries }

end

/-- What a caller of `getOrCompute` gets: a value, or the promise of a computation. -/
inductive Answer (V : Type) where
  | hit (value : V)
  | shared (computation : Nat)
  deriving DecidableEq

/-- The cached value, or the result of one shared computation, which is `next` when it is started now. -/
def getOrCompute [LinearOrder T] (key : Text) (now : T) (next : Nat) (cache : TtlCache V T) :
    Answer V × TtlCache V T :=
  match cache.get key now with
  | (some value, cache) => (.hit value, cache)
  | (none, cache) =>
    match cache.inflight.get key with
    | some pending => (.shared pending, cache)
    | none => (.shared next, { cache with inflight := cache.inflight.set key next })

end TtlCache

/-! ## Runs -/

/-- How a computation ends: with a value and how long to keep it, or with an error. -/
inductive Outcome (V T ε : Type) where
  | computed (value : Option V) (ttlMs : T)
  | failed (error : ε)
  deriving DecidableEq

/-- A computation is pending, its promise has settled, the callback of `then` is over, the one of `finally` is,
the callers get its outcome. -/
inductive Stage where
  | pending
  | settled
  | handled
  | released
  | delivered
  deriving DecidableEq

structure Computation (V T ε : Type) where
  key : Text
  /-- The operation that started it. -/
  started : Nat
  stage : Stage
  /-- `none` while it is pending. -/
  outcome : Option (Outcome V T ε)
  deriving DecidableEq

/-- The callback of `finally` has not run. -/
def Computation.InFlight (c : Computation V T ε) : Prop :=
  c.stage = .pending ∨ c.stage = .settled ∨ c.stage = .handled

/-- An entry that was stored, by a computation or by `set` itself. -/
structure Stored (V T : Type) where
  value : Option V
  expiresAt : T
  operation : Nat
  computation : Option Nat
  deriving DecidableEq

structure State (V T ε : Type) where
  cache : TtlCache V T
  now : T
  computations : List (Computation V T ε)
  /-- Operations so far. -/
  operations : Nat
  /-- The operation that last read or wrote the entry of a key. -/
  lastUse : Text → Nat
  lastStored : Text → Option (Stored V T)

/-- The clock moves on; `get`, `set` and `getOrCompute` are called; a computation settles, its callbacks run, one
after the other, and its callers get the outcome. -/
inductive Label (V T ε : Type) where
  | clock (now : T)
  | get (key : Text)
  | set (key : Text) (value : Option V) (ttlMs : T)
  | getOrCompute (key : Text)
  | settle (n : Nat) (outcome : Outcome V T ε)
  | afterThen (n : Nat)
  | afterFinally (n : Nat)
  | deliver (n : Nat)

section

variable [LinearOrder T]

/-- The entry of a key is used when it has not expired. -/
def markUse (key : Text) (s : State V T ε) : State V T ε :=
  match s.cache.entries.get key with
  | some entry => if entry.expiresAt ≤ s.now then s else { s with lastUse := Function.update s.lastUse key s.operations }
  | none => s

def runGet (key : Text) (s : State V T ε) : State V T ε :=
  { markUse key s with cache := (s.cache.get key s.now).2 }

def runGetOrCompute (key : Text) (s : State V T ε) : State V T ε :=
  let (answer, cache) := s.cache.getOrCompute key s.now s.computations.length
  let s' := { markUse key s with cache }
  match answer with
  | .hit _ => s'
  | .shared n =>
    if n = s.computations.length then
      { s' with computations := s.computations ++
          [{ key, started := s.operations, stage := .pending, outcome := none }] }
    else s'

variable [Add T] [Zero T]

/-- `set`, by a caller or by the callback of a computation. -/
def runSet (maxEntries : Rat) (computation : Option Nat) (key : Text) (value : Option V) (ttlMs : T)
    (s : State V T ε) : State V T ε :=
  if ttlMs ≤ 0 ∨ maxEntries ≤ 0 then s
  else
    { s with
      cache := s.cache.set maxEntries key value ttlMs s.now
      lastUse := Function.update s.lastUse key s.operations
      lastStored := Function.update s.lastStored key
        (some { value, expiresAt := s.now + ttlMs, operation := s.operations, computation }) }

/-- A computation goes on to its next stage. -/
def advance (n : Nat) (c : Computation V T ε) (s : State V T ε) : State V T ε :=
  { s with computations := s.computations.set n c }

def runLabel (maxEntries : Rat) (s : State V T ε) : Label V T ε → Option (State V T ε)
  | .clock now => if s.now ≤ now then some { s with now } else none
  | .get key => some (runGet key s)
  | .set key value ttlMs => some (runSet maxEntries none key value ttlMs s)
  | .getOrCompute key => some (runGetOrCompute key s)
  | .settle n outcome =>
    match s.computations[n]? with
    | some c => if c.stage = .pending then some (advance n { c with stage := .settled, outcome := some outcome } s) else none
    | none => none
  | .afterThen n =>
    match s.computations[n]? with
    | some c =>
      if c.stage = .settled then
        let s := advance n { c with stage := .handled } s
        match c.outcome with
        | some (.computed value ttlMs) => some (runSet maxEntries (some n) c.key value ttlMs s)
        | _ => some s
      else none
    | none => none
  | .afterFinally n =>
    match s.computations[n]? with
    | some c =>
      if c.stage = .handled then
        let s := advance n { c with stage := .released } s
        some { s with cache := { s.cache with inflight := s.cache.inflight.delete c.key } }
      else none
    | none => none
  | .deliver n =>
    match s.computations[n]? with
    | some c => if c.stage = .released then some (advance n { c with stage := .delivered } s) else none
    | none => none

def State.later (s : State V T ε) : State V T ε := { s with operations := s.operations + 1 }

def step (maxEntries : Rat) (s : State V T ε) (l : Label V T ε) : Option (State V T ε) :=
  (runLabel maxEntries s l).map State.later

/-- An empty cache, at any time. -/
def system (maxEntries : Rat) : Runs.System (State V T ε) (Label V T ε) where
  init s := s.cache = { entries := [], inflight := [] } ∧ s.computations = [] ∧ s.operations = 0 ∧
    s.lastUse = (fun _ => 0) ∧ s.lastStored = fun _ => none
  step := step maxEntries

end

/-- What a caller gets in the end. -/
def callerOutcome (s : State V T ε) : TtlCache.Answer V → Option (Except ε (Option V))
  | .hit value => some (.ok (some value))
  | .shared n =>
    match s.computations[n]? with
    | some c =>
      if c.stage = .delivered then
        match c.outcome with
        | some (.computed value _) => some (.ok value)
        | some (.failed e) => some (.error e)
        | none => none
      else none
    | none => none

end Writz.Relayer.ProofCache

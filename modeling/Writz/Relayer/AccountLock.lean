import Writz.Node.Buffer
import Writz.Node.Map
import Writz.Node.Promise
import Writz.Util.Runs

/-!
# One transaction at a time for each account

`account-lock.ts`: the tasks of an account, chained by promises, and the map that holds the last one. The
calls are numbered in the order in which they are made, and their promises and callbacks are named after them.
-/

namespace Writz.Relayer.AccountLock

open Node

/-- The promises of the calls, and those that the tasks make themselves. -/
inductive PromiseId where
  /-- `Promise.resolve()`. -/
  | initial (call : Nat)
  | run (call : Nat)
  | settled (call : Nat)
  /-- What `settled.then(...)` returns. -/
  | forgotten (call : Nat)
  | outside (k : Nat)
  deriving DecidableEq

inductive Handler where
  | task (call : Nat)
  /-- `() => undefined`. -/
  | toUndefined
  /-- The callback that forgets the account. -/
  | forget (call : Nat)
  deriving DecidableEq

/-- A reason to reject: what was thrown, or the `TypeError` of a promise that is to follow itself. -/
inductive Reason (ε : Type) where
  | thrown (e : ε)
  | typeError
  deriving DecidableEq

structure Call where
  account : Text
  previous : PromiseId
  deriving DecidableEq

section

variable (τ ε : Type)

/-- A value is `undefined` or what a task returned. -/
abbrev Settled := Settlement (Option τ) (Reason ε)

abbrev Result := Completion PromiseId (Option τ) (Reason ε)

abbrev Promises := Heap PromiseId Handler (Option τ) (Reason ε)

structure State where
  heap : Promises τ ε
  queues : JsMap Text PromiseId
  calls : List Call
  /-- The task whose callback is running. -/
  running : Option Nat
  /-- The tasks in the order in which they were started. -/
  starts : List Nat
  /-- What the callbacks of the tasks came back with. -/
  results : Nat → Option (Result τ ε)

/-- What happens: a call, at any time; the next microtask, when none is running; the callback of the running
task comes back; a promise made elsewhere settles. -/
inductive Label where
  | call (account : Text)
  | microtask
  | finish (result : Result τ ε)
  | settle (k : Nat) (settlement : Settled τ ε)

end

variable {τ ε : Type}

/-- `previous.then(task, task)`. -/
def taskReaction (n : Nat) : Reaction PromiseId Handler :=
  { onFulfilled := some (.task n), onRejected := some (.task n), derived := .run n }

/-- `run.catch(() => undefined)`. -/
def catchReaction (n : Nat) : Reaction PromiseId Handler :=
  { onFulfilled := none, onRejected := some .toUndefined, derived := .settled n }

/-- `settled.then(() => { ... })`. -/
def forgetReaction (n : Nat) : Reaction PromiseId Handler :=
  { onFulfilled := some (.forget n), onRejected := none, derived := .forgotten n }

/-- `Promise.resolve()`. -/
def promiseResolve (p : PromiseId) (h : Promises τ ε) : Promises τ ε :=
  { h with promises := Function.update h.promises p (.settled (.fulfilled none)) }

def withAccountLock (account : Text) (s : State τ ε) : State τ ε :=
  let n := s.calls.length
  let entry := s.queues.get account
  let previous := entry.getD (.initial n)
  let heap := if entry = none then promiseResolve previous s.heap else s.heap
  let heap := heap.performThen previous (taskReaction n)
  let heap := heap.performThen (.run n) (catchReaction n)
  let queues := s.queues.set account (.settled n)
  let heap := heap.performThen (.settled n) (forgetReaction n)
  { s with heap, queues, calls := s.calls ++ [{ account, previous }] }

/-- `if (queues.get(account) === settled) queues.delete(account)`. -/
def forgetAccount (n : Nat) (s : State τ ε) : State τ ε :=
  match s.calls[n]? with
  | some call =>
    if s.queues.get call.account = some (.settled n) then { s with queues := s.queues.delete call.account } else s
  | none => s

/-- Runs the callback of a reaction. A task is only started. -/
def runReaction (r : Reaction PromiseId Handler) (o : Settled τ ε) (s : State τ ε) : State τ ε :=
  match r.handler o with
  | none => { s with heap := s.heap.settle r.derived o }
  | some (.task n) => { s with running := some n, starts := s.starts ++ [n] }
  | some .toUndefined => { s with heap := s.heap.settle r.derived (.fulfilled none) }
  | some (.forget n) =>
    let s := forgetAccount n s
    { s with heap := s.heap.settle r.derived (.fulfilled none) }

/-- A promise that follows another one passes its settlement on. -/
def runJob (job : Job PromiseId Handler (Option τ) (Reason ε)) (s : State τ ε) : State τ ε :=
  match job with
  | .react r o => runReaction r o s
  | .follow derived target =>
    { s with heap := s.heap.performThen target { onFulfilled := none, onRejected := none, derived } }

/-- The promises a task can come back with: the ones its callers got, and its own. -/
def Exposed (s : State τ ε) : PromiseId → Prop
  | .run n => n < s.calls.length
  | .outside _ => True
  | _ => False

instance (s : State τ ε) (p : PromiseId) : Decidable (Exposed s p) :=
  match p with
  | .run n => inferInstanceAs (Decidable (n < s.calls.length))
  | .outside _ => inferInstanceAs (Decidable True)
  | .initial _ | .settled _ | .forgotten _ => inferInstanceAs (Decidable False)

def Possible (s : State τ ε) : Result τ ε → Prop
  | .returnsPromise p => Exposed s p
  | _ => True

instance (s : State τ ε) (r : Result τ ε) : Decidable (Possible s r) :=
  match r with
  | .returnsPromise p => inferInstanceAs (Decidable (Exposed s p))
  | .returns _ | .throws _ => inferInstanceAs (Decidable True)

/-- The callback of task `n` comes back. -/
def finishTask (n : Nat) (result : Result τ ε) (s : State τ ε) : State τ ε :=
  { s with
    heap := s.heap.resolve .typeError (.run n) result
    running := none
    results := Function.update s.results n (some result) }

def step (s : State τ ε) : Label τ ε → Option (State τ ε)
  | .call account => some (withAccountLock account s)
  | .microtask =>
    match s.running, s.heap.jobs with
    | none, job :: jobs => some (runJob job { s with heap := { s.heap with jobs } })
    | _, _ => none
  | .finish result =>
    match s.running with
    | some n => if Possible s result then some (finishTask n result s) else none
    | none => none
  | .settle k o => some { s with heap := s.heap.settle (.outside k) o }

/-- No call yet. -/
def initial : State τ ε :=
  { heap := { promises := fun _ => .pending [], jobs := [] }
    queues := []
    calls := []
    running := none
    starts := []
    results := fun _ => none }

def system : Runs.System (State τ ε) (Label τ ε) where
  init s := s = initial
  step := step

/-! ## What is observed -/

def accountOf (s : State τ ε) (n : Nat) : Option Text := s.calls[n]?.map Call.account

/-- How the task of a call has settled: what its callback came back with, or the promise it came back with. -/
def taskSettlement (s : State τ ε) (n : Nat) : Option (Settled τ ε) :=
  match s.results n with
  | none => none
  | some (.returns v) => some (.fulfilled v)
  | some (.throws e) => some (.rejected e)
  | some (.returnsPromise p) => (s.heap.promises p).settlement?

/-- A task between its start and its settlement. -/
def Open (s : State τ ε) (n : Nat) : Prop := n ∈ s.starts ∧ taskSettlement s n = none

/-- How the promise that the caller got has settled. -/
def callerSettlement (s : State τ ε) (n : Nat) : Option (Settled τ ε) := (s.heap.promises (.run n)).settlement?

/-- Nothing runs and no microtask waits. -/
def Idle (s : State τ ε) : Prop := s.running = none ∧ s.heap.jobs = []

end Writz.Relayer.AccountLock

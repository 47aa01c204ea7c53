import Writz.Bitcoin.Script
import Writz.Bitcoin.ScriptNum

/-!
# Running Bitcoin scripts

The part of Bitcoin's script interpreter that conditional locks use: pushes, `IF`, `NOTIF`, `ELSE`,
`ENDIF`, `DROP`, `CHECKSIG`, `CHECKSIGVERIFY` and `CHECKLOCKTIMEVERIFY`, under the consensus rules of
P2WSH. A script with another opcode fails. Rules for sequences, branches and the single opcodes follow.
-/

namespace Bitcoin

/-- Largest stack element. -/
def MAX_SCRIPT_ELEMENT_SIZE : Nat := 520

/-- Most elements on the stack after an opcode. -/
def MAX_STACK_SIZE : Nat := 1000

/-- Most opcodes in a script. -/
def MAX_OPS_PER_SCRIPT : Nat := 201

/-- Largest script. -/
def MAX_SCRIPT_SIZE : Nat := 10000

/-- Lock times from here on are times, below they are heights. -/
def LOCKTIME_THRESHOLD : Int := 500000000

/-- The sequence number of an input that opts out of lock times. -/
def SEQUENCE_FINAL : Nat := 0xffffffff

/-- What a script can ask about the transaction that spends. -/
structure Env where
  /-- Whether a signature is one of a key over the transaction; `none` where its encoding fails the
  script. -/
  checkSig : List UInt8 → List UInt8 → Option Bool
  lockTime : Nat
  sequence : Nat

/-- The stack, top first, and the conditions of the open branches, innermost first. -/
structure Machine where
  stack : List (List UInt8)
  conds : List Bool
  deriving DecidableEq

/-- Whether no open branch is skipped. -/
def Machine.executing (m : Machine) : Bool := m.conds.all id

/-- Whether an element is true: a byte of it is not zero, other than a sign bit alone. -/
def castToBool (v : List UInt8) : Bool :=
  match v.reverse with
  | [] => false
  | top :: rest => rest.any (· != 0) || (top != 0 && top != 0x80)

/-- The element of a truth value. -/
def boolElement (b : Bool) : List UInt8 := if b then [0x01] else []

/-- Whether `CHECKLOCKTIMEVERIFY` passes on an element. -/
def lockTimePassed (env : Env) (v : List UInt8) : Bool :=
  decide (v.length ≤ 5) && decide (0 ≤ scriptNum v)
    && (decide (scriptNum v < LOCKTIME_THRESHOLD) == decide ((env.lockTime : Int) < LOCKTIME_THRESHOLD))
    && decide (scriptNum v ≤ env.lockTime) && env.sequence != SEQUENCE_FINAL

/-- Opens a branch; within a skipped one it is skipped too. -/
def openBranch (m : Machine) (taken : List UInt8 → Bool) : Option Machine :=
  if m.executing then
    match m.stack with
    | [] => none
    | v :: stack => some { stack, conds := taken v :: m.conds }
  else
    some { m with conds := false :: m.conds }

/-- Runs an opcode outside skipped branches. -/
def whenExecuting (m : Machine) (f : List (List UInt8) → Option (List (List UInt8))) :
    Option Machine :=
  if m.executing then (f m.stack).map fun stack => { m with stack := stack } else some m

/-- `OP_CHECKSIG` on a stack. -/
def doCheckSig (env : Env) : List (List UInt8) → Option (List (List UInt8))
  | key :: sig :: stack => (env.checkSig sig key).map fun b => boolElement b :: stack
  | _ => none

/-- `OP_CHECKSIGVERIFY` on a stack. -/
def doCheckSigVerify (env : Env) : List (List UInt8) → Option (List (List UInt8))
  | key :: sig :: stack => if env.checkSig sig key = some true then some stack else none
  | _ => none

/-- `OP_CHECKLOCKTIMEVERIFY` on a stack. -/
def doCheckLockTimeVerify (env : Env) : List (List UInt8) → Option (List (List UInt8))
  | v :: stack => if lockTimePassed env v then some (v :: stack) else none
  | [] => none

/-- `OP_DROP` on a stack. -/
def doDrop : List (List UInt8) → Option (List (List UInt8))
  | _ :: stack => some stack
  | [] => none

/-- Runs an opcode. -/
def stepOp (env : Env) (code : UInt8) (m : Machine) : Option Machine :=
  if code = OP_IF then openBranch m castToBool
  else if code = OP_NOTIF then openBranch m fun v => !castToBool v
  else if code = OP_ELSE then
    match m.conds with
    | [] => none
    | c :: conds => some { m with conds := (!c) :: conds }
  else if code = OP_ENDIF then
    match m.conds with
    | [] => none
    | _ :: conds => some { m with conds := conds }
  else if code = OP_DROP then whenExecuting m doDrop
  else if code = OP_CHECKSIG then whenExecuting m (doCheckSig env)
  else if code = OP_CHECKSIGVERIFY then whenExecuting m (doCheckSigVerify env)
  else if code = OP_CHECKLOCKTIMEVERIFY then whenExecuting m (doCheckLockTimeVerify env)
  else none

/-- Runs an element. -/
def step (env : Env) (e : Element) (m : Machine) : Option Machine :=
  match e with
  | .op code => stepOp env code m
  | .push data =>
    if data.length > MAX_SCRIPT_ELEMENT_SIZE then none
    else whenExecuting m fun stack => some (data :: stack)

/-- Runs a list of elements. -/
def run (env : Env) : List Element → Machine → Option Machine
  | [], m => some m
  | e :: es, m => do
    let m' ← step env e m
    if m'.stack.length > MAX_STACK_SIZE then none else run env es m'

/-- Whether an element counts as an opcode. -/
def Element.isOp : Element → Bool
  | .op code => decide (0x60 < code.toNat)
  | .push _ => false

/-- The stack, top first, that a script leaves on a stack. -/
def evalScript (env : Env) (script : List UInt8) (stack : List (List UInt8)) :
    Option (List (List UInt8)) := do
  let es ← parse script
  if script.length > MAX_SCRIPT_SIZE ∨ (es.filter Element.isOp).length > MAX_OPS_PER_SCRIPT then
    none
  else do
    let m ← run env es { stack, conds := [] }
    if m.conds = [] then some m.stack else none

/-- Whether a witness script accepts a witness stack, given bottom first: the run leaves exactly one
element, and it is true. -/
def acceptsWitness (env : Env) (script : List UInt8) (witness : List (List UInt8)) : Bool :=
  witness.all (fun v => decide (v.length ≤ MAX_SCRIPT_ELEMENT_SIZE)) &&
    match evalScript env script witness.reverse with
    | some [v] => castToBool v
    | _ => false

/-! ## Sequences -/

theorem run_cons_eq_some {env : Env} {e : Element} {es : List Element} {m m' : Machine} :
    run env (e :: es) m = some m' ↔
      ∃ m₁, step env e m = some m₁ ∧ m₁.stack.length ≤ MAX_STACK_SIZE ∧ run env es m₁ = some m' := by
  rw [run]
  simp only [Option.bind_eq_bind, Option.bind_eq_some_iff]
  constructor
  · rintro ⟨m₁, h₁, h⟩
    split_ifs at h with hsize
    exact ⟨m₁, h₁, not_lt.mp hsize, h⟩
  · rintro ⟨m₁, h₁, hsize, h⟩
    exact ⟨m₁, h₁, by rw [if_neg (not_lt.mpr hsize)]; exact h⟩

theorem run_append (env : Env) (as bs : List Element) (m : Machine) :
    run env (as ++ bs) m = (run env as m).bind (run env bs) := by
  induction as generalizing m with
  | nil => rfl
  | cons a as ih =>
    rw [List.cons_append, run, run]
    cases step env a m with
    | none => rfl
    | some m₁ =>
      simp only [Option.bind_eq_bind, Option.bind_some]
      split_ifs
      · rfl
      · exact ih m₁

/-! ## Straight-line segments -/

/-- An element that neither opens nor closes a branch. -/
def Element.Straight : Element → Prop
  | .op code => code = OP_DROP ∨ code = OP_CHECKSIG ∨ code = OP_CHECKSIGVERIFY ∨
      code = OP_CHECKLOCKTIMEVERIFY
  | .push data => data.length ≤ MAX_SCRIPT_ELEMENT_SIZE

theorem whenExecuting_skip {m : Machine} (h : m.executing = false)
    (f : List (List UInt8) → Option (List (List UInt8))) : whenExecuting m f = some m := by
  rw [whenExecuting, h]
  rfl

theorem whenExecuting_conds {m m' : Machine}
    {f : List (List UInt8) → Option (List (List UInt8))} (h : whenExecuting m f = some m') :
    m'.conds = m.conds := by
  unfold whenExecuting at h
  split_ifs at h
  · obtain ⟨stack, -, rfl⟩ := Option.map_eq_some_iff.mp h
    rfl
  · cases h
    rfl

/-- A straight-line element acts on the stack outside skipped branches. -/
theorem step_straight (env : Env) {e : Element} (he : e.Straight) :
    ∃ f, ∀ m, step env e m = whenExecuting m f := by
  cases e with
  | op code =>
    rcases he with rfl | rfl | rfl | rfl
    · exact ⟨doDrop, fun _ => rfl⟩
    · exact ⟨doCheckSig env, fun _ => rfl⟩
    · exact ⟨doCheckSigVerify env, fun _ => rfl⟩
    · exact ⟨doCheckLockTimeVerify env, fun _ => rfl⟩
  | push data => exact ⟨fun stack => some (data :: stack), fun _ => if_neg (not_lt.mpr he)⟩

/-- A straight-line segment of a skipped branch does nothing. -/
theorem run_skip {env : Env} {es : List Element} (hes : ∀ e ∈ es, e.Straight) {m : Machine}
    (h : m.executing = false) (hsize : m.stack.length ≤ MAX_STACK_SIZE) :
    run env es m = some m := by
  induction es with
  | nil => rfl
  | cons e es ih =>
    obtain ⟨f, hf⟩ := step_straight env (hes e List.mem_cons_self)
    rw [run_cons_eq_some]
    exact ⟨m, by rw [hf, whenExecuting_skip h], hsize,
      ih fun e' he' => hes e' (List.mem_cons_of_mem _ he')⟩

/-- A straight-line segment leaves the branches as they are, and the stack within its bound. -/
theorem run_straight {env : Env} {es : List Element} (hes : ∀ e ∈ es, e.Straight) :
    ∀ {m m' : Machine}, m.stack.length ≤ MAX_STACK_SIZE → run env es m = some m' →
      m'.conds = m.conds ∧ m'.stack.length ≤ MAX_STACK_SIZE := by
  induction es with
  | nil =>
    intro m m' hsize h
    cases h
    exact ⟨rfl, hsize⟩
  | cons e es ih =>
    intro m m' _ h
    obtain ⟨m₁, h₁, hsize, h⟩ := run_cons_eq_some.mp h
    obtain ⟨f, hf⟩ := step_straight env (hes e List.mem_cons_self)
    rw [hf] at h₁
    obtain ⟨hconds, hsize'⟩ := ih (fun e' he' => hes e' (List.mem_cons_of_mem _ he')) hsize h
    exact ⟨hconds.trans (whenExecuting_conds h₁), hsize'⟩

/-! ## Branches -/

/-- A segment up to an `ELSE` runs, and the branch is toggled. -/
theorem run_else {env : Env} {es rest : List Element} (hes : ∀ e ∈ es, e.Straight)
    {stack : List (List UInt8)} {c : Bool} {conds : List Bool} {m : Machine}
    (hsize : stack.length ≤ MAX_STACK_SIZE) :
    run env (es ++ .op OP_ELSE :: rest) ⟨stack, c :: conds⟩ = some m ↔
      ∃ st, run env es ⟨stack, c :: conds⟩ = some ⟨st, c :: conds⟩ ∧
        run env rest ⟨st, (!c) :: conds⟩ = some m := by
  rw [run_append, Option.bind_eq_some_iff]
  constructor
  · rintro ⟨m₁, h₁, h⟩
    obtain ⟨hconds, -⟩ := run_straight hes hsize h₁
    obtain ⟨st, conds₁⟩ := m₁
    obtain rfl : conds₁ = c :: conds := hconds
    obtain ⟨m₂, h₂, -, h⟩ := run_cons_eq_some.mp h
    obtain rfl : (⟨st, (!c) :: conds⟩ : Machine) = m₂ := Option.some.inj h₂
    exact ⟨st, h₁, h⟩
  · rintro ⟨st, h₁, h⟩
    obtain ⟨-, hsize₁⟩ := run_straight hes hsize h₁
    exact ⟨_, h₁, run_cons_eq_some.mpr ⟨_, rfl, hsize₁, h⟩⟩

/-- A segment up to an `ENDIF` runs, and the branch is closed. -/
theorem run_endIf {env : Env} {es : List Element} (hes : ∀ e ∈ es, e.Straight)
    {stack stack' : List (List UInt8)} {c : Bool} {conds : List Bool}
    (hsize : stack.length ≤ MAX_STACK_SIZE) :
    run env (es ++ [.op OP_ENDIF]) ⟨stack, c :: conds⟩ = some ⟨stack', conds⟩ ↔
      run env es ⟨stack, c :: conds⟩ = some ⟨stack', c :: conds⟩ := by
  rw [run_append, Option.bind_eq_some_iff]
  constructor
  · rintro ⟨m₁, h₁, h⟩
    obtain ⟨hconds, -⟩ := run_straight hes hsize h₁
    obtain ⟨st, conds₁⟩ := m₁
    obtain rfl : conds₁ = c :: conds := hconds
    obtain ⟨m₂, h₂, -, h⟩ := run_cons_eq_some.mp h
    obtain rfl : (⟨st, conds⟩ : Machine) = m₂ := Option.some.inj h₂
    obtain ⟨rfl, -⟩ : st = stack' ∧ conds = conds := by simpa [run] using h
    exact h₁
  · intro h₁
    obtain ⟨-, hsize₁⟩ := run_straight hes hsize h₁
    exact ⟨_, h₁, run_cons_eq_some.mpr ⟨⟨stack', conds⟩, rfl, hsize₁, rfl⟩⟩

/-- The branch rule: the element on top says which of the two segments runs. -/
theorem run_ifElse {env : Env} {as bs : List Element} (ha : ∀ e ∈ as, e.Straight)
    (hb : ∀ e ∈ bs, e.Straight) {stack stack' : List (List UInt8)} {conds : List Bool}
    (hexec : conds.all id = true) :
    run env (.op OP_IF :: (as ++ .op OP_ELSE :: (bs ++ [.op OP_ENDIF]))) ⟨stack, conds⟩
        = some ⟨stack', conds⟩ ↔
      ∃ v st, stack = v :: st ∧ st.length ≤ MAX_STACK_SIZE ∧
        run env (if castToBool v then as else bs) ⟨st, true :: conds⟩
          = some ⟨stack', true :: conds⟩ := by
  have hskip : ∀ st, (⟨st, false :: conds⟩ : Machine).executing = false := fun _ => rfl
  -- once the branch is open, one of the segments is skipped
  have hopen : ∀ v st, st.length ≤ MAX_STACK_SIZE →
      (run env (as ++ .op OP_ELSE :: (bs ++ [.op OP_ENDIF])) ⟨st, castToBool v :: conds⟩
          = some ⟨stack', conds⟩ ↔
        run env (if castToBool v then as else bs) ⟨st, true :: conds⟩
          = some ⟨stack', true :: conds⟩) := by
    intro v st hsize
    rw [run_else ha hsize]
    cases castToBool v with
    | true =>
      constructor
      · rintro ⟨st₁, h₁, h⟩
        obtain ⟨-, hsize₁⟩ := run_straight ha hsize h₁
        rw [run_endIf hb hsize₁] at h
        change run env bs ⟨st₁, false :: conds⟩ = _ at h
        rw [run_skip hb (hskip st₁) hsize₁] at h
        obtain ⟨rfl, -⟩ := Machine.mk.inj (Option.some.inj h)
        exact h₁
      · intro h₁
        obtain ⟨-, hsize₁⟩ := run_straight ha hsize h₁
        exact ⟨stack', h₁, (run_endIf hb hsize₁).mpr (run_skip hb (hskip stack') hsize₁)⟩
    | false =>
      rw [run_skip ha (hskip st) hsize]
      constructor
      · rintro ⟨st₁, h₁, h⟩
        obtain ⟨rfl, -⟩ := Machine.mk.inj (Option.some.inj h₁)
        exact (run_endIf hb hsize).mp h
      · intro h
        exact ⟨st, rfl, (run_endIf hb hsize).mpr h⟩
  rw [run_cons_eq_some]
  constructor
  · rintro ⟨m₁, h₁, hsize, h⟩
    change openBranch ⟨stack, conds⟩ castToBool = some m₁ at h₁
    rw [openBranch, Machine.executing, if_pos hexec] at h₁
    cases stack with
    | nil => cases h₁
    | cons v st =>
      cases h₁
      exact ⟨v, st, rfl, hsize, (hopen v st hsize).mp h⟩
  · rintro ⟨v, st, rfl, hsize, h⟩
    refine ⟨⟨st, castToBool v :: conds⟩, ?_, hsize, (hopen v st hsize).mpr h⟩
    change openBranch ⟨v :: st, conds⟩ castToBool = _
    rw [openBranch, Machine.executing, if_pos hexec]

/-! ## Pushes and checks -/

section Straight

variable {env : Env} {es : List Element} {stack : List (List UInt8)} {conds : List Bool}
  {m : Machine}

theorem run_push {data : List UInt8} (hdata : data.length ≤ MAX_SCRIPT_ELEMENT_SIZE)
    (hexec : conds.all id = true) :
    run env (.push data :: es) ⟨stack, conds⟩ = some m ↔
      stack.length < MAX_STACK_SIZE ∧ run env es ⟨data :: stack, conds⟩ = some m := by
  have hstep : step env (.push data) ⟨stack, conds⟩ = some ⟨data :: stack, conds⟩ := by
    rw [step, if_neg (not_lt.mpr hdata), whenExecuting, Machine.executing, if_pos hexec]
    rfl
  rw [run_cons_eq_some, hstep]
  constructor
  · rintro ⟨m₁, h₁, hsize, h⟩
    cases h₁
    exact ⟨hsize, h⟩
  · rintro ⟨hsize, h⟩
    exact ⟨_, rfl, hsize, h⟩

/-- A stack opcode outside skipped branches. -/
theorem run_op {code : UInt8} {f : List (List UInt8) → Option (List (List UInt8))}
    (hcode : ∀ m, step env (.op code) m = whenExecuting m f) (hexec : conds.all id = true) :
    run env (.op code :: es) ⟨stack, conds⟩ = some m ↔
      ∃ st, f stack = some st ∧ st.length ≤ MAX_STACK_SIZE ∧ run env es ⟨st, conds⟩ = some m := by
  rw [run_cons_eq_some, hcode, whenExecuting, Machine.executing, if_pos hexec]
  simp only [Option.map_eq_some_iff]
  constructor
  · rintro ⟨m₁, ⟨st, hst, rfl⟩, hsize, h⟩
    exact ⟨st, hst, hsize, h⟩
  · rintro ⟨st, hst, hsize, h⟩
    exact ⟨_, ⟨st, hst, rfl⟩, hsize, h⟩

/-- A key and `CHECKSIGVERIFY`: the element on top is a valid signature, and is taken. -/
theorem run_checkSigVerify {key : List UInt8} (hkey : key.length ≤ MAX_SCRIPT_ELEMENT_SIZE)
    (hexec : conds.all id = true) :
    run env (.push key :: .op OP_CHECKSIGVERIFY :: es) ⟨stack, conds⟩ = some m ↔
      ∃ sig st, stack = sig :: st ∧ stack.length < MAX_STACK_SIZE ∧
        env.checkSig sig key = some true ∧ run env es ⟨st, conds⟩ = some m := by
  rw [run_push hkey hexec, run_op (f := doCheckSigVerify env) (fun _ => rfl) hexec]
  constructor
  · rintro ⟨hsize, st, hst, -, h⟩
    cases stack with
    | nil => cases hst
    | cons sig rest =>
      rw [doCheckSigVerify] at hst
      split_ifs at hst with hsig
      cases hst
      exact ⟨sig, st, rfl, hsize, hsig, h⟩
  · rintro ⟨sig, st, rfl, hsize, hsig, h⟩
    refine ⟨hsize, st, if_pos hsig, ?_, h⟩
    rw [List.length_cons] at hsize
    omega

/-- A key and `CHECKSIG` at the end: whether the element on top is a valid signature is left. -/
theorem run_checkSig {key : List UInt8} (hkey : key.length ≤ MAX_SCRIPT_ELEMENT_SIZE)
    (hexec : conds.all id = true) :
    run env [.push key, .op OP_CHECKSIG] ⟨stack, conds⟩ = some m ↔
      ∃ sig st b, stack = sig :: st ∧ stack.length < MAX_STACK_SIZE ∧
        env.checkSig sig key = some b ∧ m = ⟨boolElement b :: st, conds⟩ := by
  rw [run_push hkey hexec, run_op (f := doCheckSig env) (fun _ => rfl) hexec]
  constructor
  · rintro ⟨hsize, st, hst, -, h⟩
    cases stack with
    | nil => cases hst
    | cons sig rest =>
      rw [doCheckSig] at hst
      obtain ⟨b, hb, rfl⟩ := Option.map_eq_some_iff.mp hst
      exact ⟨sig, rest, b, rfl, hsize, hb, (Option.some.inj h).symm⟩
  · rintro ⟨sig, st, b, rfl, hsize, hb, rfl⟩
    refine ⟨hsize, boolElement b :: st, ?_, hsize.le, rfl⟩
    rw [doCheckSig, hb]
    rfl

/-- A pushed lock time, checked and dropped. -/
theorem run_checkLockTimeVerify {data : List UInt8} (hdata : data.length ≤ MAX_SCRIPT_ELEMENT_SIZE)
    (hexec : conds.all id = true) :
    run env (.push data :: .op OP_CHECKLOCKTIMEVERIFY :: .op OP_DROP :: es) ⟨stack, conds⟩ = some m ↔
      stack.length < MAX_STACK_SIZE ∧ lockTimePassed env data = true ∧
        run env es ⟨stack, conds⟩ = some m := by
  rw [run_push hdata hexec, run_op (f := doCheckLockTimeVerify env) (fun _ => rfl) hexec]
  constructor
  · rintro ⟨hsize, st, hst, -, h⟩
    rw [doCheckLockTimeVerify] at hst
    split_ifs at hst with hpassed
    cases hst
    rw [run_op (f := doDrop) (fun _ => rfl) hexec] at h
    obtain ⟨st, hst, -, h⟩ := h
    cases hst
    exact ⟨hsize, hpassed, h⟩
  · rintro ⟨hsize, hpassed, h⟩
    refine ⟨hsize, data :: stack, if_pos hpassed, hsize, ?_⟩
    rw [run_op (f := doDrop) (fun _ => rfl) hexec]
    exact ⟨stack, rfl, hsize.le, h⟩

end Straight

/-- What is left of a check is true only if the check passed. -/
theorem castToBool_boolElement (b : Bool) : castToBool (boolElement b) = b := by
  cases b <;> rfl

/-- `CHECKLOCKTIMEVERIFY` with a height. -/
theorem lockTimePassed_height {env : Env} {v : List UInt8} {h : Nat} (hlen : v.length ≤ 5)
    (hv : scriptNum v = h) (hh : (h : Int) < LOCKTIME_THRESHOLD) :
    lockTimePassed env v = true ↔
      (env.lockTime : Int) < LOCKTIME_THRESHOLD ∧ h ≤ env.lockTime ∧ env.sequence ≠ SEQUENCE_FINAL := by
  unfold lockTimePassed
  simp only [hv, hlen, hh, decide_true, Bool.true_and, Bool.and_eq_true, decide_eq_true_iff,
    beq_iff_eq, bne_iff_ne, Int.natCast_nonneg, Nat.cast_le, and_assoc, eq_comm (a := true)]

end Bitcoin

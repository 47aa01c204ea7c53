import Writz.SpvTypes.Proofs.Script
import Writz.Bitcoin.Segwit

/-!
# Proofs: who can spend a Writz lock

The witness stacks the redeem script accepts are those of the two paths.
-/

namespace Writz

open Bitcoin (Element Env)

/-- The cooperative path. -/
def pathA (p u : Bytes) : List Element :=
  [.push p, .op Bitcoin.OP_CHECKSIGVERIFY, .push u, .op Bitcoin.OP_CHECKSIG]

/-- The emergency path. -/
def pathB (u timelock : Bytes) : List Element :=
  [.push timelock, .op Bitcoin.OP_CHECKLOCKTIMEVERIFY, .op Bitcoin.OP_DROP, .push u,
    .op Bitcoin.OP_CHECKSIG]

theorem template_eq (p u timelock : Bytes) :
    template p u timelock = .op Bitcoin.OP_IF ::
      (pathA p u ++ .op Bitcoin.OP_ELSE :: (pathB u timelock ++ [.op Bitcoin.OP_ENDIF])) := rfl

section Paths

variable {env : Env} {p u : BytesN 33}

theorem key_length_le (k : BytesN 33) : k.1.length ≤ Bitcoin.MAX_SCRIPT_ELEMENT_SIZE := by
  rw [k.2]
  decide

theorem pathA_straight (p u : BytesN 33) : ∀ e ∈ pathA p.1 u.1, e.Straight := by
  intro e he
  simp only [pathA, List.mem_cons, List.not_mem_nil, or_false] at he
  rcases he with rfl | rfl | rfl | rfl
  · exact key_length_le p
  · exact .inr (.inr (.inl rfl))
  · exact key_length_le u
  · exact .inr (.inl rfl)

theorem pathB_straight (u : BytesN 33) {timelock : Bytes} (h : timelock.length ≤ 5) :
    ∀ e ∈ pathB u.1 timelock, e.Straight := by
  intro e he
  simp only [pathB, List.mem_cons, List.not_mem_nil, or_false] at he
  rcases he with rfl | rfl | rfl | rfl | rfl
  · exact h.trans (by decide)
  · exact .inr (.inr (.inr rfl))
  · exact .inl rfl
  · exact key_length_le u
  · exact .inr (.inl rfl)

/-- The cooperative path takes a signature of each key and leaves one element. -/
theorem run_pathA {stack stack' : List Bytes} {conds : List Bool} (hexec : conds.all id = true) :
    Bitcoin.run env (pathA p.1 u.1) ⟨stack, conds⟩ = some ⟨stack', conds⟩ ↔
      ∃ sp su st b, stack = sp :: su :: st ∧ stack.length < Bitcoin.MAX_STACK_SIZE ∧
        env.checkSig sp p.1 = some true ∧ env.checkSig su u.1 = some b ∧
        stack' = Bitcoin.boolElement b :: st := by
  rw [pathA, Bitcoin.run_checkSigVerify (key_length_le p) hexec]
  constructor
  · rintro ⟨sp, st, rfl, hsize, hsp, h⟩
    obtain ⟨su, st', b, rfl, -, hsu, hm⟩ :=
      (Bitcoin.run_checkSig (key_length_le u) hexec).mp h
    obtain ⟨rfl, -⟩ := Bitcoin.Machine.mk.inj hm
    exact ⟨sp, su, st', b, rfl, hsize, hsp, hsu, rfl⟩
  · rintro ⟨sp, su, st, b, rfl, hsize, hsp, hsu, rfl⟩
    refine ⟨sp, su :: st, rfl, hsize, hsp, ?_⟩
    rw [Bitcoin.run_checkSig (key_length_le u) hexec]
    refine ⟨su, st, b, rfl, ?_, hsu, rfl⟩
    rw [List.length_cons] at hsize
    omega

/-- The emergency path takes a signature of the user and a transaction locked to the height. -/
theorem run_pathB {stack stack' : List Bytes} {conds : List Bool} (hexec : conds.all id = true)
    {timelock : Bytes} (hlen : timelock.length ≤ 5) :
    Bitcoin.run env (pathB u.1 timelock) ⟨stack, conds⟩ = some ⟨stack', conds⟩ ↔
      ∃ su st b, stack = su :: st ∧ stack.length < Bitcoin.MAX_STACK_SIZE ∧
        Bitcoin.lockTimePassed env timelock = true ∧ env.checkSig su u.1 = some b ∧
        stack' = Bitcoin.boolElement b :: st := by
  rw [pathB, Bitcoin.run_checkLockTimeVerify (hlen.trans (by decide)) hexec]
  constructor
  · rintro ⟨hsize, hlock, h⟩
    obtain ⟨su, st, b, rfl, -, hsu, hm⟩ := (Bitcoin.run_checkSig (key_length_le u) hexec).mp h
    obtain ⟨rfl, -⟩ := Bitcoin.Machine.mk.inj hm
    exact ⟨su, st, b, rfl, hsize, hlock, hsu, rfl⟩
  · rintro ⟨su, st, b, rfl, hsize, hlock, hsu, rfl⟩
    refine ⟨hsize, hlock, ?_⟩
    rw [Bitcoin.run_checkSig (key_length_le u) hexec]
    exact ⟨su, st, b, rfl, hsize, hsu, rfl⟩

/-- One true element is left exactly on a stack of one of the two paths, top first. -/
theorem run_template {timelock : Bytes} (hlen : timelock.length ≤ 5) {stack : List Bytes} :
    (∃ v, Bitcoin.run env (template p.1 u.1 timelock) ⟨stack, []⟩ = some ⟨[v], []⟩ ∧
        Bitcoin.castToBool v = true) ↔
      (∃ c sp su, stack = [c, sp, su] ∧ Bitcoin.castToBool c = true ∧
        env.checkSig sp p.1 = some true ∧ env.checkSig su u.1 = some true) ∨
      (∃ c su, stack = [c, su] ∧ Bitcoin.castToBool c = false ∧
        Bitcoin.lockTimePassed env timelock = true ∧ env.checkSig su u.1 = some true) := by
  have hexec : [true].all id = true := rfl
  have hnil : ([] : List Bool).all id = true := rfl
  simp only [template_eq, Bitcoin.run_ifElse (pathA_straight p u) (pathB_straight u hlen) hnil]
  constructor
  · rintro ⟨v, ⟨c, st, rfl, -, h⟩, hv⟩
    cases hc : Bitcoin.castToBool c with
    | true =>
      rw [hc, if_pos rfl, run_pathA hexec] at h
      obtain ⟨sp, su, st', b, rfl, -, hsp, hsu, hleft⟩ := h
      obtain ⟨rfl, rfl⟩ := List.cons.inj hleft
      rw [Bitcoin.castToBool_boolElement] at hv
      rw [hv] at hsu
      exact .inl ⟨c, sp, su, rfl, hc, hsp, hsu⟩
    | false =>
      rw [hc, if_neg (by simp), run_pathB hexec hlen] at h
      obtain ⟨su, st', b, rfl, -, hlock, hsu, hleft⟩ := h
      obtain ⟨rfl, rfl⟩ := List.cons.inj hleft
      rw [Bitcoin.castToBool_boolElement] at hv
      rw [hv] at hsu
      exact .inr ⟨c, su, rfl, hc, hlock, hsu⟩
  · rintro (⟨c, sp, su, rfl, hc, hsp, hsu⟩ | ⟨c, su, rfl, hc, hlock, hsu⟩)
    · refine ⟨Bitcoin.boolElement true, ⟨c, [sp, su], rfl, by simp [Bitcoin.MAX_STACK_SIZE], ?_⟩,
        Bitcoin.castToBool_boolElement true⟩
      rw [hc, if_pos rfl, run_pathA hexec]
      exact ⟨sp, su, [], true, rfl, by simp [Bitcoin.MAX_STACK_SIZE], hsp, hsu, rfl⟩
    · refine ⟨Bitcoin.boolElement true, ⟨c, [su], rfl, by simp [Bitcoin.MAX_STACK_SIZE], ?_⟩,
        Bitcoin.castToBool_boolElement true⟩
      rw [hc, if_neg (by simp), run_pathB hexec hlen]
      exact ⟨su, [], true, rfl, by simp [Bitcoin.MAX_STACK_SIZE], hlock, hsu, rfl⟩

end Paths

/-- The witness stacks, bottom first, that the redeem script accepts. -/
def OpensLock (env : Env) (p u : Bytes) (h : Nat) (witness : List Bytes) : Prop :=
  (∃ su sp c, witness = [su, sp, c] ∧ Bitcoin.castToBool c = true ∧
    env.checkSig sp p = some true ∧ env.checkSig su u = some true) ∨
  (∃ su c, witness = [su, c] ∧ Bitcoin.castToBool c = false ∧ env.checkSig su u = some true ∧
    env.lockTime < 500000000 ∧ h ≤ env.lockTime ∧ env.sequence ≠ 0xffffffff)

/-- What is left of an accepted witness. -/
theorem acceptsWitness_iff {env : Env} {script : Bytes} {es : List Element} {witness : List Bytes}
    (hparse : Bitcoin.parse script = some es) (hsize : script.length ≤ Bitcoin.MAX_SCRIPT_SIZE)
    (hops : (es.filter Element.isOp).length ≤ Bitcoin.MAX_OPS_PER_SCRIPT)
    (hw : ∀ v ∈ witness, v.length ≤ Bitcoin.MAX_SCRIPT_ELEMENT_SIZE) :
    Bitcoin.acceptsWitness env script witness = true ↔
      ∃ v, Bitcoin.run env es ⟨witness.reverse, []⟩ = some ⟨[v], []⟩ ∧
        Bitcoin.castToBool v = true := by
  have hlimits : ¬ (script.length > Bitcoin.MAX_SCRIPT_SIZE ∨
      (es.filter Element.isOp).length > Bitcoin.MAX_OPS_PER_SCRIPT) := by omega
  have hall : (witness.all fun v => decide (v.length ≤ Bitcoin.MAX_SCRIPT_ELEMENT_SIZE)) = true :=
    List.all_eq_true.mpr fun v hv => decide_eq_true (hw v hv)
  unfold Bitcoin.acceptsWitness Bitcoin.evalScript
  rw [hall, hparse]
  simp only [Option.bind_eq_bind, Option.bind_some, if_neg hlimits, Bool.true_and]
  cases Bitcoin.run env es ⟨witness.reverse, []⟩ with
  | none => simp
  | some m =>
    obtain ⟨stack, conds⟩ := m
    simp only [Option.bind_some, Option.some.injEq, Bitcoin.Machine.mk.injEq]
    by_cases hconds : conds = []
    · rw [if_pos hconds]
      constructor
      · intro h
        split at h
        · next v hv => exact ⟨v, ⟨Option.some.inj hv, hconds⟩, h⟩
        · cases h
      · rintro ⟨v, ⟨rfl, -⟩, hv⟩
        exact hv
    · rw [if_neg hconds]
      constructor
      · intro h
        cases h
      · rintro ⟨v, ⟨-, h⟩, -⟩
        exact absurd h hconds

/-- The spending conditions of a Writz lock. -/
theorem redeemScript_accepts (env : Env) (p u : BytesN 33) {h : Nat} (h1 : 1 ≤ h)
    (hlt : h < 500000000) {witness : List Bytes}
    (hw : ∀ v ∈ witness, v.length ≤ Bitcoin.MAX_SCRIPT_ELEMENT_SIZE) :
    Bitcoin.acceptsWitness env (redeemScript p u h) witness = true ↔
      OpensLock env p.1 u.1 h witness := by
  have hmax : h ≤ U32_MAX := hlt.le.trans (by decide)
  obtain ⟨-, hnum, -, h5⟩ := scriptNumberBytes_spec h1 hmax
  have hlen := length_redeemScript p u h
  have hops : ((template p.1 u.1 (scriptNumberBytes h)).filter Element.isOp).length
      ≤ Bitcoin.MAX_OPS_PER_SCRIPT := (List.length_filter_le _ _).trans (by simp [template,
        Bitcoin.MAX_OPS_PER_SCRIPT])
  have hlock : Bitcoin.lockTimePassed env (scriptNumberBytes h) = true ↔
      env.lockTime < 500000000 ∧ h ≤ env.lockTime ∧ env.sequence ≠ 0xffffffff := by
    rw [Bitcoin.lockTimePassed_height h5 hnum (by unfold Bitcoin.LOCKTIME_THRESHOLD; omega)]
    unfold Bitcoin.LOCKTIME_THRESHOLD Bitcoin.SEQUENCE_FINAL
    constructor
    · rintro ⟨hheight, hrest⟩
      exact ⟨by omega, hrest⟩
    · rintro ⟨hheight, hrest⟩
      exact ⟨by omega, hrest⟩
  rw [acceptsWitness_iff (parse_redeemScript p u h1 hmax)
    (by rw [hlen]; unfold Bitcoin.MAX_SCRIPT_SIZE; omega) hops hw, run_template h5, hlock]
  unfold OpensLock
  constructor
  · rintro (⟨c, sp, su, hstack, hc, hsp, hsu⟩ | ⟨c, su, hstack, hc, htime, hsu⟩)
    · exact .inl ⟨su, sp, c, List.reverse_eq_iff.mp hstack, hc, hsp, hsu⟩
    · exact .inr ⟨su, c, List.reverse_eq_iff.mp hstack, hc, hsu, htime⟩
  · rintro (⟨su, sp, c, rfl, hc, hsp, hsu⟩ | ⟨su, c, rfl, hc, hsu, htime⟩)
    · exact .inl ⟨c, sp, su, rfl, hc, hsp, hsu⟩
    · exact .inr ⟨c, su, rfl, hc, htime, hsu⟩

end Writz

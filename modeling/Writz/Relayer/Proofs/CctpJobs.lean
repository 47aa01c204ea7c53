import Mathlib.Logic.Relation
import Writz.Relayer.Cctp.System

/-!
# Proofs: the jobs of the CCTP relay

At most one job of a burn runs and one job has the lock, each job awaits what its record allows, and a
broadcast that is not known to have reverted is the one on the record: so no mint is sent that the relay
can know to be redundant.
-/

namespace Writz.Relayer.Cctp

open Node

/-! ## Records -/

/-- Arrived, or failed for good. -/
def RelayRecord.isFinal (r : RelayRecord) : Bool :=
  r.state = .arrived || (r.state = .failed && r.failureCode.any FailureCode.isFinal)

/-- The state says whether Circle has signed, and the failure whether the record is tried again. -/
structure RelayRecord.Ok (r : RelayRecord) : Prop where
  unsigned : r.state = .sent ∨ r.state = .confirming → r.attestation = none
  signed : r.state = .confirmed ∨ r.state = .submitted ∨ r.state = .arrived → r.attestation.isSome = true
  carries : r.attestation.isSome = true → r.nonce.isSome = true ∧ r.message.isSome = true
  clean : r.state ≠ .failed → r.failureCode = none
  seen : r.attestation.isSome = true → r.failureCode ≠ some .unseen
  again : r.state = .failed → r.retryable = true ∨ r.isFinal = true
  final : r.state = .failed → r.isFinal = true → r.retryAt = none ∧ r.retryable = false

/-- A record that is started over. -/
def RelayRecord.startOver (t : Nat) (attempts retryingSince : Option Nat) (r : RelayRecord) :
    RelayRecord :=
  { r with
    state := if r.attestation.isSome then .confirmed else .sent
    failure := none
    failureCode := none
    retryable := false
    retryAt := none
    attempts
    retryingSince
    updatedAt := t }

/-- A record whose mint is broadcast. -/
def RelayRecord.submit (t : Nat) (mintHash : Text) : RelayRecord → RelayRecord :=
  update t fun r =>
    { r with
      state := .submitted
      mintHash := some mintHash
      mintedBy := some .relay
      submittedAt := some t }

/-- How a step may change a record, apart from a broadcast. -/
inductive RelayRecord.Write (t : Nat) (r : RelayRecord) : RelayRecord → Prop
  | same : Write t r r
  | confirming (h : r.state = .sent) :
    Write t r (update t (fun r => { r with state := .confirming }) r)
  | confirmed (h : r.state = .sent ∨ r.state = .confirming)
      (nonce recipient amount fee message attestation : Text) :
    Write t r (update t (fun r =>
      { r with
        state := .confirmed
        nonce := some nonce
        recipient := some recipient
        amount := some amount
        feeExecuted := some fee
        message := some message
        attestation := some attestation }) r)
  | fail (code : FailureCode) (reason : Text) (h : isSettled r = false)
      (hcode : code = .unseen → r.state = .sent) : Write t r (fail t code reason r)
  | transient (code : FailureCode) (reason : Text) (h : isSettled r = false ∨ isRetrying r = true)
      (hcode : code.isFinal = false) (hseen : code ≠ .unseen) :
    Write t r (transient t code reason r)
  | started (h : r.state = .failed) (hagain : isRetrying r = true ∨ r.retryable = true)
      (attempts retryingSince : Option Nat) : Write t r (r.startOver t attempts retryingSince)
  | arrived (h : isSettled r = false) (hsigned : r.attestation.isSome = true) (mintHash : Option Text)
      (mintedBy : Minter) : Write t r (arrived t mintHash mintedBy r)
  | looked (h : r.state = .arrived) (mintHash : Option Text) (mintedBy : Option Minter)
      (retryAt attempts : Option Nat) :
    Write t r (update t (fun r => { r with mintHash, mintedBy, retryAt, attempts }) r)

section Records

variable {t : Nat} {r r' : RelayRecord}

theorem isSettled_eq_false : isSettled r = false ↔ r.state ≠ .arrived ∧ r.state ≠ .failed := by
  simp [isSettled]

theorem isRetrying_eq_true : isRetrying r = true ↔ r.state = .failed ∧ r.retryAt.isSome = true := by
  simp [isRetrying]

theorem isFinal_of_arrived (h : r.state = .arrived) : r.isFinal = true := by
  simp [RelayRecord.isFinal, h]

theorem isFinal_eq_false (h : isSettled r = false) : r.isFinal = false := by
  obtain ⟨harrived, hfailed⟩ := isSettled_eq_false.mp h
  simp [RelayRecord.isFinal, harrived, hfailed]

/-- A transient failure is one, or the end of the retries. -/
theorem transient_cases (t : Nat) (code : FailureCode) (reason : Text) (r : RelayRecord) :
    (∃ attempts since, transient t code reason r
      = fail t .gaveUp (gaveUpReason reason)
        (update t (fun r => { r with attempts, retryingSince := since }) r)) ∨
    ∃ retryAt attempts since, transient t code reason r = update t (fun r =>
      { r with
        state := .failed
        retryable := true
        failure := some reason
        failureCode := some code
        retryAt := some retryAt
        attempts
        retryingSince := since }) r := by
  unfold transient
  dsimp only
  split_ifs
  · exact .inl ⟨_, _, rfl⟩
  · exact .inr ⟨_, _, _, rfl⟩
  · exact .inr ⟨_, _, _, rfl⟩

/-- What no failure writes. -/
theorem transient_kept (t : Nat) (code : FailureCode) (reason : Text) (r : RelayRecord) :
    (transient t code reason r).mintHash = r.mintHash ∧ (transient t code reason r).mintedBy = r.mintedBy ∧
      (transient t code reason r).attestation = r.attestation ∧ (transient t code reason r).nonce = r.nonce ∧
      (transient t code reason r).message = r.message ∧
      (transient t code reason r).submittedAt = r.submittedAt ∧ (transient t code reason r).state = .failed := by
  rcases transient_cases t code reason r with ⟨_, _, h⟩ | ⟨_, _, _, h⟩
  · rw [h]
    exact ⟨rfl, rfl, rfl, rfl, rfl, rfl, rfl⟩
  · rw [h]
    exact ⟨rfl, rfl, rfl, rfl, rfl, rfl, rfl⟩

theorem transient_ok {code : FailureCode} {reason : Text} (hr : r.Ok) (hcode : code.isFinal = false)
    (hseen : code ≠ .unseen) : (transient t code reason r).Ok := by
  have hcarries := hr.carries
  rcases transient_cases t code reason r with ⟨_, _, h⟩ | ⟨_, _, _, h⟩
  · rw [h]
    exact ⟨nofun, nofun, hcarries, fun hne => absurd rfl hne, fun _ => nofun, fun _ => .inl rfl, nofun⟩
  · rw [h]
    refine ⟨nofun, nofun, hcarries, fun hne => absurd rfl hne, fun _ => ?_, fun _ => .inl rfl, fun _ hfinal => ?_⟩
    · intro heq
      exact hseen (Option.some.inj heq)
    · simp [RelayRecord.isFinal, update, hcode] at hfinal

theorem fail_ok {code : FailureCode} {reason : Text} (hr : r.Ok) (hcode : code = .unseen → r.state = .sent) :
    (fail t code reason r).Ok := by
  refine ⟨nofun, nofun, hr.carries, fun hne => absurd rfl hne, fun hsigned => ?_, fun _ => ?_, fun _ hfinal => ⟨rfl, ?_⟩⟩
  · intro heq
    have hnone := hr.unsigned (.inl (hcode (Option.some.inj heq)))
    have hsome : r.attestation.isSome = true := hsigned
    rw [hnone] at hsome
    cases hsome
  · show (!code.isFinal) = true ∨ (fail t code reason r).isFinal = true
    cases hfinal : code.isFinal with
    | false => exact .inl rfl
    | true => exact .inr (by simp [RelayRecord.isFinal, fail, update, hfinal])
  · have hfinal : code.isFinal = true := by simpa [RelayRecord.isFinal, fail, update] using hfinal
    show (!code.isFinal) = false
    rw [hfinal]
    rfl

theorem RelayRecord.new_ok (burnHash : Text) (t : Nat) : (RelayRecord.new burnHash t).Ok :=
  ⟨fun _ => rfl, nofun, nofun, fun _ => rfl, nofun, nofun, nofun⟩

theorem startOver_ok (hr : r.Ok) (attempts since : Option Nat) : (r.startOver t attempts since).Ok := by
  have hcarries := hr.carries
  unfold RelayRecord.startOver
  cases hatt : r.attestation with
  | none =>
    rw [hatt] at hcarries
    exact ⟨fun _ => rfl, nofun, hcarries, fun _ => rfl, nofun, nofun, nofun⟩
  | some attestation =>
    rw [hatt] at hcarries
    exact ⟨nofun, fun _ => rfl, hcarries, fun _ => rfl, fun _ => nofun, nofun, nofun⟩

theorem RelayRecord.Write.ok (h : r.Write t r') (hr : r.Ok) : r'.Ok := by
  cases h with
  | same => exact hr
  | confirming h =>
    have hclean := hr.clean (by rw [h]; nofun)
    exact ⟨fun _ => hr.unsigned (.inl h), nofun, hr.carries, fun _ => hclean, hr.seen, nofun, nofun⟩
  | confirmed h nonce recipient amount fee message attestation =>
    have hclean : r.failureCode = none := hr.clean (by rcases h with h | h <;> rw [h] <;> nofun)
    refine ⟨nofun, fun _ => rfl, fun _ => ⟨rfl, rfl⟩, fun _ => hclean, fun _ => ?_, nofun, nofun⟩
    show r.failureCode ≠ some .unseen
    rw [hclean]
    nofun
  | fail code reason h hcode => exact fail_ok hr hcode
  | transient code reason h hcode hseen => exact transient_ok hr hcode hseen
  | started h hagain attempts since => exact startOver_ok hr attempts since
  | arrived h hsigned mintHash mintedBy =>
    exact ⟨nofun, fun _ => hsigned, hr.carries, fun _ => rfl, fun _ => nofun, nofun, nofun⟩
  | looked h mintHash mintedBy retryAt attempts =>
    have harrived : (update t (fun r => { r with mintHash, mintedBy, retryAt, attempts }) r).state
        = .arrived := h
    have hclean := hr.clean (by rw [h]; nofun)
    refine ⟨fun hst => ?_, fun _ => hr.signed (.inr (.inr h)), hr.carries, fun _ => hclean, hr.seen, ?_, ?_⟩
    · rw [harrived] at hst
      simp at hst
    · intro hst
      rw [harrived] at hst
      cases hst
    · intro hst
      rw [harrived] at hst
      cases hst

/-- A final record stays in its state. -/
theorem RelayRecord.Write.final (h : r.Write t r') (hr : r.Ok) (hfinal : r.isFinal = true) :
    r'.state = r.state ∧ r'.isFinal = true := by
  have hsettled : isSettled r ≠ false := by
    intro h
    rw [isFinal_eq_false h] at hfinal
    cases hfinal
  have hstate : r.state = .arrived ∨ r.state = .failed := by
    simpa [isSettled, or_iff_not_imp_left] using hsettled
  cases h with
  | same => exact ⟨rfl, hfinal⟩
  | confirming h => simp [h] at hstate
  | confirmed h => rcases h with h | h <;> simp [h] at hstate
  | fail code reason h => exact absurd h hsettled
  | transient code reason h =>
    rcases h with h | h
    · exact absurd h hsettled
    · obtain ⟨hfailed, hretry⟩ := isRetrying_eq_true.mp h
      rw [(hr.final hfailed hfinal).1] at hretry
      cases hretry
  | started h hagain =>
    obtain ⟨hnone, hfalse⟩ := hr.final h hfinal
    rcases hagain with hagain | hagain
    · rw [isRetrying_eq_true, hnone] at hagain
      cases hagain.2
    · rw [hfalse] at hagain
      cases hagain
  | arrived h => exact absurd h hsettled
  | looked h => exact ⟨rfl, isFinal_of_arrived h⟩

/-- What Circle has signed stays. -/
theorem RelayRecord.Write.signed (h : r.Write t r') (hr : r.Ok) (hsigned : r.attestation.isSome = true) :
    r'.attestation = r.attestation ∧ r'.nonce = r.nonce ∧ r'.message = r.message := by
  have hunsigned : ¬ (r.state = .sent ∨ r.state = .confirming) := by
    intro h
    rw [hr.unsigned h] at hsigned
    cases hsigned
  cases h with
  | confirmed h => exact absurd h hunsigned
  | transient code reason =>
    obtain ⟨-, -, hatt, hnonce, hmessage, -⟩ := transient_kept t code reason r
    exact ⟨hatt, hnonce, hmessage⟩
  | _ => exact ⟨rfl, rfl, rfl⟩

/-- The time of a broadcast stays, and so does the mint of a record that has not arrived. -/
theorem RelayRecord.Write.mint (h : r.Write t r') : r'.submittedAt = r.submittedAt ∧
    (r'.state = .arrived ∨ (r'.mintHash = r.mintHash ∧ r'.mintedBy = r.mintedBy)) := by
  cases h with
  | transient code reason =>
    obtain ⟨hhash, hby, -, -, -, hsubmitted, -⟩ := transient_kept t code reason r
    exact ⟨hsubmitted, .inr ⟨hhash, hby⟩⟩
  | arrived => exact ⟨rfl, .inl rfl⟩
  | looked h => exact ⟨rfl, .inl h⟩
  | _ => exact ⟨rfl, .inr ⟨rfl, rfl⟩⟩

theorem submit_ok (hr : r.Ok) (h : isSettled r = false) (hsigned : r.attestation.isSome = true) (mintHash : Text) :
    (r.submit t mintHash).Ok := by
  have hclean := hr.clean (isSettled_eq_false.mp h).2
  exact ⟨nofun, fun _ => hsigned, hr.carries, fun _ => hclean, hr.seen, nofun, nofun⟩

/-- How the steps of a job between two of its `await`s may change a record. -/
def RelayRecord.Writes (t : Nat) : RelayRecord → RelayRecord → Prop := Relation.ReflTransGen (RelayRecord.Write t)

theorem RelayRecord.Write.writes (h : r.Write t r') : r.Writes t r' := .single h

theorem RelayRecord.Writes.ok (h : r.Writes t r') (hr : r.Ok) : r'.Ok := by
  induction h with
  | refl => exact hr
  | tail _ hwrite ih => exact hwrite.ok ih

theorem RelayRecord.Writes.final (h : r.Writes t r') (hr : r.Ok) (hfinal : r.isFinal = true) :
    r'.state = r.state ∧ r'.isFinal = true := by
  induction h with
  | refl => exact ⟨rfl, hfinal⟩
  | tail hwrites hwrite ih =>
    obtain ⟨hstate, hfinal⟩ := hwrite.final (RelayRecord.Writes.ok hwrites hr) ih.2
    exact ⟨hstate.trans ih.1, hfinal⟩

theorem RelayRecord.Writes.mint (h : r.Writes t r') (hr : r.Ok) : r'.submittedAt = r.submittedAt ∧
    (r'.state = .arrived ∨ (r'.mintHash = r.mintHash ∧ r'.mintedBy = r.mintedBy)) := by
  induction h with
  | refl => exact ⟨rfl, .inr ⟨rfl, rfl⟩⟩
  | tail hwrites hwrite ih =>
    obtain ⟨hsubmitted, hmint⟩ := hwrite.mint
    refine ⟨hsubmitted.trans ih.1, ?_⟩
    rcases ih.2 with harrived | hkept
    · have hfinal := hwrite.final (RelayRecord.Writes.ok hwrites hr) (isFinal_of_arrived harrived)
      exact .inl (hfinal.1.trans harrived)
    · exact hmint.imp_right fun hmint => ⟨hmint.1.trans hkept.1, hmint.2.trans hkept.2⟩

theorem RelayRecord.Writes.signed (h : r.Writes t r') (hr : r.Ok) (hsigned : r.attestation.isSome = true) :
    r'.attestation = r.attestation ∧ r'.nonce = r.nonce ∧ r'.message = r.message := by
  induction h with
  | refl => exact ⟨rfl, rfl, rfl⟩
  | tail hwrites hwrite ih =>
    obtain ⟨hatt, hnonce, hmessage⟩ := hwrite.signed (RelayRecord.Writes.ok hwrites hr) (by rw [ih.1]; exact hsigned)
    exact ⟨hatt.trans ih.1, hnonce.trans ih.2.1, hmessage.trans ih.2.2⟩

end Records

/-! ## What a job may rely on -/

/-- The last time a nonce was read, among deeds. -/
def lastRead (nonce : Text) : List Deed → Option Bool
  | [] => none
  | .nonceRead n used :: deeds => if n = nonce then some used else lastRead nonce deeds
  | _ :: deeds => lastRead nonce deeds

/-- Every recorded broadcast of a burn has been seen reverted. -/
def AllReverted (deeds : List Deed) (burnHash : Text) : Prop :=
  ∀ txHash t, .broadcast burnHash txHash t ∈ deeds → .receipt txHash .reverted ∈ deeds

/-- Every recorded broadcast of a burn has been seen reverted, or it has arrived, or it is the one on the
record. -/
def Accounted (deeds : List Deed) (burnHash : Text) (r : RelayRecord) : Prop :=
  ∀ txHash t, .broadcast burnHash txHash t ∈ deeds → .receipt txHash .reverted ∈ deeds ∨
    r.state = .arrived ∨ (r.mintHash = some txHash ∧ r.mintedBy = some .relay)

/-- A record that is being minted. -/
structure Minting (signed : Signed) (r : RelayRecord) : Prop where
  unsettled : isSettled r = false
  nonce : r.nonce = some signed.nonce
  signed : r.attestation.isSome = true

/-- What holds of the record and of what is known, while a mint awaits something. -/
def MintOk (spent : List Text) (deeds : List Deed) (burnHash : Text) (signed : Signed) (r : RelayRecord) :
    MintStage → Prop
  | .earlier mintHash _ =>
    Minting signed r ∧ r.mintHash = some mintHash ∧ r.mintedBy = some .relay
  | .checking => Minting signed r ∧ (signed.nonce ∈ spent ∨ AllReverted deeds burnHash)
  | .simulating =>
    Minting signed r ∧ AllReverted deeds burnHash ∧ lastRead signed.nonce deeds = some false
  | .sending => Minting signed r ∧ AllReverted deeds burnHash
  | .pending | .refused _ _ | .mining _ _ | .unmined _ | .finding => Minting signed r
  | .warning => r.state = .arrived

/-- What holds of the record and of what is known, while a job awaits something. -/
def StageOk (spent : List Text) (deeds : List Deed) (burnHash : Text) (r : RelayRecord) : Stage → Prop
  | .paying was => was = r ∧ isRetrying r = true
  | .looking was => was = r ∧ r.state = .arrived
  | .asking _ record | .sleeping _ record =>
    record.state = r.state ∧ (r.state = .sent ∨ r.state = .confirming)
  | .queued => isSettled r = false ∧ r.attestation.isSome = true
  | .minting signed stage => MintOk spent deeds burnHash signed r stage
  | .ended => True

/-- A job waits for the lock, or has it. -/
def Stage.locks : Stage → Bool
  | .queued | .minting _ _ => true
  | _ => false

def Stage.hasLock : Stage → Bool
  | .minting _ _ => true
  | _ => false

theorem StageOk.mono {spent spent' : List Text} {deeds deeds' : List Deed} {burnHash : Text}
    {r : RelayRecord} {stage : Stage} (h : StageOk spent deeds burnHash r stage)
    (hspent : spent ⊆ spent') (hreverted : AllReverted deeds burnHash → AllReverted deeds' burnHash)
    (hread : stage.hasLock = true → ∀ nonce, lastRead nonce deeds' = lastRead nonce deeds) :
    StageOk spent' deeds' burnHash r stage := by
  cases stage with
  | minting signed stage =>
    cases stage with
    | checking => exact ⟨h.1, h.2.imp (fun hmem => hspent hmem) hreverted⟩
    | simulating => exact ⟨h.1, hreverted h.2.1, (hread rfl _).trans h.2.2⟩
    | sending => exact ⟨h.1, hreverted h.2⟩
    | _ => exact h
  | _ => exact h

/-! ## A job from one `await` to the next -/

/-- A job changes its record as a step may, and awaits what the record allows. -/
structure NextOk (t : Nat) (spent : List Text) (deeds : List Deed) (burnHash : Text) (r : RelayRecord)
    (next : RelayRecord × Stage) : Prop where
  write : r.Writes t next.1
  stage : StageOk spent deeds burnHash next.1 next.2

/-- The same of a mint. -/
structure MintNextOk (t : Nat) (spent : List Text) (deeds : List Deed) (burnHash : Text)
    (signed : Signed) (r : RelayRecord) (next : MintStep) : Prop where
  write : r.Writes t next.1
  stage : ∀ stage, next.2 = some stage → MintOk spent deeds burnHash signed next.1 stage

section Next

variable {opts : RelayOptions} {t : Nat} {spent : List Text} {deeds : List Deed} {burnHash : Text}
  {r : RelayRecord}

theorem run_fst (t : Nat) (r : RelayRecord) : (run t r).1 = r := by
  unfold run
  split_ifs <;> rfl

/-- What `run` awaits. -/
theorem run_stage (hr : r.Ok) : StageOk spent deeds burnHash r (run t r).2 := by
  unfold run
  by_cases hsettled : isSettled r = true
  · rw [if_pos hsettled]
    trivial
  · have hunsettled := isSettled_eq_false.mp (Bool.eq_false_of_not_eq_true hsettled)
    rw [if_neg hsettled]
    by_cases hsigned : r.attestation.isNone = true
    · rw [if_pos hsigned]
      have hnone : r.attestation = none := by simpa using hsigned
      have hnot : ¬ (r.state = .confirmed ∨ r.state = .submitted ∨ r.state = .arrived) := by
        intro h
        have hsome := hr.signed h
        rw [hnone] at hsome
        cases hsome
      refine ⟨rfl, ?_⟩
      cases hstate : r.state <;> simp [hstate] at hunsettled hnot ⊢
    · rw [if_neg hsigned]
      refine ⟨Bool.eq_false_of_not_eq_true hsettled, ?_⟩
      simpa [Option.isSome_iff_ne_none] using hsigned

theorem run_ok (hr : r.Ok) : NextOk t spent deeds burnHash r (run t r) where
  write := by
    rw [run_fst]
    exact .refl
  stage := by
    rw [run_fst]
    exact run_stage hr

/-- A job that starts its record over. -/
theorem resumeRun_ok (hr : r.Ok) (hretrying : isRetrying r = true) :
    NextOk t spent deeds burnHash r (resumeRun t r r) := by
  have hrun : resumeRun t r r = run t (r.startOver t r.attempts r.retryingSince) := rfl
  have hfailed := (isRetrying_eq_true.mp hretrying).1
  rw [hrun]
  refine ⟨?_, ?_⟩
  · rw [run_fst]
    exact .single (.started hfailed (.inl hretrying) _ _)
  · rw [run_fst]
    exact run_stage (startOver_ok hr _ _)

theorem resumeFailed_ok (hr : r.Ok) (hretrying : isRetrying r = true) :
    NextOk t spent deeds burnHash r (resumeFailed t r) := by
  unfold resumeFailed
  split_ifs
  · exact ⟨.refl, rfl, hretrying⟩
  · exact resumeRun_ok hr hretrying

theorem paid_ok (hr : r.Ok) (hretrying : isRetrying r = true) (wei : Option Nat) :
    NextOk t spent deeds burnHash r (paid t wei r r) := by
  unfold paid
  split_ifs
  · exact resumeRun_ok hr hretrying
  · exact ⟨.single (.transient _ _ (.inr hretrying) rfl nofun), trivial⟩

theorem lookedUp_ok (harrived : r.state = .arrived) (found : Option MintLog) (was : RelayRecord) :
    NextOk t spent deeds burnHash r (lookedUp opts t found was r) := by
  cases found with
  | some log => exact ⟨.single (.looked harrived _ _ _ _), trivial⟩
  | none => exact ⟨.single (.looked harrived r.mintHash r.mintedBy _ _), trivial⟩

theorem lookupMintAgain_ok (harrived : r.state = .arrived) :
    NextOk t spent deeds burnHash r (lookupMintAgain opts t r) := by
  unfold lookupMintAgain
  split_ifs
  · exact ⟨.refl, rfl, harrived⟩
  · exact lookedUp_ok harrived none r

/-- A job that rejects ends, with its record as a step may change it. -/
theorem rejected_write (h : isSettled r = false) : r.Write t (rejected t r) := by
  unfold rejected
  rw [if_neg (isSettled_eq_false.mp h).1]
  exact .transient _ _ (.inl h) rfl nofun

theorem isSettled_of_asking (h : r.state = .sent ∨ r.state = .confirming) : isSettled r = false := by
  rcases h with h | h <;> simp [isSettled, h]

theorem pollAgain_ok {begun : Nat} {record : RelayRecord} (hrecord : record.state = r.state)
    (hstate : r.state = .sent ∨ r.state = .confirming) :
    NextOk t spent deeds burnHash r (pollAgain opts t begun record r) := by
  have hunsettled := isSettled_of_asking hstate
  unfold pollAgain
  dsimp only
  by_cases hunseen : record.state = .sent
  · have hsent : r.state = .sent := hrecord.symm.trans hunseen
    simp only [hunseen, if_true]
    split_ifs
    · exact ⟨.single (.fail _ _ hunsettled fun _ => hsent), trivial⟩
    · exact ⟨.refl, hrecord, hstate⟩
  · simp only [hunseen, if_false]
    split_ifs
    · exact ⟨.single (.transient _ _ (.inl hunsettled) rfl nofun), trivial⟩
    · exact ⟨.refl, hrecord, hstate⟩

theorem asked_ok {begun : Nat} {record : RelayRecord} (hrecord : record.state = r.state)
    (hstate : r.state = .sent ∨ r.state = .confirming) (lookup : Option IrisLookup) :
    NextOk t spent deeds burnHash r (asked opts t begun record lookup r) := by
  have hunsettled := isSettled_of_asking hstate
  unfold asked
  split
  · split
    · exact ⟨.single (.confirmed hstate _ _ _ _ _ _), rfl, rfl⟩
    · exact ⟨.single (.fail _ _ hunsettled nofun), trivial⟩
    · exact ⟨.single (rejected_write hunsettled), trivial⟩
  · split_ifs with hsent
    · have hwrite : r.Write t (update t (fun r => { r with state := .confirming }) r) :=
        .confirming (hrecord.symm.trans hsent)
      have hnext : NextOk t spent deeds burnHash (update t (fun r => { r with state := .confirming }) r)
          (pollAgain opts t begun _ _) := pollAgain_ok rfl (.inr rfl)
      exact ⟨.head hwrite hnext.write, hnext.stage⟩
    · exact pollAgain_ok hrecord hstate
  · exact pollAgain_ok hrecord hstate
  · exact pollAgain_ok hrecord hstate

/-! ## A mint from one `await` to the next -/

variable {signed : Signed}

theorem mint_ok (hunsettled : isSettled r = false) (haccounted : Accounted deeds burnHash r)
    {stage : MintStage} (h : mint r = some (signed, stage)) : MintOk spent deeds burnHash signed r stage := by
  unfold mint at h
  split at h
  · rename_i nonce message attestation _ hnonce hmessage hattestation
    have hsigned : r.attestation.isSome = true := by rw [hattestation]; rfl
    split at h
    · rename_i mintHash hhash hby
      cases h
      exact ⟨⟨hunsettled, hnonce, hsigned⟩, hhash, hby⟩
    · rename_i hnone
      cases h
      refine ⟨⟨hunsettled, hnonce, hsigned⟩, .inr fun txHash t hmem => ?_⟩
      rcases haccounted txHash t hmem with hreverted | harrived | ⟨hhash, hby⟩
      · exact hreverted
      · exact absurd harrived (isSettled_eq_false.mp hunsettled).1
      · exact absurd hby (hnone _ hhash)
  · cases h

theorem Minting.arrived {mintHash : Option Text} {mintedBy : Minter} (h : Minting signed r) :
    r.Writes t (arrived t mintHash mintedBy r) := .single (.arrived h.unsettled h.signed _ _)

theorem Minting.transient {code : FailureCode} {reason : Text} (h : Minting signed r)
    (hcode : code.isFinal = false) (hseen : code ≠ .unseen) : r.Writes t (transient t code reason r) :=
  .single (.transient _ _ (.inl h.unsettled) hcode hseen)

theorem earlierReceipt_ok {mintHash : Text} {waits : Nat} (haccounted : Accounted deeds burnHash r)
    (h : MintOk spent deeds burnHash signed r (.earlier mintHash waits)) (outcome : ReceiptOutcome) :
    MintNextOk t spent (.receipt mintHash outcome :: deeds) burnHash signed r
      (earlierReceipt t mintHash waits outcome r) := by
  obtain ⟨hminting, hhash, hby⟩ := h
  cases outcome with
  | success => exact ⟨hminting.arrived, nofun⟩
  | reverted =>
    refine ⟨.refl, ?_⟩
    rintro _ ⟨⟩
    refine ⟨hminting, .inr fun txHash t hmem => ?_⟩
    have hmem : .broadcast burnHash txHash t ∈ deeds := by simpa using hmem
    rcases haccounted txHash t hmem with hreverted | harrived | ⟨hhash', -⟩
    · exact List.mem_cons_of_mem _ hreverted
    · exact absurd harrived (isSettled_eq_false.mp hminting.unsettled).1
    · obtain rfl : mintHash = txHash := Option.some.inj (hhash.symm.trans hhash')
      exact List.mem_cons_self
  | pending =>
    refine ⟨.refl, ?_⟩
    rintro _ ⟨⟩
    split_ifs
    · exact ⟨hminting, hhash, hby⟩
    · exact hminting

theorem pendingNonce_ok (h : Minting signed r) {used : Bool} (hused : used = decide (signed.nonce ∈ spent)) :
    MintNextOk t spent deeds burnHash signed r (pendingNonce t used r) := by
  unfold pendingNonce
  split_ifs with husedTrue
  · refine ⟨.refl, ?_⟩
    rintro _ ⟨⟩
    rw [husedTrue] at hused
    exact ⟨h, .inl (of_decide_eq_true hused.symm)⟩
  · exact ⟨h.transient rfl nofun, nofun⟩

theorem checkedNonce_ok (h : MintOk spent deeds burnHash signed r .checking) {used : Bool}
    (hused : used = decide (signed.nonce ∈ spent)) (today : Nat) :
    MintNextOk t spent (.nonceRead signed.nonce used :: deeds) burnHash signed r
      (checkedNonce opts t today used r) := by
  obtain ⟨hminting, hspent⟩ := h
  unfold checkedNonce
  split_ifs with husedTrue hcap
  · refine ⟨.refl, ?_⟩
    rintro _ ⟨⟩
    exact hminting
  · exact ⟨hminting.transient rfl nofun, nofun⟩
  · refine ⟨.refl, ?_⟩
    rintro _ ⟨⟩
    have hfalse : used = false := Bool.eq_false_of_not_eq_true husedTrue
    have hnot : signed.nonce ∉ spent := of_decide_eq_false (hused.symm.trans hfalse)
    have hreverted := hspent.resolve_left hnot
    refine ⟨hminting, fun txHash t hmem => ?_, ?_⟩
    · have hmem : .broadcast burnHash txHash t ∈ deeds := by simpa using hmem
      exact List.mem_cons_of_mem _ (hreverted txHash t hmem)
    · show (if signed.nonce = signed.nonce then some used else _) = some false
      rw [if_pos rfl, hfalse]

theorem refusedNonce_ok (h : Minting signed r) (isTransient : Bool) (revert : Option Text) (used : Bool) :
    MintNextOk t spent deeds burnHash signed r (refusedNonce t isTransient revert used r) := by
  unfold refusedNonce
  split_ifs
  · refine ⟨.refl, ?_⟩
    rintro _ ⟨⟩
    exact h
  · exact ⟨h.transient rfl nofun, nofun⟩
  · exact ⟨.single (.fail _ _ h.unsettled nofun), nofun⟩

theorem miningReceipt_ok (h : Minting signed r) (mintHash : Text) (waits : Nat) (outcome : ReceiptOutcome) :
    MintNextOk t spent deeds burnHash signed r (miningReceipt t mintHash waits outcome r) := by
  cases outcome with
  | success =>
    refine ⟨h.arrived, ?_⟩
    rintro _ ⟨⟩
    exact rfl
  | reverted =>
    refine ⟨.refl, ?_⟩
    rintro _ ⟨⟩
    exact h
  | pending =>
    refine ⟨.refl, ?_⟩
    rintro _ ⟨⟩
    split_ifs
    · exact h
    · exact h

theorem unminedNonce_ok (h : Minting signed r) (outcome : ReceiptOutcome) (used : Bool) :
    MintNextOk t spent deeds burnHash signed r (unminedNonce t outcome used r) := by
  unfold unminedNonce
  split_ifs
  · refine ⟨.refl, ?_⟩
    rintro _ ⟨⟩
    exact h
  · exact ⟨h.transient rfl nofun, nofun⟩
  · exact ⟨h.transient rfl nofun, nofun⟩

end Next

end Writz.Relayer.Cctp

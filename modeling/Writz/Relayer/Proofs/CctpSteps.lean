import Writz.Relayer.Proofs.CctpEffects

/-!
# Proofs: the steps of the CCTP relay are effects

Each entry point and each answer is taken apart once, into the effects it has.
-/

namespace Writz.Relayer.Cctp

open Node

namespace CctpRelay

variable {opts : RelayOptions} {s : CctpRelay} {id : Nat} {burnHash : Text}

/-! ## Jobs -/

theorem jobAt_eq_some {job : Job} {r : RelayRecord} :
    s.jobAt id = some (job, r) ↔ s.running.get id = some job ∧ s.store.get job.burnHash = some r := by
  unfold jobAt
  constructor
  · intro h
    obtain ⟨job', hjob, h⟩ := Option.bind_eq_some_iff.mp h
    obtain ⟨r', hr, h⟩ := Option.bind_eq_some_iff.mp h
    cases h
    exact ⟨hjob, hr⟩
  · rintro ⟨hjob, hr⟩
    simp [hjob, hr]

/-- A job that awaits something without the lock. -/
theorem await_effect {stage : Stage} {r : RelayRecord} {next : RelayRecord × Stage} (deeds : List Deed)
    (hjob : s.running.get id = some { burnHash, stage }) (hlocks : stage.locks = false)
    (hr : s.store.get burnHash = some r) (hnext : NextOk s.now s.spent (deeds ++ s.deeds) burnHash r next)
    (hunlocked : next.2.hasLock = false) (hnoted : Noted burnHash stage s.deeds deeds) :
    Effect opts s ((s.await id burnHash next).note deeds) := by
  have hcapped : next.2.capped = true → stage.capped = true ∨ s.UnderCap opts := by
    intro h
    cases hstage : next.2 with
    | minting signed stage =>
      rw [hstage] at hunlocked
      cases hunlocked
    | _ =>
      rw [hstage] at h
      cases h
  by_cases hqueued : next.2 = .queued
  · have heffect : Effect opts s _ := .went hjob hr hnext (.join hlocks hqueued) hnoted hcapped
    unfold await note
    rw [if_pos hqueued]
    exact heffect
  · have hnot : next.2.locks = false := by
      cases hstage : next.2 with
      | queued => exact absurd hstage hqueued
      | minting signed stage =>
        rw [hstage] at hunlocked
        cases hunlocked
      | _ => rfl
    have hlines : Lines s.queue id stage next.2 s.queue := by
      refine .keep (hlocks.trans hnot.symm) fun hlock => ?_
      rw [hlock] at hunlocked
      cases hunlocked
    have heffect : Effect opts s _ := .went hjob hr hnext hlines hnoted hcapped
    unfold await note
    rw [if_neg hqueued]
    exact heffect

/-- A job that has the lock, or takes it. -/
theorem awaitMint_effect {stage : Stage} {r : RelayRecord} (signed : Signed) (next : MintStep) (deeds : List Deed)
    (hjob : s.running.get id = some { burnHash, stage }) (hlocks : stage.locks = true)
    (hhead : s.queue.head? = some id) (hr : s.store.get burnHash = some r)
    (hnext : MintNextOk s.now s.spent (deeds ++ s.deeds) burnHash signed r next)
    (hnoted : Noted burnHash stage s.deeds deeds)
    (hcapped : ∀ mintStage, next.2 = some mintStage → (Stage.minting signed mintStage).capped = true →
      stage.capped = true ∨ s.UnderCap opts) :
    Effect opts s ((s.awaitMint id burnHash signed next).note deeds) := by
  obtain ⟨r', stage'⟩ := next
  cases stage' with
  | some mintStage =>
    have hok : NextOk s.now s.spent (deeds ++ s.deeds) burnHash r (r', .minting signed mintStage) :=
      ⟨hnext.write, hnext.stage mintStage rfl⟩
    exact .went hjob hr hok (.keep hlocks fun _ => hhead) hnoted (hcapped mintStage rfl)
  | none =>
    have hok : NextOk s.now s.spent (deeds ++ s.deeds) burnHash r (r', .ended) := ⟨hnext.write, trivial⟩
    exact .went hjob hr hok (.leave hlocks hhead rfl) hnoted nofun

theorem launch_effects {work : RelayRecord → RelayRecord × Stage}
    (hwork : ∀ r, s.store.get burnHash = some r →
      NextOk s.now s.spent s.deeds burnHash r (work r) ∧ (work r).2.hasLock = false) :
    Effects opts s (s.launch burnHash work) := by
  unfold launch
  split
  · rename_i r hjobs hr
    obtain ⟨hnext, hunlocked⟩ := hwork r hr
    by_cases hqueued : (work r).2 = .queued
    · have heffect : Effect opts s _ := .launched hjobs hr hnext (.join rfl hqueued) hunlocked
      unfold await
      rw [if_pos hqueued]
      exact .single heffect
    · have hlines : Lines s.queue s.launched .ended (work r).2 s.queue := by
        refine .keep ?_ fun hlock => ?_
        · cases hstage : (work r).2 with
          | queued => exact absurd hstage hqueued
          | minting signed stage =>
            rw [hstage] at hunlocked
            cases hunlocked
          | _ => rfl
        · rw [hlock] at hunlocked
          cases hunlocked
      have heffect : Effect opts s _ := .launched hjobs hr hnext hlines hunlocked
      unfold await
      rw [if_neg hqueued]
      exact .single heffect
  · exact .refl

/-! ## Entry points -/

theorem run_unlocked (t : Nat) (r : RelayRecord) : (run t r).2.hasLock = false := by
  unfold run
  split_ifs <;> rfl

theorem start_effects (h : s.Inv) : Effects opts s (s.start burnHash) :=
  launch_effects fun r hr => ⟨run_ok (h.record burnHash r hr), run_unlocked s.now r⟩

theorem retry_effects (h : s.Inv) : Effects opts s (s.retry opts burnHash) := by
  unfold retry
  cases hr : s.store.get burnHash with
  | none => exact .refl
  | some r =>
    have hrecord := h.record burnHash r hr
    have hsame : ∀ r', s.store.get burnHash = some r' → r' = r := by
      intro r' hr'
      exact Option.some.inj (hr'.symm.trans hr)
    dsimp only
    split_ifs with hdue hbusy harrived hretrying
    · exact .refl
    · exact .refl
    · refine launch_effects fun r' hr' => ?_
      rw [hsame r' hr']
      refine ⟨lookupMintAgain_ok harrived, ?_⟩
      unfold lookupMintAgain
      split_ifs <;> rfl
    · refine launch_effects fun r' hr' => ?_
      rw [hsame r' hr']
      refine ⟨resumeFailed_ok hrecord hretrying, ?_⟩
      unfold resumeFailed
      split_ifs
      · rfl
      · exact run_unlocked s.now _
    · exact .refl

theorem request_effects (h : s.Inv) (rawHash : Text) : Effects opts s (s.request opts rawHash).2 := by
  unfold request
  cases parse rawHash with
  | error e => exact .refl
  | ok burnHash =>
    dsimp only
    cases hstands : (s.store.get burnHash).filter stands with
    | some r =>
      dsimp only
      split_ifs
      · exact retry_effects h
      · exact start_effects h
    | none =>
      dsimp only
      split_ifs
      · exact .refl
      · have heffect : Effect opts s _ := .restarted burnHash hstands
        exact .trans (.single heffect) (start_effects (heffect.inv h))

theorem status_effects (h : s.Inv) (rawHash : Text) : Effects opts s (s.status opts rawHash).2 := by
  unfold status
  cases parse rawHash with
  | error e => exact .refl
  | ok burnHash =>
    dsimp only
    split_ifs
    · exact .refl
    · exact retry_effects h

/-! ## Answers -/

theorem pollAgain_unlocked (t begun : Nat) (record r : RelayRecord) :
    (pollAgain opts t begun record r).2.hasLock = false := by
  unfold pollAgain
  dsimp only
  split_ifs <;> rfl

theorem asked_unlocked (t begun : Nat) (record r : RelayRecord) (lookup : Option IrisLookup) :
    (asked opts t begun record lookup r).2.hasLock = false := by
  unfold asked
  split
  · split <;> rfl
  · dsimp only
    split_ifs
    · exact pollAgain_unlocked _ _ _ _
    · exact pollAgain_unlocked _ _ _ _
  · exact pollAgain_unlocked _ _ _ _
  · exact pollAgain_unlocked _ _ _ _

theorem iris_effect (h : s.Inv) {answer : Option (Option IrisMessage)} {s' : CctpRelay}
    (hstep : s.iris opts id answer = some s') : Effect opts s s' := by
  unfold iris at hstep
  split at hstep
  · rename_i burnHash begun record r hat
    obtain ⟨hjob, hr⟩ := jobAt_eq_some.mp hat
    have hstage := h.stageOk hjob hr
    cases hstep
    refine await_effect _ hjob rfl hr (asked_ok hstage.1 hstage.2 _) (asked_unlocked _ _ _ _ _) ?_
    split
    · exact .reported
    · exact .reported
    · exact .none
  · cases hstep

theorem wake_effect (h : s.Inv) {s' : CctpRelay} (hstep : s.wake id = some s') : Effect opts s s' := by
  unfold wake at hstep
  split at hstep
  · rename_i burnHash begun record r hat
    obtain ⟨hjob, hr⟩ := jobAt_eq_some.mp hat
    have hstage := h.stageOk hjob hr
    cases hstep
    exact await_effect [] hjob rfl hr ⟨.refl, hstage⟩ rfl .none
  · cases hstep

theorem lock_effect (h : s.Inv) {s' : CctpRelay} (hstep : s.lock id = some s') : Effect opts s s' := by
  unfold lock at hstep
  split at hstep
  · rename_i burnHash r hat
    obtain ⟨hjob, hr⟩ := jobAt_eq_some.mp hat
    have hstage := h.stageOk hjob hr
    split_ifs at hstep with hhead
    split at hstep
    · rename_i signed stage hmint
      cases hstep
      have hok : MintOk s.spent s.deeds burnHash signed r stage := mint_ok hstage.1 (h.accounted burnHash r hr) hmint
      refine awaitMint_effect signed (r, some stage) [] hjob rfl hhead hr ⟨.refl, ?_⟩ .none ?_
      · rintro _ ⟨⟩
        exact hok
      · rintro _ ⟨⟩ hcapped
        -- A mint begins before the check of the cap.
        unfold mint at hmint
        repeat' split at hmint
        · cases hmint
          cases hcapped
        · cases hmint
          cases hcapped
        · cases hmint
    · cases hstep
      have hok : NextOk s.now s.spent ([] ++ s.deeds) burnHash r (r, .ended) := ⟨.refl, trivial⟩
      exact .went hjob hr hok (.leave rfl hhead rfl) .none nofun
  · cases hstep

theorem balance_effect (h : s.Inv) {wei : Option Nat} {s' : CctpRelay} (hstep : s.balance id wei = some s') :
    Effect opts s s' := by
  unfold balance at hstep
  split at hstep
  · rename_i burnHash was r hat
    obtain ⟨hjob, hr⟩ := jobAt_eq_some.mp hat
    obtain ⟨rfl, hretrying⟩ := h.stageOk hjob hr
    have hunlocked : (paid s.now wei was was).2.hasLock = false := by
      unfold paid
      split_ifs
      · exact run_unlocked s.now _
      · rfl
    cases hstep
    exact await_effect [] hjob rfl hr (paid_ok (h.record burnHash was hr) hretrying wei) hunlocked .none
  · rename_i burnHash signed r hat
    obtain ⟨hjob, hr⟩ := jobAt_eq_some.mp hat
    cases hstep
    exact awaitMint_effect signed (r, none) [] hjob rfl (h.queued.lock id _ hjob rfl) hr
      ⟨.refl, nofun⟩ .none nofun
  · cases hstep

/-- A mint that rejects gives the lock back. -/
theorem rejected_effect {signed : Signed} {stage : MintStage} {r : RelayRecord} (h : s.Inv)
    (hjob : s.running.get id = some { burnHash, stage := .minting signed stage })
    (hr : s.store.get burnHash = some r) (hunsettled : isSettled r = false) :
    Effect opts s (s.awaitMint id burnHash signed (rejected s.now r, none)) :=
  awaitMint_effect signed (rejected s.now r, none) [] hjob rfl (h.queued.lock id _ hjob rfl) hr
    ⟨.single (rejected_write hunsettled), nofun⟩ .none nofun

/-- Whether a nonce is used, asked while a mint holds the lock. -/
theorem nonceRead_effect {signed : Signed} {stage : MintStage} {r : RelayRecord} {next : MintStep} (h : s.Inv)
    (hjob : s.running.get id = some { burnHash, stage := .minting signed stage })
    (hr : s.store.get burnHash = some r) (hunsettled : isSettled r = false) {used answers : Bool}
    (hnext : MintNextOk s.now s.spent (.nonceRead signed.nonce used :: s.deeds) burnHash signed r next)
    (hcapped : ∀ mintStage, next.2 = some mintStage → (Stage.minting signed mintStage).capped = true →
      (Stage.minting signed stage).capped = true ∨ s.UnderCap opts) :
    Effect opts s (if answers then (s.awaitMint id burnHash signed next).note [.nonceRead signed.nonce used]
      else s.awaitMint id burnHash signed (rejected s.now r, none)) := by
  split_ifs
  · exact awaitMint_effect signed next [.nonceRead signed.nonce used] hjob rfl (h.queued.lock id _ hjob rfl) hr hnext
      (.nonceRead rfl _ _) hcapped
  · exact rejected_effect h hjob hr hunsettled

theorem nonceUsed_effect (h : s.Inv) {answers : Bool} {s' : CctpRelay}
    (hstep : s.nonceUsed opts id answers = some s') : Effect opts s s' := by
  unfold nonceUsed at hstep
  split at hstep
  · rename_i burnHash signed stage r hat
    obtain ⟨hjob, hr⟩ := jobAt_eq_some.mp hat
    have hstage := h.stageOk hjob hr
    obtain ⟨next, hnext, hstep⟩ := Option.map_eq_some_iff.mp hstep
    cases hstep
    split at hnext
    · have hminting : Minting signed r := hstage
      cases hnext
      refine nonceRead_effect h hjob hr hminting.unsettled (pendingNonce_ok hminting rfl) fun mintStage hsome hcap => ?_
      unfold pendingNonce at hsome
      split_ifs at hsome
      cases hsome
      cases hcap
    · have hok : MintOk s.spent s.deeds burnHash signed r .checking := hstage
      cases hnext
      refine nonceRead_effect h hjob hr hok.1.unsettled (checkedNonce_ok hok rfl _) fun mintStage hsome hcap => ?_
      unfold checkedNonce at hsome
      split_ifs at hsome with hused hfull
      · cases hsome
        cases hcap
      · exact .inr (Nat.lt_of_not_le hfull)
    · have hminting : Minting signed r := hstage
      cases hnext
      refine nonceRead_effect h hjob hr hminting.unsettled (refusedNonce_ok hminting _ _ _) fun mintStage hsome hcap => ?_
      unfold refusedNonce at hsome
      split_ifs at hsome
      cases hsome
      cases hcap
    · have hminting : Minting signed r := hstage
      cases hnext
      refine nonceRead_effect h hjob hr hminting.unsettled (unminedNonce_ok hminting _ _) fun mintStage hsome hcap => ?_
      unfold unminedNonce at hsome
      split_ifs at hsome
      cases hsome
      cases hcap
    · cases hnext
  · cases hstep

theorem simulated_effect (h : s.Inv) {outcome : Option SimulateOutcome} {s' : CctpRelay}
    (hstep : s.simulated id outcome = some s') : Effect opts s s' := by
  unfold simulated at hstep
  split at hstep
  · rename_i burnHash signed r hat
    obtain ⟨hjob, hr⟩ := jobAt_eq_some.mp hat
    obtain ⟨hminting, hreverted, hread⟩ := h.stageOk hjob hr
    cases hstep
    refine awaitMint_effect signed (r, some .sending) [.sending burnHash signed.nonce] hjob rfl
      (h.queued.lock id _ hjob rfl) hr ⟨.refl, ?_⟩ (.sending _ hread hreverted) fun _ _ _ => .inl rfl
    rintro _ ⟨⟩
    refine ⟨hminting, fun txHash t hmem => ?_⟩
    have hmem : .broadcast burnHash txHash t ∈ s.deeds := by simpa using hmem
    exact List.mem_cons_of_mem _ (hreverted txHash t hmem)
  · rename_i burnHash signed r sim _ hat
    obtain ⟨hjob, hr⟩ := jobAt_eq_some.mp hat
    obtain ⟨hminting, hreverted, hread⟩ := h.stageOk hjob hr
    cases hstep
    cases sim with
    | ok => contradiction
    | failed isTransient revert =>
      refine awaitMint_effect signed (r, some (.refused isTransient revert)) [] hjob rfl
        (h.queued.lock id _ hjob rfl) hr ⟨.refl, ?_⟩ .none ?_
      · rintro _ ⟨⟩
        exact hminting
      · rintro _ ⟨⟩ hcap
        cases hcap
  · rename_i burnHash signed r hat
    obtain ⟨hjob, hr⟩ := jobAt_eq_some.mp hat
    have hok : MintOk s.spent s.deeds burnHash signed r .simulating := h.stageOk hjob hr
    cases hstep
    exact rejected_effect h hjob hr hok.1.unsettled
  · cases hstep

theorem sent_effect (h : s.Inv) {answer : Except SendErrorKind Text} {s' : CctpRelay}
    (hstep : s.sent id answer = some s') : Effect opts s s' := by
  unfold sent at hstep
  split at hstep
  · rename_i burnHash signed r hat
    obtain ⟨hjob, hr⟩ := jobAt_eq_some.mp hat
    have hok : MintOk s.spent s.deeds burnHash signed r .sending := h.stageOk hjob hr
    cases hstep
    cases answer with
    | ok mintHash => exact .broadcast mintHash hjob hr
    | error kind =>
      cases kind with
      | insufficientFunds =>
        exact awaitMint_effect signed _ [] hjob rfl (h.queued.lock id _ hjob rfl) hr
          ⟨hok.1.transient rfl nofun, nofun⟩ .none nofun
      | failed =>
        exact awaitMint_effect signed _ [] hjob rfl (h.queued.lock id _ hjob rfl) hr
          ⟨hok.1.transient rfl nofun, nofun⟩ .none nofun
  · cases hstep

theorem receipt_effect (h : s.Inv) {outcome : Option ReceiptOutcome} {s' : CctpRelay}
    (hstep : s.receipt id outcome = some s') : Effect opts s s' := by
  unfold receipt at hstep
  split at hstep
  · rename_i burnHash signed txHash waits r outcome hat
    obtain ⟨hjob, hr⟩ := jobAt_eq_some.mp hat
    have hok : MintOk s.spent s.deeds burnHash signed r (.earlier txHash waits) := h.stageOk hjob hr
    cases hstep
    refine awaitMint_effect signed _ [.receipt txHash outcome] hjob rfl (h.queued.lock id _ hjob rfl) hr
      (earlierReceipt_ok (h.accounted burnHash r hr) hok outcome) (.receipt _ _) fun mintStage hsome hcap => ?_
    cases outcome with
    | success => cases hsome
    | reverted =>
      cases hsome
      cases hcap
    | pending =>
      cases hsome
      split_ifs at hcap <;> cases hcap
  · rename_i burnHash signed txHash waits r outcome hat
    obtain ⟨hjob, hr⟩ := jobAt_eq_some.mp hat
    have hminting : Minting signed r := h.stageOk hjob hr
    cases hstep
    refine awaitMint_effect signed _ [.receipt txHash outcome] hjob rfl (h.queued.lock id _ hjob rfl) hr
      (miningReceipt_ok hminting txHash waits outcome) (.receipt _ _) fun mintStage hsome hcap => ?_
    cases outcome with
    | success =>
      cases hsome
      cases hcap
    | reverted =>
      cases hsome
      cases hcap
    | pending =>
      cases hsome
      split_ifs at hcap <;> cases hcap
  · rename_i burnHash signed txHash waits r hat
    obtain ⟨hjob, hr⟩ := jobAt_eq_some.mp hat
    have hok : MintOk s.spent s.deeds burnHash signed r (.earlier txHash waits) := h.stageOk hjob hr
    cases hstep
    exact rejected_effect h hjob hr hok.1.unsettled
  · rename_i burnHash signed txHash waits r hat
    obtain ⟨hjob, hr⟩ := jobAt_eq_some.mp hat
    have hminting : Minting signed r := h.stageOk hjob hr
    cases hstep
    exact rejected_effect h hjob hr hminting.unsettled
  · cases hstep

theorem found_effect (h : s.Inv) {log : Option MintLog} {s' : CctpRelay} (hstep : s.found opts id log = some s') :
    Effect opts s s' := by
  unfold found at hstep
  split at hstep
  · rename_i burnHash was r hat
    obtain ⟨hjob, hr⟩ := jobAt_eq_some.mp hat
    obtain ⟨rfl, harrived⟩ := h.stageOk hjob hr
    have hunlocked : (lookedUp opts s.now log was was).2.hasLock = false := by
      cases log <;> rfl
    cases hstep
    exact await_effect [] hjob rfl hr (lookedUp_ok harrived log was) hunlocked .none
  · rename_i burnHash signed r hat
    obtain ⟨hjob, hr⟩ := jobAt_eq_some.mp hat
    have hminting : Minting signed r := h.stageOk hjob hr
    cases hstep
    exact awaitMint_effect signed (mintedElsewhere opts s.now log r) [] hjob rfl
      (h.queued.lock id _ hjob rfl) hr ⟨hminting.arrived, nofun⟩ .none nofun
  · cases hstep

theorem leave_effect {s' : CctpRelay} (hstep : s.leave id = some s') : Effect opts s s' := by
  unfold leave at hstep
  split at hstep
  · rename_i burnHash hjob
    cases hstep
    exact .left hjob
  · cases hstep

end CctpRelay

/-- What a step does is made of effects. -/
theorem step_effects {opts : RelayOptions} {s s' : CctpRelay} {l : RelayLabel} (h : s.Inv)
    (hstep : (cctpRelay opts).step s l = some s') : Effects opts s s' := by
  cases l with
  | request rawHash =>
    cases hstep
    exact CctpRelay.request_effects h rawHash
  | status rawHash =>
    cases hstep
    exact CctpRelay.status_effects h rawHash
  | resume burnHash =>
    simp only [cctpRelay] at hstep
    split_ifs at hstep
    cases hstep
    exact CctpRelay.start_effects h
  | retryDue burnHash =>
    cases hstep
    exact CctpRelay.retry_effects h
  | crash =>
    cases hstep
    exact .single .crashed
  | clock ms =>
    cases hstep
    exact .single (.elapsed ms)
  | spend nonce =>
    cases hstep
    exact .single (.spent nonce)
  | iris id answer => exact .single (CctpRelay.iris_effect h hstep)
  | wake id => exact .single (CctpRelay.wake_effect h hstep)
  | lock id => exact .single (CctpRelay.lock_effect h hstep)
  | balance id wei => exact .single (CctpRelay.balance_effect h hstep)
  | nonceUsed id answers => exact .single (CctpRelay.nonceUsed_effect h hstep)
  | simulated id outcome => exact .single (CctpRelay.simulated_effect h hstep)
  | sent id answer => exact .single (CctpRelay.sent_effect h hstep)
  | receipt id outcome => exact .single (CctpRelay.receipt_effect h hstep)
  | found id log => exact .single (CctpRelay.found_effect h hstep)
  | leave id => exact .single (CctpRelay.leave_effect hstep)

theorem inv_of_init {opts : RelayOptions} {s : CctpRelay} (h : (cctpRelay opts).init s) : s.Inv := by
  obtain ⟨hstore, hjobs, hrunning, hqueue, hdeeds⟩ := h
  have hnone : ∀ id job, s.running.get id ≠ some job := by
    intro id job hget
    rw [hrunning] at hget
    cases hget
  have hempty : ∀ burnHash r, s.store.get burnHash ≠ some r := by
    intro burnHash r hget
    rw [hstore] at hget
    cases hget
  refine ⟨fun id job hget => absurd hget (hnone id job), fun id job hget => absurd hget (hnone id job),
    ⟨?_, fun id => ?_, fun id job hget => absurd hget (hnone id job)⟩, fun id job hget => absurd hget (hnone id job),
    fun burnHash r hget => absurd hget (hempty burnHash r), fun burnHash r hget => absurd hget (hempty burnHash r), ?_, ?_⟩
  · rw [hqueue]
    exact List.nodup_nil
  · rw [hqueue]
    constructor
    · intro hmem
      cases hmem
    · rintro ⟨job, hget, -⟩
      exact absurd hget (hnone id job)
  · rw [hdeeds]
    intro burnHash txHash t hmem
    cases hmem
  · rw [hdeeds]
    trivial

theorem inv_of_reachable {opts : RelayOptions} {s : CctpRelay} (h : Runs.Reachable (cctpRelay opts) s) : s.Inv := by
  refine h.invariant (fun s h0 => inv_of_init h0) ?_
  intro s l s' hinv _ hstep
  exact (step_effects hinv hstep).inv hinv

end Writz.Relayer.Cctp

import Writz.Relayer.Proofs.CctpJobs

/-!
# Proofs: what a step of the CCTP relay does

Every step is made of a few effects: a job is launched, goes on or leaves, a mint is broadcast, a request
starts a record over, the process ends, time passes or a nonce is spent. The invariants are then about
effects, with no entry point in sight.
-/

namespace Writz.Relayer.Cctp

open Node

/-- How the queue for the lock changes as a job goes from one stage to the next. -/
inductive Lines (queue : List Nat) (id : Nat) (stage next : Stage) : List Nat → Prop
  | keep (h : stage.locks = next.locks) (hlock : next.hasLock = true → queue.head? = some id) :
    Lines queue id stage next queue
  | join (h : stage.locks = false) (hnext : next = .queued) : Lines queue id stage next (queue ++ [id])
  | leave (h : stage.locks = true) (hhead : queue.head? = some id) (hnext : next.locks = false) :
    Lines queue id stage next queue.tail

/-- What a job may note as it goes on, a broadcast apart. -/
inductive Noted (burnHash : Text) (stage : Stage) (deeds : List Deed) : List Deed → Prop
  | none : Noted burnHash stage deeds []
  | reported : Noted burnHash stage deeds [.reported burnHash]
  | nonceRead (h : stage.hasLock = true) (nonce : Text) (used : Bool) :
    Noted burnHash stage deeds [.nonceRead nonce used]
  | receipt (txHash : Text) (outcome : ReceiptOutcome) : Noted burnHash stage deeds [.receipt txHash outcome]
  | sending (nonce : Text) (hread : lastRead nonce deeds = some false) (hreverted : AllReverted deeds burnHash) :
    Noted burnHash stage deeds [.sending burnHash nonce]

/-- The stages from the check of the daily cap to the broadcast. -/
def Stage.capped : Stage → Bool
  | .minting _ .simulating | .minting _ .sending => true
  | _ => false

/-- The day is below the cap. -/
def CctpRelay.UnderCap (opts : RelayOptions) (s : CctpRelay) : Prop :=
  s.store.countSubmittedSince (startOfUtcDay s.now) < opts.settings.dailyCap

/-- The effects that steps are made of. -/
inductive Effect (opts : RelayOptions) (s : CctpRelay) : CctpRelay → Prop
  | elapsed (ms : Nat) : Effect opts s { s with now := s.now + ms }
  | spent (nonce : Text) : Effect opts s { s with spent := nonce :: s.spent }
  | crashed : Effect opts s s.crash
  | restarted (burnHash : Text) (h : (s.store.get burnHash).filter CctpRelay.stands = none) :
    Effect opts s
      { s with store := s.store.set burnHash (CctpRelay.restarted s.now burnHash (s.store.get burnHash)) }
  | launched {burnHash : Text} {r : RelayRecord} {next : RelayRecord × Stage} {queue : List Nat}
      (hjobs : s.jobs.get burnHash = none) (hr : s.store.get burnHash = some r)
      (hnext : NextOk s.now s.spent s.deeds burnHash r next)
      (hlines : Lines s.queue s.launched .ended next.2 queue) (hunlocked : next.2.hasLock = false) :
    Effect opts s
      { s with
        store := s.store.set burnHash next.1
        running := s.running.set s.launched { burnHash, stage := next.2 }
        queue
        jobs := s.jobs.set burnHash s.launched
        launched := s.launched + 1 }
  | went {id : Nat} {burnHash : Text} {stage : Stage} {r : RelayRecord} {next : RelayRecord × Stage}
      {queue : List Nat} {deeds : List Deed} (hjob : s.running.get id = some { burnHash, stage })
      (hr : s.store.get burnHash = some r) (hnext : NextOk s.now s.spent (deeds ++ s.deeds) burnHash r next)
      (hlines : Lines s.queue id stage next.2 queue) (hnoted : Noted burnHash stage s.deeds deeds)
      (hcapped : next.2.capped = true → stage.capped = true ∨ s.UnderCap opts) :
    Effect opts s
      { s with
        store := s.store.set burnHash next.1
        running := s.running.set id { burnHash, stage := next.2 }
        queue
        deeds := deeds ++ s.deeds }
  | broadcast {id : Nat} {burnHash : Text} {signed : Signed} {r : RelayRecord} (mintHash : Text)
      (hjob : s.running.get id = some { burnHash, stage := .minting signed .sending })
      (hr : s.store.get burnHash = some r) :
    Effect opts s
      { s with
        store := s.store.set burnHash (r.submit s.now mintHash)
        running := s.running.set id { burnHash, stage := .minting signed (.mining mintHash 0) }
        deeds := .broadcast burnHash mintHash s.now :: s.deeds }
  | left {id : Nat} {burnHash : Text} (hjob : s.running.get id = some { burnHash, stage := .ended }) :
    Effect opts s { s with jobs := s.jobs.delete burnHash, running := s.running.delete id }

/-- What a step does, one effect after another. -/
abbrev Effects (opts : RelayOptions) : CctpRelay → CctpRelay → Prop := Relation.ReflTransGen (Effect opts)

/-! ## The queue for the lock -/

theorem Stage.locks_of_hasLock {stage : Stage} (h : stage.hasLock = true) : stage.locks = true := by
  cases stage <;> first | rfl | cases h

/-- The queue holds the jobs that wait for the lock, after the one that has it. -/
structure Queued (running : JsMap Nat Job) (queue : List Nat) : Prop where
  nodup : queue.Nodup
  mem : ∀ id, id ∈ queue ↔ ∃ job, running.get id = some job ∧ job.stage.locks = true
  lock : ∀ id job, running.get id = some job → job.stage.hasLock = true → queue.head? = some id

namespace Queued

variable {running : JsMap Nat Job} {queue queue' : List Nat} {id : Nat} {burnHash : Text} {stage next : Stage}

theorem mem_iff (h : Queued running queue) (hjob : running.get id = some { burnHash, stage }) :
    id ∈ queue ↔ stage.locks = true := by
  rw [h.mem id]
  constructor
  · rintro ⟨job, hget, hlocks⟩
    obtain rfl : job = { burnHash, stage } := Option.some.inj (hget.symm.trans hjob)
    exact hlocks
  · intro hlocks
    exact ⟨_, hjob, hlocks⟩

theorem not_mem (h : Queued running queue) (hnone : running.get id = none) : id ∉ queue := by
  intro hmem
  obtain ⟨job, hget, -⟩ := (h.mem id).mp hmem
  rw [hnone] at hget
  cases hget

/-- Every other job is where it was. -/
theorem set_of_ne (h : Queued running queue) (hqueue : ∀ id', id' ≠ id → (id' ∈ queue' ↔ id' ∈ queue))
    (hid : id ∈ queue' ↔ next.locks = true) (id' : Nat) :
    id' ∈ queue' ↔ ∃ job, (running.set id { burnHash, stage := next }).get id' = some job ∧
      job.stage.locks = true := by
  by_cases heq : id = id'
  · subst heq
    rw [hid, JsMap.get_set, if_pos rfl]
    constructor
    · intro hlocks
      exact ⟨_, rfl, hlocks⟩
    · rintro ⟨job, hjob, hlocks⟩
      cases hjob
      exact hlocks
  · rw [hqueue id' (Ne.symm heq), h.mem id', JsMap.get_set, if_neg heq]

theorem step (h : Queued running queue) (hid : id ∈ queue ↔ stage.locks = true)
    (hlines : Lines queue id stage next queue') :
    Queued (running.set id { burnHash, stage := next }) queue' := by
  have hlock : ∀ id' job, (running.set id { burnHash, stage := next }).get id' = some job →
      job.stage.hasLock = true → id = id' ∧ next.hasLock = true ∨ id ≠ id' ∧ queue.head? = some id' := by
    intro id' job hjob hhas
    rw [JsMap.get_set] at hjob
    split_ifs at hjob with heq
    · cases hjob
      exact .inl ⟨heq, hhas⟩
    · exact .inr ⟨heq, h.lock id' job hjob hhas⟩
  cases hlines with
  | keep hlocks hnext =>
    refine ⟨h.nodup, h.set_of_ne (fun _ _ => Iff.rfl) (by rw [hid, hlocks]), fun id' job hjob hhas => ?_⟩
    rcases hlock id' job hjob hhas with ⟨rfl, hhas⟩ | ⟨-, hhead⟩
    · exact hnext hhas
    · exact hhead
  | join hlocks hnext =>
    have hnot : id ∉ queue := by
      rw [hid, hlocks]
      exact Bool.false_ne_true
    refine ⟨?_, h.set_of_ne (fun id' hne => ?_) ?_, fun id' job hjob hhas => ?_⟩
    · rw [List.nodup_append]
      refine ⟨h.nodup, List.nodup_singleton _, ?_⟩
      rintro x hx _ hy rfl
      rw [List.mem_singleton.mp hy] at hx
      exact hnot hx
    · simp [hne]
    · simp [hnext, Stage.locks]
    · rcases hlock id' job hjob hhas with ⟨-, hhas⟩ | ⟨-, hhead⟩
      · rw [hnext] at hhas
        cases hhas
      · rw [List.head?_append, hhead]
        rfl
  | leave hlocks hhead hnext =>
    obtain ⟨rest, rfl⟩ : ∃ rest, queue = id :: rest := List.head?_eq_some_iff.mp hhead
    obtain ⟨hnot, hnodup⟩ := List.nodup_cons.mp h.nodup
    refine ⟨hnodup, h.set_of_ne (fun id' hne => ?_) ?_, fun id' job hjob hhas => ?_⟩
    · simp [hne]
    · rw [hnext]
      simpa using hnot
    · rcases hlock id' job hjob hhas with ⟨-, hhas⟩ | ⟨hne, hhead'⟩
      · rw [Stage.locks_of_hasLock hhas] at hnext
        cases hnext
      · exact absurd (Option.some.inj (hhead.symm.trans hhead')) hne

theorem delete (h : Queued running queue) (hid : id ∉ queue) : Queued (running.delete id) queue := by
  refine ⟨h.nodup, fun id' => ?_, fun id' job hjob hhas => ?_⟩
  · rw [h.mem id', JsMap.get_delete]
    by_cases heq : id = id'
    · subst heq
      have hnone : ¬ ∃ job, running.get id = some job ∧ job.stage.locks = true := fun hex => hid ((h.mem id).mpr hex)
      simp only [if_true, hnone, false_iff]
      rintro ⟨job, hjob, -⟩
      cases hjob
    · rw [if_neg heq]
  · rw [JsMap.get_delete] at hjob
    split_ifs at hjob
    exact h.lock id' job hjob hhas

end Queued

/-! ## The deeds -/

/-- A sent mint was not known to be redundant. -/
def Sound : List Deed → Prop
  | [] => True
  | .sending burnHash nonce :: deeds =>
    (lastRead nonce deeds = some false ∧ AllReverted deeds burnHash) ∧ Sound deeds
  | _ :: deeds => Sound deeds

namespace Noted

variable {burnHash burnHash' : Text} {stage : Stage} {deeds new : List Deed}

theorem not_broadcast (h : Noted burnHash stage deeds new) {txHash : Text} {t : Nat} :
    .broadcast burnHash' txHash t ∉ new := by
  cases h <;> simp

theorem broadcast_mem (h : Noted burnHash stage deeds new) {txHash : Text} {t : Nat} :
    .broadcast burnHash' txHash t ∈ new ++ deeds ↔ .broadcast burnHash' txHash t ∈ deeds := by
  rw [List.mem_append]
  exact or_iff_right h.not_broadcast

theorem allReverted (h : Noted burnHash stage deeds new) (hreverted : AllReverted deeds burnHash') :
    AllReverted (new ++ deeds) burnHash' := by
  intro txHash t hmem
  exact List.mem_append_right _ (hreverted txHash t (h.broadcast_mem.mp hmem))

theorem accounted (h : Noted burnHash stage deeds new) {r : RelayRecord} (haccounted : Accounted deeds burnHash' r) :
    Accounted (new ++ deeds) burnHash' r := by
  intro txHash t hmem
  exact (haccounted txHash t (h.broadcast_mem.mp hmem)).imp_left (List.mem_append_right _)

/-- A nonce is read under the lock only. -/
theorem lastRead_eq (h : Noted burnHash stage deeds new) (hlock : stage.hasLock = false) (nonce : Text) :
    lastRead nonce (new ++ deeds) = lastRead nonce deeds := by
  cases h with
  | nonceRead h =>
    rw [hlock] at h
    cases h
  | _ => rfl

theorem sound (h : Noted burnHash stage deeds new) (hsound : Sound deeds) : Sound (new ++ deeds) := by
  cases h with
  | sending nonce hread hreverted => exact ⟨⟨hread, hreverted⟩, hsound⟩
  | _ => exact hsound

end Noted

theorem Accounted.writes {deeds : List Deed} {burnHash : Text} {t : Nat} {r r' : RelayRecord}
    (h : Accounted deeds burnHash r) (hwrites : r.Writes t r') (hr : r.Ok) : Accounted deeds burnHash r' := by
  intro txHash t' hmem
  rcases h txHash t' hmem with hreverted | harrived | hkept
  · exact .inl hreverted
  · have hfinal := hwrites.final hr (isFinal_of_arrived harrived)
    exact .inr (.inl (hfinal.1.trans harrived))
  · rcases (hwrites.mint hr).2 with harrived | ⟨hhash, hby⟩
    · exact .inr (.inl harrived)
    · exact .inr (.inr ⟨hhash.trans hkept.1, hby.trans hkept.2⟩)

/-! ## The invariant of the jobs -/

/-- The jobs, the lock, the records and the deeds fit together. -/
structure CctpRelay.Inv (s : CctpRelay) : Prop where
  /-- A job that runs is the one of its burn. -/
  jobs : ∀ id job, s.running.get id = some job → s.jobs.get job.burnHash = some id
  launched : ∀ id job, s.running.get id = some job → id < s.launched
  queued : Queued s.running s.queue
  stage : ∀ id job, s.running.get id = some job → ∃ r, s.store.get job.burnHash = some r ∧
    StageOk s.spent s.deeds job.burnHash r job.stage
  record : ∀ burnHash r, s.store.get burnHash = some r → r.Ok
  accounted : ∀ burnHash r, s.store.get burnHash = some r → Accounted s.deeds burnHash r
  known : ∀ burnHash txHash t, .broadcast burnHash txHash t ∈ s.deeds → (s.store.get burnHash).isSome = true
  sound : Sound s.deeds

namespace CctpRelay.Inv

variable {s : CctpRelay} {id : Nat} {burnHash : Text} {stage : Stage} {r : RelayRecord}

theorem stageOk (h : s.Inv) (hjob : s.running.get id = some { burnHash, stage })
    (hr : s.store.get burnHash = some r) : StageOk s.spent s.deeds burnHash r stage := by
  obtain ⟨r', hr', hstage⟩ := h.stage id _ hjob
  obtain rfl : r = r' := Option.some.inj (hr.symm.trans hr')
  exact hstage

/-- Of two jobs that run, the burns differ. -/
theorem burn_ne (h : s.Inv) {id' : Nat} {job job' : Job} (hjob : s.running.get id = some job)
    (hjob' : s.running.get id' = some job') (hne : id ≠ id') : job.burnHash ≠ job'.burnHash := by
  intro heq
  have hget := h.jobs id job hjob
  rw [heq, h.jobs id' job' hjob'] at hget
  exact hne (Option.some.inj hget).symm

theorem fresh (h : s.Inv) : s.running.get s.launched = none := by
  cases hget : s.running.get s.launched with
  | none => rfl
  | some job => exact absurd (h.launched _ _ hget) (lt_irrefl _)

/-- The job of a record that is started over has ended. -/
theorem ended_of_not_stands (h : s.Inv) (hjob : s.running.get id = some { burnHash, stage })
    (hr : s.store.get burnHash = some r) (hstands : CctpRelay.stands r = false) : stage = .ended := by
  have hstage := h.stageOk hjob hr
  obtain ⟨hretrying, hfailed⟩ : isRetrying r = false ∧ r.state = .failed := by
    simp only [CctpRelay.stands, Bool.or_eq_false_iff, Bool.not_eq_false', Bool.and_eq_true, decide_eq_true_eq]
      at hstands
    exact ⟨hstands.1, hstands.2.1⟩
  have hsettled : isSettled r = true := by simp [isSettled, hfailed]
  have hnot : ∀ {signed : Signed}, ¬ Minting signed r := by
    intro signed hminting
    rw [hminting.unsettled] at hsettled
    cases hsettled
  cases stage with
  | ended => rfl
  | paying was =>
    rw [hstage.2] at hretrying
    cases hretrying
  | looking was =>
    have harrived := hstage.2
    rw [hfailed] at harrived
    cases harrived
  | asking begun record => rcases hstage.2 with hstate | hstate <;> rw [hfailed] at hstate <;> cases hstate
  | sleeping begun record => rcases hstage.2 with hstate | hstate <;> rw [hfailed] at hstate <;> cases hstate
  | queued =>
    rw [hstage.1] at hsettled
    cases hsettled
  | minting signed stage =>
    cases stage with
    | warning =>
      have harrived : r.state = .arrived := hstage
      rw [hfailed] at harrived
      cases harrived
    | earlier mintHash waits => exact absurd hstage.1 hnot
    | checking => exact absurd hstage.1 hnot
    | simulating => exact absurd hstage.1 hnot
    | sending => exact absurd hstage.1 hnot
    | _ => exact absurd hstage hnot

/-- The records with one of them changed. -/
theorem record_set (h : s.Inv) {r' : RelayRecord} (hr' : r'.Ok) (burnHash' : Text) (r : RelayRecord)
    (hget : (s.store.set burnHash r').get burnHash' = some r) : r.Ok := by
  rw [JsMap.get_set] at hget
  split_ifs at hget
  · cases hget
    exact hr'
  · exact h.record burnHash' r hget

theorem accounted_set (h : s.Inv) {deeds : List Deed} {r' : RelayRecord}
    (hdeeds : ∀ burnHash' r, burnHash ≠ burnHash' → Accounted s.deeds burnHash' r → Accounted deeds burnHash' r)
    (hr' : Accounted deeds burnHash r') (burnHash' : Text) (r : RelayRecord)
    (hget : (s.store.set burnHash r').get burnHash' = some r) : Accounted deeds burnHash' r := by
  rw [JsMap.get_set] at hget
  split_ifs at hget with heq
  · cases hget
    rw [← heq]
    exact hr'
  · exact hdeeds burnHash' r heq (h.accounted burnHash' r hget)

theorem isSome_set (r' : RelayRecord) {burnHash' : Text} (h : (s.store.get burnHash').isSome = true) :
    ((s.store.set burnHash r').get burnHash').isSome = true := by
  rw [JsMap.get_set]
  split_ifs
  · rfl
  · exact h

/-- A job that goes on, with what it notes; the others stay where they are. -/
theorem stage_set (h : s.Inv) (next : RelayRecord × Stage) (hjob : (∃ stage, s.running.get id = some { burnHash, stage }) ∨ s.running.get id = none)
    (hfree : s.running.get id = none → s.jobs.get burnHash = none) {deeds : List Deed}
    (hnext : StageOk s.spent deeds burnHash next.1 next.2)
    (hothers : ∀ id' job r, id ≠ id' → job.burnHash ≠ burnHash → s.running.get id' = some job →
      StageOk s.spent s.deeds job.burnHash r job.stage → StageOk s.spent deeds job.burnHash r job.stage)
    (id' : Nat) (job : Job) (hget : (s.running.set id { burnHash, stage := next.2 }).get id' = some job) :
    ∃ r, (s.store.set burnHash next.1).get job.burnHash = some r ∧ StageOk s.spent deeds job.burnHash r job.stage := by
  rw [JsMap.get_set] at hget
  split_ifs at hget with heq
  · cases hget
    exact ⟨next.1, by rw [JsMap.get_set, if_pos rfl], hnext⟩
  · have hne : job.burnHash ≠ burnHash := by
      rcases hjob with ⟨stage, hjob⟩ | hnone
      · exact fun hburn => h.burn_ne hjob hget heq hburn.symm
      · intro hburn
        have hhas := h.jobs id' job hget
        rw [hburn, hfree hnone] at hhas
        cases hhas
    obtain ⟨r, hr, hstage⟩ := h.stage id' job hget
    exact ⟨r, by rw [JsMap.get_set, if_neg (Ne.symm hne), hr], hothers id' job r heq hne hget hstage⟩

theorem went (h : s.Inv) {next : RelayRecord × Stage} {queue : List Nat}
    {deeds : List Deed} (hjob : s.running.get id = some { burnHash, stage }) (hr : s.store.get burnHash = some r)
    (hnext : NextOk s.now s.spent (deeds ++ s.deeds) burnHash r next)
    (hlines : Lines s.queue id stage next.2 queue) (hnoted : Noted burnHash stage s.deeds deeds) :
    Inv { s with
      store := s.store.set burnHash next.1
      running := s.running.set id { burnHash, stage := next.2 }
      queue
      deeds := deeds ++ s.deeds } := by
  have hrecord := h.record burnHash r hr
  have hothers : ∀ id' job r, id ≠ id' → job.burnHash ≠ burnHash → s.running.get id' = some job →
      StageOk s.spent s.deeds job.burnHash r job.stage →
        StageOk s.spent (deeds ++ s.deeds) job.burnHash r job.stage := by
    intro id' job r hne _ hget hstage
    refine hstage.mono (fun _ hmem => hmem) hnoted.allReverted fun hlock => ?_
    -- The lock is the other job's, so this one has noted no nonce.
    have hunlocked : stage.hasLock = false := by
      cases hhas : stage.hasLock with
      | false => rfl
      | true =>
        have hhead := h.queued.lock id _ hjob hhas
        rw [h.queued.lock id' job hget hlock] at hhead
        exact absurd (Option.some.inj hhead).symm hne
    exact hnoted.lastRead_eq hunlocked
  refine ⟨fun id' job hget => ?_, fun id' job hget => ?_, ?_, ?_, ?_, ?_, fun burnHash' txHash t hmem => ?_, ?_⟩
  · change (s.running.set id { burnHash, stage := next.2 }).get id' = some job at hget
    rw [JsMap.get_set] at hget
    split_ifs at hget with heq
    · cases hget
      have hburn := h.jobs id _ hjob
      rw [← heq]
      exact hburn
    · exact h.jobs id' job hget
  · change (s.running.set id { burnHash, stage := next.2 }).get id' = some job at hget
    rw [JsMap.get_set] at hget
    split_ifs at hget with heq
    · rw [← heq]
      exact h.launched id _ hjob
    · exact h.launched id' job hget
  · exact h.queued.step (h.queued.mem_iff hjob) hlines
  · refine h.stage_set next (.inl ⟨stage, hjob⟩) (fun hnone => ?_) hnext.stage hothers
    rw [hjob] at hnone
    cases hnone
  · exact h.record_set (hnext.write.ok hrecord)
  · refine h.accounted_set (fun _ _ _ => hnoted.accounted) ?_
    exact (hnoted.accounted (h.accounted burnHash r hr)).writes hnext.write hrecord
  · exact isSome_set _ (h.known burnHash' txHash t (hnoted.broadcast_mem.mp hmem))
  · exact hnoted.sound h.sound

theorem launch (h : s.Inv) {next : RelayRecord × Stage} {queue : List Nat} (hjobs : s.jobs.get burnHash = none)
    (hr : s.store.get burnHash = some r) (hnext : NextOk s.now s.spent s.deeds burnHash r next)
    (hlines : Lines s.queue s.launched .ended next.2 queue) :
    Inv { s with
      store := s.store.set burnHash next.1
      running := s.running.set s.launched { burnHash, stage := next.2 }
      queue
      jobs := s.jobs.set burnHash s.launched
      launched := s.launched + 1 } := by
  have hfresh := h.fresh
  have hrecord := h.record burnHash r hr
  refine ⟨fun id' job hget => ?_, fun id' job hget => ?_, ?_, ?_, ?_, ?_, fun burnHash' txHash t hmem => ?_, h.sound⟩
  · change (s.running.set s.launched { burnHash, stage := next.2 }).get id' = some job at hget
    change (s.jobs.set burnHash s.launched).get job.burnHash = some id'
    rw [JsMap.get_set] at hget ⊢
    split_ifs at hget with heq
    · cases hget
      rw [if_pos rfl, heq]
    · have hhas := h.jobs id' job hget
      have hne : burnHash ≠ job.burnHash := by
        intro hburn
        rw [← hburn, hjobs] at hhas
        cases hhas
      rw [if_neg hne, hhas]
  · change (s.running.set s.launched { burnHash, stage := next.2 }).get id' = some job at hget
    rw [JsMap.get_set] at hget
    split_ifs at hget with heq
    · rw [← heq]
      exact Nat.lt_succ_self _
    · exact Nat.lt_succ_of_lt (h.launched id' job hget)
  · refine h.queued.step ?_ hlines
    simp [h.queued.not_mem hfresh, Stage.locks]
  · refine h.stage_set next (.inr hfresh) (fun _ => hjobs) hnext.stage ?_
    intro id' job r _ _ _ hstage
    exact hstage
  · exact h.record_set (hnext.write.ok hrecord)
  · exact h.accounted_set (fun _ _ _ haccounted => haccounted) ((h.accounted burnHash r hr).writes hnext.write hrecord)
  · exact isSome_set _ (h.known burnHash' txHash t hmem)

/-- A request starts a record over that no job works on. -/
theorem restart (h : s.Inv) (hstands : (s.store.get burnHash).filter CctpRelay.stands = none) :
    Inv { s with store := s.store.set burnHash (CctpRelay.restarted s.now burnHash (s.store.get burnHash)) } := by
  have hstand : ∀ r, s.store.get burnHash = some r → CctpRelay.stands r = false := by
    intro r hr
    rw [hr, Option.filter_eq_none_iff] at hstands
    simpa using hstands r rfl
  have hrestarted : (CctpRelay.restarted s.now burnHash (s.store.get burnHash)).Ok ∧
      Accounted s.deeds burnHash (CctpRelay.restarted s.now burnHash (s.store.get burnHash)) := by
    cases hr : s.store.get burnHash with
    | none =>
      refine ⟨RelayRecord.new_ok burnHash s.now, fun txHash t hmem => ?_⟩
      have hknown := h.known burnHash txHash t hmem
      rw [hr] at hknown
      cases hknown
    | some r =>
      have hnot := hstand r hr
      simp only [CctpRelay.stands, Bool.or_eq_false_iff, Bool.not_eq_false', Bool.and_eq_true, decide_eq_true_eq]
        at hnot
      have hwrite : r.Write s.now (r.startOver s.now none none) := .started hnot.2.1 (.inr hnot.2.2) none none
      exact ⟨hwrite.ok (h.record burnHash r hr), (h.accounted burnHash r hr).writes (.single hwrite) (h.record burnHash r hr)⟩
  refine ⟨h.jobs, h.launched, h.queued, fun id job hjob => ?_, h.record_set hrestarted.1,
    h.accounted_set (fun _ _ _ haccounted => haccounted) hrestarted.2,
    fun burnHash' txHash t hmem => isSome_set _ (h.known burnHash' txHash t hmem), h.sound⟩
  obtain ⟨r, hr, hstage⟩ := h.stage id job hjob
  change ∃ r, (s.store.set burnHash _).get job.burnHash = some r ∧ _
  rw [JsMap.get_set]
  by_cases heq : burnHash = job.burnHash
  · have hended : job.stage = .ended := h.ended_of_not_stands hjob hr (hstand r (by rw [heq, hr]))
    rw [if_pos heq, hended]
    exact ⟨_, rfl, trivial⟩
  · rw [if_neg heq]
    exact ⟨r, hr, hstage⟩

/-- A broadcast is on its record, and every earlier one of the burn is known to have reverted. -/
theorem broadcast (h : s.Inv) {signed : Signed} (mintHash : Text)
    (hjob : s.running.get id = some { burnHash, stage := .minting signed .sending })
    (hr : s.store.get burnHash = some r) :
    Inv { s with
      store := s.store.set burnHash (r.submit s.now mintHash)
      running := s.running.set id { burnHash, stage := .minting signed (.mining mintHash 0) }
      deeds := .broadcast burnHash mintHash s.now :: s.deeds } := by
  have hstage : Minting signed r ∧ AllReverted s.deeds burnHash := h.stageOk hjob hr
  obtain ⟨hminting, hreverted⟩ := hstage
  have hrecord := h.record burnHash r hr
  have hlines : Lines s.queue id (.minting signed .sending) (.minting signed (.mining mintHash 0)) s.queue :=
    .keep rfl fun _ => h.queued.lock id _ hjob rfl
  have hmem : ∀ burnHash' txHash t, burnHash ≠ burnHash' →
      .broadcast burnHash' txHash t ∈ Deed.broadcast burnHash mintHash s.now :: s.deeds →
      .broadcast burnHash' txHash t ∈ s.deeds := by
    intro burnHash' txHash t hne hmem
    rcases List.mem_cons.mp hmem with heq | hmem
    · cases heq
      exact absurd rfl hne
    · exact hmem
  refine ⟨fun id' job hget => ?_, fun id' job hget => ?_, ?_, ?_, ?_, ?_, fun burnHash' txHash t hin => ?_, h.sound⟩
  · change (s.running.set id _).get id' = some job at hget
    rw [JsMap.get_set] at hget
    split_ifs at hget with heq
    · cases hget
      have hburn := h.jobs id _ hjob
      rw [← heq]
      exact hburn
    · exact h.jobs id' job hget
  · change (s.running.set id _).get id' = some job at hget
    rw [JsMap.get_set] at hget
    split_ifs at hget with heq
    · rw [← heq]
      exact h.launched id _ hjob
    · exact h.launched id' job hget
  · exact h.queued.step (h.queued.mem_iff hjob) hlines
  · refine h.stage_set (r.submit s.now mintHash, .minting signed (.mining mintHash 0)) (.inl ⟨_, hjob⟩)
      (fun hnone => ?_) ⟨by rfl, hminting.nonce, hminting.signed⟩ ?_
    · rw [hjob] at hnone
      cases hnone
    · intro id' job r' _ hne _ hstage
      refine hstage.mono (fun _ hmem => hmem) (fun hall txHash t hin => ?_) fun _ _ => rfl
      exact List.mem_cons_of_mem _ (hall txHash t (hmem _ txHash t (Ne.symm hne) hin))
  · exact h.record_set (submit_ok hrecord hminting.unsettled hminting.signed mintHash)
  · refine h.accounted_set (fun burnHash' r' hne haccounted txHash t hin => ?_) fun txHash t hin => ?_
    · exact (haccounted txHash t (hmem _ txHash t hne hin)).imp_left (List.mem_cons_of_mem _)
    · rcases List.mem_cons.mp hin with heq | hin
      · cases heq
        exact .inr (.inr ⟨rfl, rfl⟩)
      · exact .inl (List.mem_cons_of_mem _ (hreverted txHash t hin))
  · by_cases heq : burnHash = burnHash'
    · change ((s.store.set burnHash _).get burnHash').isSome = true
      rw [JsMap.get_set, if_pos heq]
      rfl
    · exact isSome_set _ (h.known burnHash' txHash t (hmem _ txHash t heq hin))

theorem crash (h : s.Inv) : Inv s.crash := by
  have hnone : ∀ id job, s.crash.running.get id ≠ some job := by
    intro id job hget
    cases hget
  refine ⟨fun id job hget => absurd hget (hnone id job), fun id job hget => absurd hget (hnone id job),
    ⟨List.nodup_nil, fun id => ?_, fun id job hget => absurd hget (hnone id job)⟩,
    fun id job hget => absurd hget (hnone id job), h.record, h.accounted, h.known, h.sound⟩
  constructor
  · intro hmem
    cases hmem
  · rintro ⟨job, hget, -⟩
    exact absurd hget (hnone id job)

theorem left (h : s.Inv) (hjob : s.running.get id = some { burnHash, stage := .ended }) :
    Inv { s with jobs := s.jobs.delete burnHash, running := s.running.delete id } := by
  have hother : ∀ id' job, (s.running.delete id).get id' = some job → id ≠ id' ∧ s.running.get id' = some job := by
    intro id' job hget
    rw [JsMap.get_delete] at hget
    split_ifs at hget with hne
    exact ⟨hne, hget⟩
  have hended : id ∉ s.queue := by
    rw [h.queued.mem_iff hjob]
    exact Bool.false_ne_true
  refine ⟨fun id' job hget => ?_, fun id' job hget => ?_, h.queued.delete hended, fun id' job hget => ?_, h.record,
    h.accounted, h.known, h.sound⟩
  · obtain ⟨hne, hget⟩ := hother id' job hget
    change (s.jobs.delete burnHash).get job.burnHash = some id'
    rw [JsMap.get_delete, if_neg (h.burn_ne hjob hget hne)]
    exact h.jobs id' job hget
  · exact h.launched id' job (hother id' job hget).2
  · exact h.stage id' job (hother id' job hget).2

end CctpRelay.Inv

/-- Every effect keeps the invariant. -/
theorem Effect.inv {opts : RelayOptions} {s s' : CctpRelay} (h : Effect opts s s') (hinv : s.Inv) : s'.Inv := by
  cases h with
  | elapsed ms =>
    exact ⟨hinv.jobs, hinv.launched, hinv.queued, hinv.stage, hinv.record, hinv.accounted, hinv.known, hinv.sound⟩
  | spent nonce =>
    refine ⟨hinv.jobs, hinv.launched, hinv.queued, fun id job hjob => ?_, hinv.record, hinv.accounted, hinv.known,
      hinv.sound⟩
    obtain ⟨r, hr, hstage⟩ := hinv.stage id job hjob
    exact ⟨r, hr, hstage.mono (List.subset_cons_self _ _) (fun hall => hall) fun _ _ => rfl⟩
  | crashed => exact hinv.crash
  | restarted burnHash h => exact hinv.restart h
  | launched hjobs hr hnext hlines hunlocked => exact hinv.launch hjobs hr hnext hlines
  | went hjob hr hnext hlines hnoted hcapped => exact hinv.went hjob hr hnext hlines hnoted
  | broadcast mintHash hjob hr => exact hinv.broadcast mintHash hjob hr
  | left hjob => exact hinv.left hjob

theorem Effects.inv {opts : RelayOptions} {s s' : CctpRelay} (h : Effects opts s s') (hinv : s.Inv) : s'.Inv := by
  induction h with
  | refl => exact hinv
  | tail _ heffect ih => exact heffect.inv ih

end Writz.Relayer.Cctp

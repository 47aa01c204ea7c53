import Mathlib.Data.List.Dedup
import Writz.Relayer.Proofs.CctpSteps

/-!
# Proofs: what the CCTP relay keeps

No job sends a mint that the relay can know to be redundant, no UTC day has more burns broadcast than the
cap, and a record that Circle has signed stays signed until its transfer has arrived or is refused.
-/

namespace Writz.Relayer.Cctp

open Node

/-! ## A transfer -/

namespace Demo

def options : RelayOptions where
  address := []
  settings := { confirmTimeoutMs := 60000, dailyCap := 1, maxOpen := 1 }

def relay : CctpRelay where
  now := 0
  store := []
  jobs := []
  running := []
  launched := 0
  queue := []
  spent := []
  deeds := []

def burn : Text := List.replicate 64 'a'

def word (byte : String) : Text := List.replicate 62 '0' ++ byte.toList

/-- One base unit of USDC, for an account of Base Sepolia. -/
def message : Text :=
  "000000010000001b00000006".toList ++ word "07" ++ word "00"
    ++ (List.replicate 24 '0' ++ "8fe6b999dc680ccfdd5bf7eb0974218be2542daa".toList) ++ word "00"
    ++ "000007d0000007d000000001".toList ++ word "00" ++ word "01" ++ word "01" ++ word "00" ++ word "00" ++ word "00"
    ++ word "00"

/-- A request, and what Circle signs. -/
def confirm : List RelayLabel :=
  [.request burn, .iris 0 (some (some { status := "complete".toList, message, attestation := ['1'] }))]

/-- The mint, up to its broadcast. -/
def send : List RelayLabel := [.lock 0, .nonceUsed 0 true, .simulated 0 (some .ok), .sent 0 (.ok ['2'])]

theorem relay_init : (cctpRelay options).init relay := ⟨rfl, rfl, rfl, rfl, rfl⟩

end Demo

/-! ## The records -/

/-- How an effect changes the record of a burn. -/
inductive RelayRecord.Change (t : Nat) (r r' : RelayRecord) : Prop
  | writes (h : r.Writes t r')
  | submitted (hunsettled : isSettled r = false) (hsigned : r.attestation.isSome = true) (mintHash : Text)
    (h : r' = r.submit t mintHash)

theorem RelayRecord.Change.refl (t : Nat) (r : RelayRecord) : r.Change t r := .writes .refl

theorem RelayRecord.Change.ok {t : Nat} {r r' : RelayRecord} (h : r.Change t r') (hr : r.Ok) : r'.Ok := by
  cases h with
  | writes h => exact h.ok hr
  | submitted hunsettled hsigned mintHash h =>
    rw [h]
    exact submit_ok hr hunsettled hsigned mintHash

/-- A final record stays in its state. -/
theorem RelayRecord.Change.final {t : Nat} {r r' : RelayRecord} (h : r.Change t r') (hr : r.Ok)
    (hfinal : r.isFinal = true) : r'.state = r.state ∧ r'.isFinal = true := by
  cases h with
  | writes h => exact h.final hr hfinal
  | submitted hunsettled =>
    rw [isFinal_eq_false hunsettled] at hfinal
    cases hfinal

/-- What Circle has signed stays. -/
theorem RelayRecord.Change.signed {t : Nat} {r r' : RelayRecord} (h : r.Change t r') (hr : r.Ok)
    (hsigned : r.attestation.isSome = true) :
    r'.attestation = r.attestation ∧ r'.nonce = r.nonce ∧ r'.message = r.message := by
  cases h with
  | writes h => exact h.signed hr hsigned
  | submitted _ _ mintHash h =>
    rw [h]
    exact ⟨rfl, rfl, rfl⟩

/-- The record of a burn, where another one may be written. -/
theorem change_set {store : RelayStore} {burnHash burnHash' : Text} {t : Nat} {r r₁ r' : RelayRecord}
    (hr : store.get burnHash = some r) (hr₁ : store.get burnHash' = some r₁) (hchange : r₁.Change t r') :
    ∃ r₂, (store.set burnHash' r').get burnHash = some r₂ ∧ r.Change t r₂ := by
  rw [JsMap.get_set]
  by_cases heq : burnHash' = burnHash
  · rw [if_pos heq]
    rw [heq, hr] at hr₁
    cases hr₁
    exact ⟨r', rfl, hchange⟩
  · rw [if_neg heq]
    exact ⟨r, hr, .refl t r⟩

theorem restarted_writes {t : Nat} {burnHash : Text} {r : RelayRecord} (hstands : CctpRelay.stands r = false) :
    r.Writes t (CctpRelay.restarted t burnHash (some r)) := by
  simp only [CctpRelay.stands, Bool.or_eq_false_iff, Bool.not_eq_false', Bool.and_eq_true, decide_eq_true_eq]
    at hstands
  exact .single (.started hstands.2.1 (.inr hstands.2.2) none none)

/-- An effect drops no record. -/
theorem Effect.record {opts : RelayOptions} {s s' : CctpRelay} (h : Effect opts s s') (hinv : s.Inv)
    {burnHash : Text} {r : RelayRecord} (hr : s.store.get burnHash = some r) :
    ∃ r', s'.store.get burnHash = some r' ∧ r.Change s.now r' := by
  cases h with
  | restarted burnHash' hstands =>
    by_cases heq : burnHash' = burnHash
    · subst heq
      rw [hr, Option.filter_eq_none_iff] at hstands
      refine ⟨_, by rw [JsMap.get_set, if_pos rfl], .writes ?_⟩
      rw [hr]
      exact restarted_writes (by simpa using hstands r rfl)
    · exact ⟨r, by rw [JsMap.get_set, if_neg heq, hr], .refl _ _⟩
  | launched hjobs hr₁ hnext hlines hunlocked => exact change_set hr hr₁ (.writes hnext.write)
  | went hjob hr₁ hnext hlines hnoted hcapped => exact change_set hr hr₁ (.writes hnext.write)
  | broadcast mintHash hjob hr₁ =>
    have hstage : Minting _ _ ∧ _ := hinv.stageOk hjob hr₁
    exact change_set hr hr₁ (.submitted hstage.1.unsettled hstage.1.signed mintHash rfl)
  | _ => exact ⟨r, hr, .refl _ _⟩

/-- What goes on from a state with the invariant is made of effects. -/
theorem effects_of_after {opts : RelayOptions} {s s' : CctpRelay} (hinv : s.Inv)
    (h : Runs.Reachable ((cctpRelay opts).after s) s') : Effects opts s s' := by
  have hboth : Effects opts s s' ∧ s'.Inv := by
    refine h.invariant (I := fun s' => Effects opts s s' ∧ s'.Inv) (fun s₀ h0 => ?_) fun s₁ label s₂ hinv₁ _ hstep => ?_
    · have heq : s₀ = s := h0
      rw [heq]
      exact ⟨.refl, hinv⟩
    · have heffects := step_effects hinv₁.2 hstep
      exact ⟨hinv₁.1.trans heffects, heffects.inv hinv₁.2⟩
  exact hboth.1

/-- What holds of a record, and stays with every change, holds of it from then on. -/
theorem Effects.record {opts : RelayOptions} {s s' : CctpRelay} (h : Effects opts s s') (hinv : s.Inv)
    {burnHash : Text} {r : RelayRecord} (hr : s.store.get burnHash = some r) {P : RelayRecord → Prop} (hP : P r)
    (hchange : ∀ t r r', r.Ok → P r → r.Change t r' → P r') :
    ∃ r', s'.store.get burnHash = some r' ∧ r'.Ok ∧ P r' := by
  induction h with
  | refl => exact ⟨r, hr, hinv.record burnHash r hr, hP⟩
  | tail heffects heffect ih =>
    obtain ⟨r₁, hr₁, hok, hP₁⟩ := ih
    obtain ⟨r₂, hr₂, hchanged⟩ := heffect.record (Effects.inv heffects hinv) hr₁
    exact ⟨r₂, hr₂, hchanged.ok hok, hchange _ _ _ hok hP₁ hchanged⟩

/-- What the API answers for a record that Circle has signed. -/
theorem kind_of_signed {r : RelayRecord} (hr : r.Ok) (hsigned : r.attestation.isSome = true) :
    (toRelayView r).kind = .confirmed ∨ (toRelayView r).kind = .arrived ∨ (toRelayView r).kind = .failed := by
  have hnot : ¬ (r.state = .sent ∨ r.state = .confirming) := by
    intro h
    rw [hr.unsigned h] at hsigned
    cases hsigned
  have hkind : (toRelayView r).kind = if isRetrying r then .confirmed else r.state.kind := by
    simp only [toRelayView, hsigned, if_true]
  rw [hkind]
  by_cases hretrying : isRetrying r = true
  · rw [if_pos hretrying]
    exact .inl rfl
  · rw [if_neg hretrying]
    cases hstate : r.state with
    | sent => exact absurd (.inl hstate) hnot
    | confirming => exact absurd (.inr hstate) hnot
    | confirmed => exact .inl rfl
    | submitted => exact .inl rfl
    | arrived => exact .inr (.inl rfl)
    | failed => exact .inr (.inr rfl)

/-- Once Circle has signed a burn, its record keeps what was signed in everything that follows, is never
given up as unseen, is answered as confirmed, arrived or failed, and can be tried again unless it has
arrived or is refused for good; and then it stays so. -/
theorem signed_for_good {opts : RelayOptions} {s s' : CctpRelay} {burnHash : Text} {r : RelayRecord}
    (h : Runs.Reachable (cctpRelay opts) s) (hr : s.store.get burnHash = some r)
    (hsigned : r.attestation.isSome = true) (h' : Runs.Reachable ((cctpRelay opts).after s) s') :
    ∃ r', s'.store.get burnHash = some r' ∧
      (r'.attestation = r.attestation ∧ r'.nonce = r.nonce ∧ r'.message = r.message) ∧
      r'.failureCode ≠ some .unseen ∧
      ((toRelayView r').kind = .confirmed ∨ (toRelayView r').kind = .arrived ∨ (toRelayView r').kind = .failed) ∧
      (r'.state = .failed → r'.retryable = true ∨ r'.isFinal = true) ∧
      (r.isFinal = true → r'.state = r.state ∧ r'.isFinal = true) := by
  have hinv := inv_of_reachable h
  let P : RelayRecord → Prop := fun r' =>
    (r'.attestation = r.attestation ∧ r'.nonce = r.nonce ∧ r'.message = r.message) ∧
      (r.isFinal = true → r'.state = r.state ∧ r'.isFinal = true)
  have hstays : ∀ t r₁ r₂, r₁.Ok → P r₁ → r₁.Change t r₂ → P r₂ := by
    rintro t r₁ r₂ hok ⟨hsame, hfinal⟩ hchange
    obtain ⟨hattestation, hnonce, hmessage⟩ := hchange.signed hok (by rw [hsame.1]; exact hsigned)
    refine ⟨⟨hattestation.trans hsame.1, hnonce.trans hsame.2.1, hmessage.trans hsame.2.2⟩, fun hrfinal => ?_⟩
    obtain ⟨hstate₁, hfinal₁⟩ := hfinal hrfinal
    obtain ⟨hstate₂, hfinal₂⟩ := hchange.final hok hfinal₁
    exact ⟨hstate₂.trans hstate₁, hfinal₂⟩
  have hbegin : P r := ⟨⟨rfl, rfl, rfl⟩, fun hfinal => ⟨rfl, hfinal⟩⟩
  obtain ⟨r', hr', hok, hsame, hfinal⟩ := (effects_of_after hinv h').record hinv hr hbegin hstays
  have hsigned' : r'.attestation.isSome = true := by
    rw [hsame.1]
    exact hsigned
  exact ⟨r', hr', hsame, hok.seen hsigned', kind_of_signed hok hsigned', hok.again, hfinal⟩

/-- A signed transfer arrives. -/
theorem signed_for_good_arrived : ∃ s s' r r', (cctpRelay Demo.options).replay Demo.relay Demo.confirm = some s ∧
    s.store.get Demo.burn = some r ∧ r.state = .confirmed ∧
    (cctpRelay Demo.options).replay s (Demo.send ++ [.receipt 0 (some .success)]) = some s' ∧
    s'.store.get Demo.burn = some r' ∧ r'.attestation = r.attestation ∧ r'.state = .arrived := by
  have hruns : ((cctpRelay Demo.options).replay Demo.relay Demo.confirm).any (fun s =>
      (s.store.get Demo.burn).any (fun r => decide (r.state = .confirmed) && r.attestation.isSome) &&
        ((cctpRelay Demo.options).replay s (Demo.send ++ [.receipt 0 (some .success)])).any fun s' =>
          (s'.store.get Demo.burn).any fun r' => decide (r'.state = .arrived)) = true := by decide +kernel
  obtain ⟨s, hs, hboth⟩ := (Option.any_eq_true _ _).mp hruns
  obtain ⟨hr, hs'⟩ := (Bool.and_eq_true _ _).mp hboth
  obtain ⟨r, hr, hstate⟩ := (Option.any_eq_true _ _).mp hr
  obtain ⟨hstate, hsigned⟩ := (Bool.and_eq_true _ _).mp hstate
  obtain ⟨s', hs', harrived⟩ := (Option.any_eq_true _ _).mp hs'
  obtain ⟨r', hr', harrived⟩ := (Option.any_eq_true _ _).mp harrived
  have hafter : Runs.Reachable ((cctpRelay Demo.options).after s) s' := Runs.Via.replay (.init rfl) hs'
  obtain ⟨r₁, hr₁, hsame, -⟩ := signed_for_good (Runs.Via.replay (.init Demo.relay_init) hs) hr hsigned hafter
  rw [hr'] at hr₁
  cases hr₁
  exact ⟨s, s', r, r', hs, hr, of_decide_eq_true hstate, hs', hr', hsame.1, of_decide_eq_true harrived⟩

/-! ## The mints -/

theorem Sound.of_append {later earlier : List Deed} {burnHash nonce : Text}
    (h : Sound (later ++ .sending burnHash nonce :: earlier)) :
    lastRead nonce earlier = some false ∧ AllReverted earlier burnHash := by
  induction later with
  | nil => exact h.1
  | cons deed later ih =>
    cases deed with
    | sending => exact ih h.2
    | _ => exact ih h

/-- Of each burn at most one job runs, at most one job has the lock, and when a mint was sent its nonce had
last been read as unused and every broadcast that was recorded of its burn had been seen reverted. -/
theorem mints_not_redundant {opts : RelayOptions} {s : CctpRelay} (h : Runs.Reachable (cctpRelay opts) s) :
    (∀ id id' job job', s.running.get id = some job → s.running.get id' = some job' →
      job.burnHash = job'.burnHash ∨ (job.stage.hasLock = true ∧ job'.stage.hasLock = true) → id = id') ∧
    ∀ later burnHash nonce earlier, s.deeds = later ++ .sending burnHash nonce :: earlier →
      lastRead nonce earlier = some false ∧ AllReverted earlier burnHash := by
  have hinv := inv_of_reachable h
  refine ⟨fun id id' job job' hjob hjob' hor => ?_, fun later burnHash nonce earlier heq => ?_⟩
  · rcases hor with hburn | ⟨hlock, hlock'⟩
    · by_contra hne
      exact hinv.burn_ne hjob hjob' hne hburn
    · have hhead := hinv.queued.lock id job hjob hlock
      rw [hinv.queued.lock id' job' hjob' hlock'] at hhead
      exact (Option.some.inj hhead).symm
  · have hsound := hinv.sound
    rw [heq] at hsound
    exact hsound.of_append

/-- The first mint of a burn. -/
theorem mints_not_redundant_first : ∃ s, (cctpRelay Demo.options).replay Demo.relay (Demo.confirm ++ Demo.send) = some s ∧
    ∃ later nonce earlier, s.deeds = later ++ .sending Demo.burn nonce :: earlier ∧
      lastRead nonce earlier = some false ∧ AllReverted earlier Demo.burn := by
  have hrun : ((cctpRelay Demo.options).replay Demo.relay (Demo.confirm ++ Demo.send)).any (fun s =>
      decide (s.deeds = .broadcast Demo.burn ['2'] 0 :: .sending Demo.burn ("0x".toList ++ Demo.word "07") ::
        s.deeds.drop 2)) = true := by decide +kernel
  obtain ⟨s, hs, hdeeds⟩ := (Option.any_eq_true _ _).mp hrun
  have hdeeds : s.deeds = [.broadcast Demo.burn ['2'] 0] ++ .sending Demo.burn ("0x".toList ++ Demo.word "07") ::
      s.deeds.drop 2 := of_decide_eq_true hdeeds
  exact ⟨s, hs, _, _, _, hdeeds,
    (mints_not_redundant (Runs.Via.replay (.init Demo.relay_init) hs)).2 _ _ _ _ hdeeds⟩

/-! ## The daily cap -/

/-- The burns broadcast on a UTC day, each once. -/
def burnsOn (day : Nat) (deeds : List Deed) : List Text :=
  (deeds.filterMap fun
    | .broadcast burnHash _ t => if t / DAY_MS = day then some burnHash else none
    | _ => none).dedup

theorem mem_burnsOn {day : Nat} {deeds : List Deed} {burnHash : Text} :
    burnHash ∈ burnsOn day deeds ↔ ∃ txHash t, .broadcast burnHash txHash t ∈ deeds ∧ t / DAY_MS = day := by
  unfold burnsOn
  rw [List.mem_dedup, List.mem_filterMap]
  constructor
  · rintro ⟨deed, hmem, hdeed⟩
    cases deed with
    | broadcast burnHash' txHash t =>
      simp only [Option.ite_none_right_eq_some, Option.some.injEq] at hdeed
      rw [hdeed.2] at hmem
      exact ⟨txHash, t, hmem, hdeed.1⟩
    | _ => cases hdeed
  · rintro ⟨txHash, t, hmem, hday⟩
    exact ⟨_, hmem, if_pos hday⟩

/-- Deeds with no new broadcast on a day have the burns of before. -/
theorem burnsOn_append {day : Nat} {new deeds : List Deed}
    (h : ∀ burnHash txHash t, .broadcast burnHash txHash t ∈ new → t / DAY_MS ≠ day) :
    burnsOn day (new ++ deeds) = burnsOn day deeds := by
  unfold burnsOn
  rw [List.filterMap_append]
  have hnil : new.filterMap (fun
      | .broadcast burnHash _ t => if t / DAY_MS = day then some burnHash else none
      | _ => none) = ([] : List Text) := by
    rw [List.filterMap_eq_nil_iff]
    intro deed hmem
    cases deed with
    | broadcast burnHash txHash t => exact if_neg (h burnHash txHash t hmem)
    | _ => rfl
  rw [hnil, List.nil_append]

theorem startOfUtcDay_le_iff {t now : Nat} (h : t ≤ now) : startOfUtcDay now ≤ t ↔ t / DAY_MS = now / DAY_MS := by
  unfold startOfUtcDay DAY_MS
  omega

theorem startOfUtcDay_mono {t t' : Nat} (h : t ≤ t') : startOfUtcDay t ≤ startOfUtcDay t' := by
  unfold startOfUtcDay DAY_MS
  omega

/-- Whether a record counts against the cap of a day. -/
def RelayRecord.since (since : Nat) (r : RelayRecord) : Bool := r.submittedAt.any (since ≤ ·)

theorem RelayRecord.since_mono {since since' : Nat} {r : RelayRecord} (hle : since ≤ since')
    (h : r.since since' = true) : r.since since = true := by
  unfold RelayRecord.since at h ⊢
  cases hsubmitted : r.submittedAt with
  | none =>
    rw [hsubmitted] at h
    cases h
  | some t =>
    simp only [hsubmitted, Option.any_some, decide_eq_true_eq] at h ⊢
    exact hle.trans h

theorem RelayRecord.since_congr {since : Nat} {r r' : RelayRecord} (h : r'.submittedAt = r.submittedAt) :
    r'.since since = r.since since := by
  unfold RelayRecord.since
  rw [h]

/-- The day counts fewer mints as it begins later. -/
theorem countSubmittedSince_mono {store : RelayStore} {since since' : Nat} (h : since ≤ since') :
    store.countSubmittedSince since' ≤ store.countSubmittedSince since :=
  List.countP_mono_left fun _ _ => RelayRecord.since_mono h

/-- A write that keeps whether a record counts keeps the count. -/
theorem countSubmittedSince_set {store : RelayStore} {since : Nat} {burnHash : Text} {r' : RelayRecord}
    (h : (store.get burnHash).any (RelayRecord.since since) = r'.since since) :
    RelayStore.countSubmittedSince (store.set burnHash r') since = store.countSubmittedSince since := by
  have hcount := JsMap.countP_set (RelayRecord.since since) burnHash r' store
  rw [h] at hcount
  exact Nat.add_right_cancel hcount

theorem countSubmittedSince_set_le (store : RelayStore) (since : Nat) (burnHash : Text) (r' : RelayRecord) :
    RelayStore.countSubmittedSince (store.set burnHash r') since ≤ store.countSubmittedSince since + 1 := by
  have hcount := JsMap.countP_set (RelayRecord.since since) burnHash r' store
  change (store.set burnHash r').values.countP (RelayRecord.since since) ≤ store.values.countP (RelayRecord.since since) + 1
  split_ifs at hcount <;> omega

/-- What the cap rests on: a burn broadcast today counts, and a job past the check of the cap is below it. -/
structure Capped (opts : RelayOptions) (s : CctpRelay) : Prop where
  past : ∀ burnHash txHash t, .broadcast burnHash txHash t ∈ s.deeds → t ≤ s.now
  today : ∀ burnHash txHash t, .broadcast burnHash txHash t ∈ s.deeds → startOfUtcDay s.now ≤ t →
    (s.store.get burnHash).any (RelayRecord.since (startOfUtcDay s.now)) = true
  under : ∀ id job, s.running.get id = some job → job.stage.capped = true → s.UnderCap opts
  days : ∀ day, (burnsOn day s.deeds).length ≤ opts.settings.dailyCap

theorem Stage.hasLock_of_capped {stage : Stage} (h : stage.capped = true) : stage.hasLock = true := by
  cases stage <;> first | rfl | cases h

namespace Capped

variable {opts : RelayOptions} {s : CctpRelay}

theorem elapsed (h : Capped opts s) (ms : Nat) : Capped opts { s with now := s.now + ms } := by
  have hmono : startOfUtcDay s.now ≤ startOfUtcDay (s.now + ms) := startOfUtcDay_mono (Nat.le_add_right _ _)
  refine ⟨fun burnHash txHash t hmem => ?_, fun burnHash txHash t hmem htoday => ?_, fun id job hjob hcapped => ?_, h.days⟩
  · exact (h.past burnHash txHash t hmem).trans (Nat.le_add_right _ _)
  · -- A broadcast of the day that time has reached was of the day before it passed.
    have hpast := h.past burnHash txHash t hmem
    have hsame : startOfUtcDay (s.now + ms) = startOfUtcDay s.now := by
      change startOfUtcDay (s.now + ms) ≤ t at htoday
      unfold startOfUtcDay DAY_MS at htoday ⊢
      omega
    change (s.store.get burnHash).any (RelayRecord.since (startOfUtcDay (s.now + ms))) = true
    rw [hsame]
    exact h.today burnHash txHash t hmem (hmono.trans htoday)
  · exact lt_of_le_of_lt (countSubmittedSince_mono hmono) (h.under id job hjob hcapped)

/-- A step that keeps whether the record it writes counts, and broadcasts nothing. -/
theorem write (h : Capped opts s) {burnHash : Text} {r' : RelayRecord} {running : JsMap Nat Job} {jobs : JsMap Text Nat}
    {queue : List Nat} {launched : Nat} {new : List Deed}
    (hsince : ∀ since, (s.store.get burnHash).any (RelayRecord.since since) = r'.since since)
    (hnew : ∀ burnHash txHash t, .broadcast burnHash txHash t ∉ new)
    (hrunning : ∀ id job, running.get id = some job → job.stage.capped = true → s.UnderCap opts) :
    Capped opts
      { s with store := s.store.set burnHash r', running, jobs, queue, launched, deeds := new ++ s.deeds } := by
  have hmem : ∀ burnHash txHash t, .broadcast burnHash txHash t ∈ new ++ s.deeds →
      .broadcast burnHash txHash t ∈ s.deeds := by
    intro burnHash txHash t hin
    exact (List.mem_append.mp hin).resolve_left (hnew burnHash txHash t)
  refine ⟨fun burnHash' txHash t hin => h.past burnHash' txHash t (hmem _ _ _ hin), fun burnHash' txHash t hin htoday => ?_,
    fun id job hjob hcapped => ?_, fun day => ?_⟩
  · have hcounts := h.today burnHash' txHash t (hmem _ _ _ hin) htoday
    change ((s.store.set burnHash r').get burnHash').any (RelayRecord.since (startOfUtcDay s.now)) = true
    rw [JsMap.get_set]
    by_cases heq : burnHash = burnHash'
    · rw [if_pos heq, Option.any_some, ← hsince, heq]
      exact hcounts
    · rw [if_neg heq]
      exact hcounts
  · change RelayStore.countSubmittedSince (s.store.set burnHash r') (startOfUtcDay s.now) < opts.settings.dailyCap
    rw [countSubmittedSince_set (hsince _)]
    exact hrunning id job hjob hcapped
  · rw [burnsOn_append fun burnHash' txHash t hin => absurd hin (hnew burnHash' txHash t)]
    exact h.days day

theorem broadcast (h : Capped opts s) (hinv : s.Inv) {id : Nat} {burnHash : Text} {signed : Signed} {r : RelayRecord}
    (mintHash : Text) (hjob : s.running.get id = some { burnHash, stage := .minting signed .sending }) :
    Capped opts
      { s with
        store := s.store.set burnHash (r.submit s.now mintHash)
        running := s.running.set id { burnHash, stage := .minting signed (.mining mintHash 0) }
        deeds := .broadcast burnHash mintHash s.now :: s.deeds } := by
  have hunder : s.UnderCap opts := h.under id _ hjob rfl
  have htoday : ∀ burnHash' txHash t, .broadcast burnHash' txHash t ∈ Deed.broadcast burnHash mintHash s.now :: s.deeds →
      startOfUtcDay s.now ≤ t →
      ((s.store.set burnHash (r.submit s.now mintHash)).get burnHash').any (RelayRecord.since (startOfUtcDay s.now))
        = true := by
    intro burnHash' txHash t hmem hday
    rw [JsMap.get_set]
    by_cases heq : burnHash = burnHash'
    · rw [if_pos heq]
      exact decide_eq_true (Nat.sub_le _ _)
    · rw [if_neg heq]
      rcases List.mem_cons.mp hmem with hdeed | hmem
      · cases hdeed
        exact absurd rfl heq
      · exact h.today burnHash' txHash t hmem hday
  refine ⟨fun burnHash' txHash t hmem => ?_, htoday, fun id' job hget hcapped => ?_, fun day => ?_⟩
  · rcases List.mem_cons.mp hmem with hdeed | hmem
    · cases hdeed
      exact le_rfl
    · exact h.past burnHash' txHash t hmem
  · -- No other job has the lock.
    change (s.running.set id _).get id' = some job at hget
    rw [JsMap.get_set] at hget
    split_ifs at hget with heq
    · cases hget
      cases hcapped
    · have hhead := hinv.queued.lock id' job hget (Stage.hasLock_of_capped hcapped)
      rw [hinv.queued.lock id _ hjob rfl] at hhead
      exact absurd (Option.some.inj hhead) heq
  · by_cases hday : s.now / DAY_MS = day
    · have hcount : (burnsOn day (Deed.broadcast burnHash mintHash s.now :: s.deeds)).length
          ≤ RelayStore.countSubmittedSince (s.store.set burnHash (r.submit s.now mintHash)) (startOfUtcDay s.now) := by
        refine JsMap.length_le_countP (List.nodup_dedup _) fun burnHash' hmem => ?_
        obtain ⟨txHash, t, hmem, ht⟩ := mem_burnsOn.mp hmem
        have hpast : t ≤ s.now := by
          rcases List.mem_cons.mp hmem with hdeed | hmem
          · cases hdeed
            exact le_rfl
          · exact h.past burnHash' txHash t hmem
        exact htoday burnHash' txHash t hmem ((startOfUtcDay_le_iff hpast).mpr (ht.trans hday.symm))
      have hle := countSubmittedSince_set_le s.store (startOfUtcDay s.now) burnHash (r.submit s.now mintHash)
      exact hcount.trans (hle.trans hunder)
    · have hsame : burnsOn day ([.broadcast burnHash mintHash s.now] ++ s.deeds) = burnsOn day s.deeds := by
        refine burnsOn_append fun burnHash' txHash t hmem => ?_
        cases List.mem_singleton.mp hmem
        exact hday
      have hdays := h.days day
      rw [← hsame] at hdays
      exact hdays

end Capped

/-- Whether a record counts is kept by every write but a broadcast. -/
theorem since_writes {store : RelayStore} {burnHash : Text} {t : Nat} {r r' : RelayRecord}
    (hr : store.get burnHash = some r) (hok : r.Ok) (h : r.Writes t r') (since : Nat) :
    (store.get burnHash).any (RelayRecord.since since) = r'.since since := by
  rw [hr, Option.any_some]
  exact (RelayRecord.since_congr (h.mint hok).1).symm

theorem Effect.capped {opts : RelayOptions} {s s' : CctpRelay} (h : Effect opts s s') (hinv : s.Inv)
    (hcap : Capped opts s) : Capped opts s' := by
  cases h with
  | elapsed ms => exact hcap.elapsed ms
  | spent nonce => exact ⟨hcap.past, hcap.today, hcap.under, hcap.days⟩
  | crashed =>
    refine ⟨hcap.past, hcap.today, fun id job hjob => ?_, hcap.days⟩
    cases hjob
  | restarted burnHash hstands =>
    have hnew : ∀ burnHash' txHash t, Deed.broadcast burnHash' txHash t ∉ [] := fun _ _ _ => List.not_mem_nil
    refine hcap.write (fun since => ?_) hnew hcap.under
    · cases hr : s.store.get burnHash with
      | none => rfl
      | some r =>
        rw [hr, Option.filter_eq_none_iff] at hstands
        have hwrites : r.Writes s.now (CctpRelay.restarted s.now burnHash (some r)) :=
          restarted_writes (by simpa using hstands r rfl)
        rw [← hr, since_writes hr (hinv.record _ _ hr) hwrites, hr]
  | launched hjobs hr hnext hlines hunlocked =>
    have hnew : ∀ burnHash' txHash t, Deed.broadcast burnHash' txHash t ∉ [] := fun _ _ _ => List.not_mem_nil
    refine hcap.write (since_writes hr (hinv.record _ _ hr) hnext.write) hnew ?_
    intro id job hget hcapped
    rw [JsMap.get_set] at hget
    split_ifs at hget
    · cases hget
      rw [Stage.hasLock_of_capped hcapped] at hunlocked
      cases hunlocked
    · exact hcap.under id job hget hcapped
  | went hjob hr hnext hlines hnoted hcapped =>
    refine hcap.write (since_writes hr (hinv.record _ _ hr) hnext.write) (fun _ _ _ => hnoted.not_broadcast) ?_
    intro id job hget hstage
    rw [JsMap.get_set] at hget
    split_ifs at hget
    · cases hget
      rcases hcapped hstage with hwas | hunder
      · exact hcap.under _ _ hjob hwas
      · exact hunder
    · exact hcap.under id job hget hstage
  | broadcast mintHash hjob hr => exact hcap.broadcast hinv mintHash hjob
  | left hjob =>
    refine ⟨hcap.past, hcap.today, fun id job hget hcapped => ?_, hcap.days⟩
    change (s.running.delete _).get id = some job at hget
    rw [JsMap.get_delete] at hget
    split_ifs at hget
    exact hcap.under id job hget hcapped

theorem Effects.capped {opts : RelayOptions} {s s' : CctpRelay} (h : Effects opts s s') (hinv : s.Inv)
    (hcap : Capped opts s) : Capped opts s' := by
  induction h with
  | refl => exact hcap
  | tail heffects heffect ih => exact heffect.capped (Effects.inv heffects hinv) ih

/-- On no UTC day does the relay broadcast the mints of more burns than the cap. -/
theorem burnsOn_le_dailyCap {opts : RelayOptions} {s : CctpRelay} (h : Runs.Reachable (cctpRelay opts) s) (day : Nat) :
    (burnsOn day s.deeds).length ≤ opts.settings.dailyCap := by
  have hboth : s.Inv ∧ Capped opts s := by
    refine h.invariant (I := fun s => s.Inv ∧ Capped opts s) (fun s h0 => ⟨inv_of_init h0, ?_⟩) fun s label s' hinv _ hstep => ?_
    · obtain ⟨-, -, hrunning, -, hdeeds⟩ := h0
      refine ⟨fun burnHash txHash t hmem => ?_, fun burnHash txHash t hmem => ?_, fun id job hjob => ?_, fun day => ?_⟩
      · rw [hdeeds] at hmem
        cases hmem
      · rw [hdeeds] at hmem
        cases hmem
      · rw [hrunning] at hjob
        cases hjob
      · rw [hdeeds]
        exact Nat.zero_le _
    · have heffects := step_effects hinv.1 hstep
      exact ⟨heffects.inv hinv.1, heffects.capped hinv.1 hinv.2⟩
  exact hboth.2.days day

/-- The cap is reached. -/
theorem burnsOn_le_dailyCap_reached : ∃ s,
    (cctpRelay Demo.options).replay Demo.relay (Demo.confirm ++ Demo.send) = some s ∧
      burnsOn 0 s.deeds = [Demo.burn] ∧ (burnsOn 0 s.deeds).length ≤ Demo.options.settings.dailyCap := by
  have hrun : ((cctpRelay Demo.options).replay Demo.relay (Demo.confirm ++ Demo.send)).any (fun s =>
      decide (burnsOn 0 s.deeds = [Demo.burn])) = true := by decide +kernel
  obtain ⟨s, hs, hburns⟩ := (Option.any_eq_true _ _).mp hrun
  exact ⟨s, hs, of_decide_eq_true hburns, burnsOn_le_dailyCap (Runs.Via.replay (.init Demo.relay_init) hs) 0⟩

end Writz.Relayer.Cctp

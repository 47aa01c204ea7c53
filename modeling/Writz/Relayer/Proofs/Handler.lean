import Writz.Relayer.Proofs.Process
import Writz.Relayer.RepayWatcher.Poller

/-!
# Proofs: what the watcher's two steps do

A poll records the `repay_full` events of a page with its cursor. What reading keeps, and using the
protocol's key keeps, the handler keeps, however it ends.
-/

namespace Writz.Relayer

open Node
open Program (Triple)

variable {τ ρ : Type} {H : Lend.Host τ ρ} {O : Outside H} {α : Type} {I : Machine → Prop}

/-- Reading keeps a condition on the state. -/
def KeptByReading (I : Machine → Prop) : Prop := ∀ s s', I s → s.Reads s' → I s'

theorem OnlyReads.keeps {p : Async α} (hp : OnlyReads p) (hI : KeptByReading I) :
    Triple I p (fun _ => I) I := by
  intro s hs
  have hr := hp s
  rcases hp' : p s with ⟨_ | a, s'⟩
  · rw [hp'] at hr
    exact hI s s' hs hr
  · rw [hp'] at hr
    exact hI s s' hs hr

theorem keeps_throwIf {c : Prop} [Decidable c] {e : Failure} :
    Triple I (Program.throwIf c e : Async Unit) (fun _ => I) I :=
  (Triple.throwIf fun _ hs => hs).conseq (fun _ hs => hs) (fun _ _ hs => hs.2) fun _ hs => hs

variable {txid : Bytes}

theorem keeps_signAndPublish (hI : KeptByReading I)
    (hcosign : ∀ deed, Triple I (cosign O txid deed) (fun _ => I) I) (deps : HandlerDeps)
    (psbt : deps.P.Psbt) : Triple I (signAndPublish O deps txid psbt) (fun _ => I) I := by
  unfold signAndPublish
  refine (hcosign .sign).bind fun _ => ((OnlyReads.ofResult _).keeps hI).bind fun psbt => ?_
  exact (OnlyReads.request.keeps hI).bind fun _ => hcosign _

theorem keeps_handleRepayFull (hI : KeptByReading I)
    (hcosign : ∀ deed, Triple I (cosign O txid deed) (fun _ => I) I) (deps : HandlerDeps) :
    Triple I (handleRepayFull O deps txid) (fun _ => I) I := by
  unfold handleRepayFull
  refine ((OnlyReads.getPosition txid).keeps hI).bind fun position => ?_
  cases position with
  | none => exact (OnlyReads.fail _).keeps hI
  | some position =>
    refine ((OnlyReads.getReleasePsbt txid).keeps hI).bind fun released => ?_
    split_ifs
    · exact (OnlyReads.pure ()).keeps hI
    · refine ((OnlyReads.ofResult _).keeps hI).bind fun deposit => ?_
      refine keeps_throwIf.bind fun _ => (OnlyReads.request.keeps hI).bind fun k => ?_
      refine ((OnlyReads.ofResult _).keeps hI).bind fun psbt => ?_
      exact keeps_signAndPublish hI hcosign deps psbt

theorem keeps_withPromptRetry {handle : Async Unit} (h : Triple I handle (fun _ => I) I)
    (retries : Nat) : Triple I (withPromptRetry handle retries) (fun _ => I) I := by
  induction retries with
  | zero => exact h
  | succ retries ih => exact Triple.tryCatch h fun _ => ih

theorem onlyReads_now : OnlyReads (now O) := OnlyReads.get.bind fun _ => .pure _

theorem onlyReads_isReleasePublished (txid : Bytes) : OnlyReads (isReleasePublished O txid) :=
  (OnlyReads.getReleasePsbt txid).bind fun _ => .pure _

/-! ## The poll -/

/-- What a poll asks for; `none` where it throws instead. -/
def pollRequest (cursor : Option Text) (deployLedger : Option Nat) : Option EventsRequest :=
  match cursor, deployLedger with
  | some cursor, _ => some (.after cursor)
  | none, some ledger => some (.startLedger ledger)
  | none, none => none

/-- The txids a poll finds at a request. -/
def repaidAt (O : Outside H) (k : Nat) (ask : EventsRequest) : List Text :=
  (O.page k ask).events.filterMap fun event => repaidTxid event.event

/-- A poll records what it finds, with the cursor of the page. -/
structure Polled (O : Outside H) (deployLedger : Option Nat) (m m' : Machine) : Prop where
  requests : m.requests < m'.requests
  cosigned : m'.cosigned = m.cosigned
  releases : ∃ ask t, pollRequest m.releases.cursor deployLedger = some ask ∧
    m.releases.recordBatch O.contractId (repaidAt O m.requests ask) (O.page m.requests ask).cursor t
      = .ok m'.releases

/-- A poll that throws has only read. -/
theorem runPollCycle_polled {m : Machine} (deployLedger : Option Nat) :
    Triple (fun s => s = m) (runPollCycle O deployLedger) (fun _ => Polled O deployLedger m)
      m.Reads := by
  unfold runPollCycle
  have hlater : KeptByReading fun s => m.Reads s ∧ m.requests < s.requests :=
    fun s s' hs hr => ⟨hs.1.trans hr, hs.2.trans_le hr.requests⟩
  have hafter : ∀ {α : Type} {p : Async α}, OnlyReads p →
      Triple (fun s => m.Reads s ∧ m.requests < s.requests) p
        (fun _ s => m.Reads s ∧ m.requests < s.requests) m.Reads :=
    fun hp => (hp.keeps hlater).conseq (fun _ h => h) (fun _ _ h => h) fun _ h => h.1
  refine Triple.get.bind fun s => ?_
  refine Triple.bind (Q := fun ask s => s = m ∧ pollRequest m.releases.cursor deployLedger = some ask)
    (ofResult_triple ?_ ?_) fun ask => ?_
  · rintro ask hask s' ⟨rfl, rfl⟩
    refine ⟨rfl, ?_⟩
    unfold pollRequest
    cases hcursor : s.releases.cursor with
    | some cursor =>
      rw [hcursor] at hask
      cases hask
      rfl
    | none =>
      rw [hcursor] at hask
      cases deployLedger with
      | some ledger =>
        cases hask
        rfl
      | none => cases hask
  · rintro s' ⟨-, rfl⟩
    exact .refl s'
  refine Triple.bind (Q := fun k s => (m.Reads s ∧ m.requests < s.requests) ∧ k = m.requests ∧
    pollRequest m.releases.cursor deployLedger = some ask) ?_ fun k => ?_
  · rintro s ⟨rfl, hask⟩
    simp only [request]
    cases O.fails s.requests with
    | some message => exact ⟨Nat.le_succ _, rfl, rfl, rfl⟩
    | none => exact ⟨⟨⟨Nat.le_succ _, rfl, rfl, rfl⟩, Nat.lt_succ_self _⟩, rfl, hask⟩
  rintro s ⟨hs, rfl, hask⟩
  refine Triple.bind (hafter onlyReads_now) (fun t => ?_) s hs
  refine (hafter OnlyReads.disk).bind fun _ => Triple.get.bind fun s => ?_
  refine Triple.bind (Q := fun releases s => (m.Reads s ∧ m.requests < s.requests) ∧
    m.releases.recordBatch O.contractId (repaidAt O m.requests ask) (O.page m.requests ask).cursor t
      = .ok releases) (ofResult_triple ?_ fun _ h => h.2.1) fun releases => ?_
  · rintro releases hreleases s' ⟨rfl, hs⟩
    rw [hs.1.releases] at hreleases
    exact ⟨hs, hreleases⟩
  · refine Triple.modify ?_
    rintro s ⟨⟨hreads, hlt⟩, hbatch⟩
    exact ⟨hlt, hreads.cosigned, ask, t, hask, hbatch⟩

end Writz.Relayer

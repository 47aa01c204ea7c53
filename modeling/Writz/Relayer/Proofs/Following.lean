import Writz.Relayer.Deployment
import Writz.Relayer.LendEvents.System
import Writz.Relayer.Proofs.Archive
import Writz.Relayer.Proofs.Handler

/-!
# Proofs: the archive of a contract has no hole

Of each contract the archive holds what was there up to the cursor at which it last followed it. So a
restart leaves a hole exactly where the contract had events since.
-/

namespace Writz.Relayer

open Node
open Program (Triple)

variable {τ ρ : Type}

/-! ## The live archive -/

section Live

variable {H : Lend.Host τ ρ} {O : Outside H} {deployLedger : Option Nat} {m m' : Machine}

/-- What a page that is read leaves in the database. -/
theorem readPage_eq_ok {store store' : LendEventStore} {more : Bool}
    (hr : readPage O deployLedger store m = (.ok (store', more), m')) :
    ∃ ask, nextRequest store.cursor deployLedger = .ok ask ∧
      isValidCursor (O.page m.requests ask).cursor = true ∧
      store' = { rows := LendEventStore.insertRows store.rows
                   (eventRows O (O.page m.requests ask).events),
                 cursor := some (O.page m.requests ask).cursor } ∧
      m'.requests = m.requests + 1 ∧ m'.archive = m.archive := by
  simp only [readPage, Program.bind_eq_ok, Program.pure_eq_ok, ofResult_eq_ok, request_eq_ok,
    disk_eq_ok] at hr
  obtain ⟨ask, _, ⟨hask, rfl⟩, _, _, ⟨-, rfl, rfl⟩, _, _, ⟨-, rfl⟩, _, _, ⟨hcommit, rfl⟩, hpair, rfl⟩ := hr
  obtain ⟨hvalid, rfl⟩ := commit_eq_ok.mp hcommit
  obtain ⟨rfl, -⟩ := Prod.mk.inj hpair
  exact ⟨ask, hask, hvalid, rfl, rfl, rfl⟩

/-- A program that neither looks at the live archive nor changes it. -/
def IgnoresArchive {α : Type} (p : Async α) : Prop :=
  ∀ (m : Machine) (archive : ArchiveFiles),
    p { m with archive } = ((p m).1, { (p m).2 with archive })

namespace IgnoresArchive

variable {α β : Type}

protected theorem bind {p : Async α} {f : α → Async β} (hp : IgnoresArchive p)
    (hf : ∀ a, IgnoresArchive (f a)) : IgnoresArchive (p >>= f) := by
  intro m archive
  show Program.bind p f _ = ((Program.bind p f m).1, { (Program.bind p f m).2 with archive })
  unfold Program.bind
  rw [hp m archive]
  rcases p m with ⟨_ | a, m₁⟩
  · rfl
  · exact hf a m₁ archive

protected theorem pure (a : α) : IgnoresArchive (pure a : Async α) := fun _ _ => rfl

theorem ofResult (r : Node.Result α) : IgnoresArchive (Relayer.ofResult r) := fun _ _ => rfl

theorem request : IgnoresArchive (Relayer.request O) := by
  intro m archive
  simp only [Relayer.request]
  cases O.fails m.requests with
  | none => rfl
  | some message => rfl

theorem disk : IgnoresArchive (Relayer.disk O) := by
  intro m archive
  simp only [Relayer.disk]
  cases O.diskFails m.operations with
  | none => rfl
  | some message => rfl

theorem readPage (store : LendEventStore) : IgnoresArchive (readPage O deployLedger store) :=
  (ofResult _).bind fun _ => request.bind fun _ => disk.bind fun _ => (ofResult _).bind fun _ => .pure _

theorem readPages (pages : Nat) :
    ∀ store, IgnoresArchive (readPages O deployLedger pages store) := by
  induction pages with
  | zero => exact fun _ => .pure _
  | succ pages ih =>
    intro store
    refine (readPage store).bind fun ⟨store, more⟩ => ?_
    cases more with
    | false => exact .pure _
    | true => exact ih store

end IgnoresArchive

/-- Where `runLendEventsCycle` succeeds, the live archive holds the database it leaves. -/
theorem archivePages_eq {pages : Nat} : ∀ {m m' : Machine} {store' : LendEventStore} {reached : Bool},
    readPages O deployLedger pages m.archive.contents m = (.ok (store', reached), m') →
      ∃ archive, archivePages O deployLedger pages m = (.ok reached, { m' with archive }) ∧
        archive.contents = store' := by
  induction pages with
  | zero =>
    intro m m' store' reached hr
    obtain ⟨hpair, rfl⟩ := Program.pure_eq_ok.mp hr
    obtain ⟨rfl, rfl⟩ := Prod.mk.inj hpair
    exact ⟨m.archive, rfl, rfl⟩
  | succ pages ih =>
    intro m m' store' reached hr
    rw [readPages, Program.bind_eq_ok] at hr
    obtain ⟨⟨store₁, more⟩, m₁, hpage, hr⟩ := hr
    have hlive : archivePage O deployLedger m
        = (.ok more, { m₁ with archive := { m₁.archive with wal := some store₁ } }) := by
      rw [archivePage, Program.bind_eq_ok]
      refine ⟨m, m, rfl, ?_⟩
      rw [Program.bind_eq_ok]
      exact ⟨_, _, hpage, rfl⟩
    cases more with
    | false =>
      obtain ⟨hpair, rfl⟩ := Program.pure_eq_ok.mp hr
      obtain ⟨rfl, rfl⟩ := Prod.mk.inj hpair
      refine ⟨{ m₁.archive with wal := some store₁ }, ?_, rfl⟩
      rw [archivePages, Program.bind_eq_ok]
      exact ⟨false, _, hlive, rfl⟩
    | true =>
      have hpages : readPages O deployLedger pages store₁ m₁ = (.ok (store', reached), m') := hr
      have hignores : IgnoresArchive (readPages O deployLedger pages store₁) := .readPages pages store₁
      have hrest := hignores m₁ { m₁.archive with wal := some store₁ }
      rw [hpages] at hrest
      obtain ⟨archive, hpages, hcontents⟩ :=
        ih (m := { m₁ with archive := { m₁.archive with wal := some store₁ } }) hrest
      refine ⟨archive, ?_, hcontents⟩
      rw [archivePages, Program.bind_eq_ok]
      exact ⟨true, _, hlive, hpages⟩

end Live

/-! ## Rows up to a cursor -/

section RowsUpTo

variable {H : Lend.Host τ ρ} {O : Outside H}

/-- The events up to a cursor that no event to come is before. -/
theorem filter_upTo_le {j k : Nat} (hjk : j ≤ k) {cursor : Text}
    (hlater : ∀ e ∈ (O.chain k).log, e ∉ (O.chain j).log → textLt cursor e.id = true) :
    ((O.chain k).log.filter fun e => !textLt cursor e.id)
      = (O.chain j).log.filter fun e => !textLt cursor e.id := by
  obtain ⟨new, hnew⟩ := O.log_le hjk
  have hsorted := O.id_sorted k
  rw [← hnew] at hsorted hlater
  have hnone : new.filter (fun e => !textLt cursor e.id) = [] := by
    refine List.filter_eq_nil_iff.mpr fun e he => ?_
    have hnot : e ∉ (O.chain j).log := by
      intro hold
      have hlt := (List.pairwise_append.mp hsorted).2.2 e hold e he
      rw [textLt_irrefl] at hlt
      cases hlt
    rw [hlater e (List.mem_append_right _ he) hnot]
    decide
  rw [← hnew, List.filter_append, hnone, List.append_nil]

/-- Which rows some events give is up to the archived ones. -/
theorem eventRows_filter_congr {log : List ChainEvent} {p q : ChainEvent → Bool}
    (h : ∀ e ∈ log, (eventColumns e.event).isSome = true → p e = q e) :
    eventRows O (log.filter p) = eventRows O (log.filter q) := by
  unfold eventRows
  rw [List.filterMap_filter, List.filterMap_filter]
  refine List.filterMap_congr fun e he => ?_
  cases hcolumns : eventColumns e.event with
  | none =>
    have hnone : decodeLendEvent O.encodeRawXdr e O.contractId = none := by
      rw [decodeLendEvent, hcolumns]
      rfl
    rw [hnone]
    split_ifs <;> rfl
  | some columns =>
    rw [h e he (by rw [hcolumns]; rfl)]

end RowsUpTo

/-! ## The invariant -/

variable {H : Text → Lend.Host τ ρ} {N : Network H} {s s' : Archiver}

/-- Of each contract the database has the rows up to where the archive has followed it, and no event to
come is before the stored cursor. -/
structure Archiver.Follows (N : Network H) (s : Archiver) : Prop where
  ledger : ∃ configured, s.deployLedger = N.configuredLedger s.contractId configured
  valid : ∀ cursor, s.store.cursor = some cursor → isValidCursor cursor = true
  bounded : ∀ row ∈ s.store.rows, ∃ cursor, s.store.cursor = some cursor ∧ textLt cursor row.id = false
  left_le : ∀ c x, s.left c = some x → ∃ cursor, s.store.cursor = some cursor ∧ textLt cursor x = false
  settled : ∀ cursor, s.store.cursor = some cursor → ∀ c j k, s.machine.requests ≤ k + 1 →
    ∀ e ∈ ((N.outside c).chain j).log, e ∉ ((N.outside c).chain k).log → textLt cursor e.id = true
  listed : ∀ c k, s.machine.requests ≤ k + 1 → s.store.list c = N.rowsUpTo c (s.followed c) k

theorem Archiver.followed_self : s.followed s.contractId = s.store.cursor := Function.update_self ..

theorem Archiver.followed_of_ne {c : Text} (h : c ≠ s.contractId) : s.followed c = s.left c :=
  Function.update_of_ne h ..

theorem Archiver.Follows.whole (h : s.Follows N) : s.Whole N := by
  intro k hk
  have hlisted := h.listed s.contractId k hk
  rwa [Archiver.followed_self] at hlisted

/-- Requests alone change nothing. -/
theorem Archiver.Follows.later (h : s.Follows N) {m : Machine} (hrequests : s.machine.requests ≤ m.requests)
    (harchive : m.archive = s.machine.archive) : ({ s with machine := m } : Archiver).Follows N := by
  have hstore : ({ s with machine := m } : Archiver).store = s.store :=
    congrArg ArchiveFiles.contents harchive
  have hfollowed : ({ s with machine := m } : Archiver).followed = s.followed := by
    unfold Archiver.followed
    rw [hstore]
  refine ⟨h.ledger, ?_, ?_, ?_, ?_, ?_⟩
  · rw [hstore]
    exact h.valid
  · rw [hstore]
    exact h.bounded
  · rw [hstore]
    exact h.left_le
  · rw [hstore]
    exact fun cursor hcursor c j k hk => h.settled cursor hcursor c j k (hrequests.trans hk)
  · rw [hstore, hfollowed]
    exact fun c k hk => h.listed c k (hrequests.trans hk)

/-- The next page of the configured contract: what it asks for is after the rows there are, and what it
is given is what is missing up to the new cursor. -/
theorem Archiver.Follows.asks (h : s.Follows N) {ask : EventsRequest}
    (hask : nextRequest s.store.cursor s.deployLedger = .ok ask) {cursor : Text}
    (hcursor : ((N.outside s.contractId).page s.machine.requests ask).cursor = cursor) :
    let O := N.outside s.contractId
    let events := (O.page s.machine.requests ask).events
    (∀ old, s.store.cursor = some old → textLt cursor old = false) ∧
      (∀ row ∈ s.store.rows, ∀ e ∈ events, textLt row.id e.id = true) ∧
      N.rowsUpTo s.contractId (some cursor) s.machine.requests
        = N.rowsUpTo s.contractId s.store.cursor s.machine.requests ++ eventRows O events := by
  intro O events
  have hevents : events = (O.chain s.machine.requests).log.filter
      fun e => ask.covers e && !textLt cursor e.id := by
    rw [← hcursor]
    exact O.ordered.events s.machine.requests ask
  rw [hevents]
  cases hold : s.store.cursor with
  | none =>
    have hrows : s.store.rows = [] := by
      refine List.eq_nil_iff_forall_not_mem.mpr fun row hrow => ?_
      obtain ⟨_, hsome, -⟩ := h.bounded row hrow
      rw [hold] at hsome
      cases hsome
    obtain ⟨configured, hledger⟩ := h.ledger
    rw [hold, hledger, Network.configuredLedger] at hask
    cases configured with
    | false => cases hask
    | true =>
      cases hask
      refine ⟨?_, fun row hrow => ?_, ?_⟩
      · intro _ hsome
        cases hsome
      · rw [hrows] at hrow
        cases hrow
      · change eventRows O _ = [] ++ eventRows O _
        rw [List.nil_append]
        refine congrArg (eventRows O) (List.filter_congr fun e he => ?_)
        have hdeployed := N.deployed s.contractId s.machine.requests e he
        rw [EventsRequest.covers, decide_eq_true hdeployed, Bool.true_and]
  | some old =>
    rw [hold] at hask
    cases hask
    have hadvances : textLt cursor old = false := by
      rw [← hcursor]
      exact N.advances s.contractId s.machine.requests old (h.valid old hold)
    refine ⟨?_, fun row hrow e he => ?_, ?_⟩
    · intro _ hsome
      cases hsome
      exact hadvances
    · obtain ⟨_, hsome, hupTo⟩ := h.bounded row hrow
      cases hold.symm.trans hsome
      have hafter := (Bool.and_eq_true _ _ ▸ (List.mem_filter.mp he).2).1
      exact textLt_of_not_lt hupTo hafter
    · change eventRows O _ = eventRows O _ ++ eventRows O _
      rw [filter_upTo_append (O.id_sorted s.machine.requests) hadvances, eventRows_append]
      rfl

/-- The page is committed. -/
theorem Archiver.Follows.page (h : s.Follows N) {ask : EventsRequest} {m : Machine} {cursor : Text}
    (hask : nextRequest s.store.cursor s.deployLedger = .ok ask)
    (hcursor : ((N.outside s.contractId).page s.machine.requests ask).cursor = cursor)
    (hvalid : isValidCursor cursor = true) (hrequests : m.requests = s.machine.requests + 1)
    (hcontents : m.archive.contents =
      { rows := LendEventStore.insertRows s.store.rows
          (eventRows (N.outside s.contractId)
            ((N.outside s.contractId).page s.machine.requests ask).events),
        cursor := some cursor }) :
    ({ s with machine := m } : Archiver).Follows N := by
  obtain ⟨hforward, hafter, hmissing⟩ := h.asks hask hcursor
  have hordered := (N.outside s.contractId).ordered.events s.machine.requests ask
  rw [hcursor] at hordered
  have hlater := fun c => N.later s.contractId c s.machine.requests ask
  rw [hcursor] at hlater
  generalize hevents : ((N.outside s.contractId).page s.machine.requests ask).events = events at *
  have hupTo : ∀ e ∈ events, textLt cursor e.id = false := by
    intro e he
    rw [hordered] at he
    exact Bool.not_eq_true' _ ▸ (Bool.and_eq_true _ _ ▸ (List.mem_filter.mp he).2).2
  have hrows : LendEventStore.insertRows s.store.rows (eventRows (N.outside s.contractId) events)
      = s.store.rows ++ eventRows (N.outside s.contractId) events := by
    refine insertRows_last (fun row hrow n hn => ?_) (eventRows_sorted ?_)
    · obtain ⟨e, he, hid, -⟩ := mem_eventRows hn
      rw [hid]
      exact hafter row hrow e he
    · rw [hordered]
      exact ((N.outside s.contractId).id_sorted _).filter _
  rw [hrows] at hcontents
  have hstore : ({ s with machine := m } : Archiver).store = _ := hcontents
  have hback : ∀ old, s.store.cursor = some old → ∀ id, textLt old id = false → textLt cursor id = false := by
    intro old hold id hid
    by_contra hlt
    have := textLt_of_not_lt (hforward old hold) (Bool.eq_true_of_not_eq_false hlt)
    rw [hid] at this
    cases this
  refine ⟨h.ledger, ?_, ?_, ?_, ?_, ?_⟩
  · intro _ hsome
    rw [hstore] at hsome
    cases hsome
    exact hvalid
  · intro row hrow
    rw [hstore] at hrow ⊢
    refine ⟨cursor, rfl, ?_⟩
    rcases List.mem_append.mp hrow with hrow | hrow
    · obtain ⟨old, hold, hbound⟩ := h.bounded row hrow
      exact hback old hold _ hbound
    · obtain ⟨e, he, hid, -⟩ := mem_eventRows hrow
      rw [hid]
      exact hupTo e he
  · intro c x hleft
    rw [hstore]
    obtain ⟨old, hold, hbound⟩ := h.left_le c x hleft
    exact ⟨cursor, rfl, hback old hold _ hbound⟩
  · intro _ hsome c j k hk e he hnot
    rw [hstore] at hsome
    cases hsome
    change m.requests ≤ k + 1 at hk
    exact hlater c j e he fun hmem => hnot (((N.outside c).log_le (by omega)).subset hmem)
  · intro c k hk
    change m.requests ≤ k + 1 at hk
    rw [hstore, LendEventStore.list, List.filter_append]
    by_cases hc : c = s.contractId
    · subst hc
      have hlisted := h.listed s.contractId s.machine.requests (Nat.le_succ _)
      rw [Archiver.followed_self] at hlisted
      have hfollowed : ({ s with machine := m } : Archiver).followed s.contractId = some cursor := by
        unfold Archiver.followed
        rw [hstore, Function.update_self]
      have hall : (eventRows (N.outside s.contractId) events).filter
          (fun row => decide (row.contractId = s.contractId)) = eventRows (N.outside s.contractId) events := by
        refine List.filter_eq_self.mpr fun row hrow => ?_
        obtain ⟨_, -, -, hcontract⟩ := mem_eventRows hrow
        rw [hcontract, N.contractId, decide_eq_true rfl]
      rw [hall, hfollowed]
      change s.store.list s.contractId ++ _ = _
      rw [hlisted, ← hmissing]
      refine congrArg (eventRows _) (filter_upTo_le (by omega) fun e he hnot => ?_).symm
      exact hlater s.contractId k e he hnot
    · have hnone : (eventRows (N.outside s.contractId) events).filter
          (fun row => decide (row.contractId = c)) = [] := by
        refine List.filter_eq_nil_iff.mpr fun row hrow => ?_
        obtain ⟨_, -, -, hcontract⟩ := mem_eventRows hrow
        rw [hcontract, N.contractId, decide_eq_true_iff]
        exact Ne.symm hc
      have hfollowed : ({ s with machine := m } : Archiver).followed c = s.followed c := by
        unfold Archiver.followed
        rw [Function.update_of_ne hc, Function.update_of_ne hc]
      rw [hnone, List.append_nil, hfollowed]
      exact h.listed c k (by omega)

/-! ## The steps -/

theorem follows_archivePage : Triple (fun m => ({ s with machine := m } : Archiver).Follows N)
    (archivePage (N.outside s.contractId) s.deployLedger)
    (fun _ m => ({ s with machine := m } : Archiver).Follows N)
    (fun m => ({ s with machine := m } : Archiver).Follows N) := by
  unfold archivePage
  refine Triple.get.bind fun m => Triple.bind
    (Q := fun (read : LendEventStore × Bool) m' => ({ s with
      machine := { m' with archive := { m'.archive with wal := some read.1 } } } : Archiver).Follows N)
    ?_ fun read => ?_
  · rintro m ⟨rfl, h⟩
    have hreads := onlyReads_readPage (O := N.outside s.contractId) s.deployLedger m.archive.contents m
    rcases hpage : readPage (N.outside s.contractId) s.deployLedger m.archive.contents m
      with ⟨_ | ⟨store, more⟩, m'⟩
    · rw [hpage] at hreads
      exact h.later hreads.requests hreads.archive
    · obtain ⟨ask, hask, hvalid, rfl, hrequests, -⟩ := readPage_eq_ok hpage
      exact h.page hask rfl hvalid hrequests rfl
  · exact Triple.bind (Triple.modify fun _ h => h) fun _ => Triple.pure fun _ h => h

theorem follows_archivePages (pages : Nat) :
    Triple (fun m => ({ s with machine := m } : Archiver).Follows N)
      (archivePages (N.outside s.contractId) s.deployLedger pages)
      (fun _ m => ({ s with machine := m } : Archiver).Follows N)
      (fun m => ({ s with machine := m } : Archiver).Follows N) := by
  induction pages with
  | zero => exact Triple.pure fun _ h => h
  | succ pages ih =>
    refine follows_archivePage.bind fun more => ?_
    cases more with
    | false => exact Triple.pure fun _ h => h
    | true => exact ih

/-- What the relayer meets when it crashes. -/
def Network.crashing (N : Network H) (n : Nat) : Network H where
  outside c := (N.outside c).crashing n
  contractId := N.contractId
  deployLedger := N.deployLedger
  deployed := N.deployed
  unique := N.unique
  later := N.later
  advances := N.advances

theorem follows_crashing {n : Nat} : s.Follows (N.crashing n) ↔ s.Follows N :=
  ⟨fun h => ⟨h.ledger, h.valid, h.bounded, h.left_le, h.settled, h.listed⟩,
    fun h => ⟨h.ledger, h.valid, h.bounded, h.left_le, h.settled, h.listed⟩⟩

/-- What a restart has to list is what there is, where the contract had no archived event since. -/
theorem rowsUpTo_of_resumes (h : s.Follows N) {c : Text} {configured : Bool}
    (hresumes : N.Resumes s (.restart c configured)) {k : Nat} :
    N.rowsUpTo c (s.followed c) k = N.rowsUpTo c s.store.cursor k := by
  have hle : ∀ x, s.followed c = some x →
      ∃ cursor, s.store.cursor = some cursor ∧ textLt cursor x = false := by
    intro x hx
    by_cases hc : c = s.contractId
    · rw [hc, Archiver.followed_self] at hx
      exact ⟨x, hx, textLt_irrefl x⟩
    · rw [Archiver.followed_of_ne hc] at hx
      exact h.left_le c x hx
  cases hcursor : s.store.cursor with
  | none =>
    cases hx : s.followed c with
    | none => rfl
    | some x =>
      obtain ⟨cursor, hsome, -⟩ := hle x hx
      rw [hcursor] at hsome
      cases hsome
  | some cursor =>
    -- an archived event up to the cursor is on the chain by now, so the restart has looked at it
    have hfound : ∀ e ∈ ((N.outside c).chain k).log, (eventColumns e.event).isSome = true →
        textLt cursor e.id = false → ∃ x, s.followed c = some x ∧ textLt x e.id = false := by
      intro e he harchived hupTo
      refine hresumes cursor hcursor e ?_ harchived hupTo
      by_contra hnot
      have hlater := h.settled cursor hcursor c k s.machine.requests (Nat.le_succ _) e he hnot
      rw [hupTo] at hlater
      cases hlater
    cases hx : s.followed c with
    | none =>
      refine (List.filterMap_eq_nil_iff.mpr fun e he => ?_).symm
      obtain ⟨he, hupTo⟩ := List.mem_filter.mp he
      cases hcolumns : eventColumns e.event with
      | none =>
        rw [decodeLendEvent, hcolumns]
        rfl
      | some columns =>
        obtain ⟨x, hsome, -⟩ := hfound e he (by rw [hcolumns]; rfl) (Bool.not_eq_true' _ ▸ hupTo)
        rw [hx] at hsome
        cases hsome
    | some x =>
      obtain ⟨_, hsome, hbound⟩ := hle x hx
      cases hcursor.symm.trans hsome
      refine eventRows_filter_congr fun e he harchived => ?_
      cases hupTo : textLt cursor e.id with
      | false =>
        obtain ⟨_, hsome, hx'⟩ := hfound e he harchived hupTo
        cases hx.symm.trans hsome
        rw [hx']
      | true => rw [textLt_of_not_lt hbound hupTo]

theorem Archiver.Follows.restart (h : s.Follows N) {c : Text} {configured : Bool}
    (hresumes : N.Resumes s (.restart c configured)) : (s.restart N c configured).Follows N := by
  refine ⟨⟨configured, rfl⟩, h.valid, h.bounded, fun c' x hx => ?_, h.settled, fun c' k hk => ?_⟩
  · change s.followed c' = some x at hx
    by_cases hc : c' = s.contractId
    · rw [hc, Archiver.followed_self] at hx
      exact ⟨x, hx, textLt_irrefl x⟩
    · rw [Archiver.followed_of_ne hc] at hx
      exact h.left_le c' x hx
  · have hlisted := h.listed c' k hk
    by_cases hc : c' = c
    · subst hc
      rw [rowsUpTo_of_resumes h hresumes] at hlisted
      have hfollowed := (s.restart N c' configured).followed_self
      change (s.restart N c' configured).followed c' = s.store.cursor at hfollowed
      rw [hfollowed]
      exact hlisted
    · have hfollowed : (s.restart N c configured).followed c' = s.followed c' :=
        Archiver.followed_of_ne (s := s.restart N c configured) hc
      rw [hfollowed]
      exact hlisted

theorem follows_step (h : s.Follows N) {label : ArchiverLabel} (hresumes : N.Resumes s label)
    (hs : (archiver N).step s label = some s') : s'.Follows N := by
  cases label with
  | poll =>
    cases hs
    exact (follows_archivePages MAX_PAGES_PER_POLL).final h
  | crash operations =>
    cases hs
    exact follows_crashing.mp ((follows_archivePages (N := N.crashing _) MAX_PAGES_PER_POLL).final
      (follows_crashing.mpr h))
  | restart c configured =>
    cases hs
    exact h.restart hresumes

theorem follows_of_via (h : Runs.Via (archiver N) N.Resumes s) : s.Follows N := by
  refine Runs.Via.invariant (fun s hinit => ?_) (fun _ _ _ h hresumes hs => follows_step h hresumes hs) h
  obtain ⟨hempty, hledger, hleft⟩ := hinit
  refine ⟨hledger, ?_, ?_, ?_, ?_, ?_⟩
  · intro cursor hcursor
    rw [hempty] at hcursor
    cases hcursor
  · intro row hrow
    rw [hempty] at hrow
    cases hrow
  · intro c x hx
    rw [hleft] at hx
    cases hx
  · intro cursor hcursor
    rw [hempty] at hcursor
    cases hcursor
  · intro c k hk
    have hfollowed : s.followed c = none := by
      by_cases hc : c = s.contractId
      · rw [hc, Archiver.followed_self, hempty]
        rfl
      · rw [Archiver.followed_of_ne hc, hleft]
    rw [hempty, hfollowed]
    rfl

/-- A restart that leaves no hole has found no archived event since the archive left its contract. -/
theorem resumes_of_whole (h : s.Follows N) {c : Text} {configured : Bool}
    (hwhole : (s.restart N c configured).Whole N) : N.Resumes s (.restart c configured) := by
  intro cursor hcursor e he harchived hupTo
  have hlisted := h.listed c s.machine.requests (Nat.le_succ _)
  have hrestarted : s.store.list c = N.rowsUpTo c s.store.cursor s.machine.requests :=
    hwhole s.machine.requests (Nat.le_succ _)
  rw [hcursor, hlisted] at hrestarted
  obtain ⟨columns, hcolumns⟩ := Option.isSome_iff_exists.mp harchived
  obtain ⟨row, hdecode, hid⟩ : ∃ row, decodeLendEvent (N.outside c).encodeRawXdr e
      (N.outside c).contractId = some row ∧ row.id = e.id := by
    rw [decodeLendEvent, hcolumns]
    exact ⟨_, rfl, rfl⟩
  have hrow : row ∈ N.rowsUpTo c (s.followed c) s.machine.requests := by
    rw [hrestarted]
    exact List.mem_filterMap.mpr ⟨e, List.mem_filter.mpr ⟨he, by rw [hupTo]; rfl⟩, hdecode⟩
  cases hx : s.followed c with
  | none =>
    rw [hx] at hrow
    cases hrow
  | some x =>
    rw [hx] at hrow
    obtain ⟨e', he', hid', -⟩ := mem_eventRows hrow
    refine ⟨x, rfl, ?_⟩
    rw [← hid, hid']
    exact Bool.not_eq_true' _ ▸ (List.mem_filter.mp he').2

namespace Demo

theorem logAfter_nil : logAfter [] = [] := rfl

theorem undeployed_wellFormed : wellFormed (logAfter []) = true := by
  rw [logAfter_nil]
  rfl

/-- A network where one contract alone has events. -/
def outsideOf (c : Text) : Outside host :=
  if c = contractId then repaidOutside else { outside [] undeployed_wellFormed with contractId := c }

theorem outside_log {steps : List Lend.Demo.Step} {h : wellFormed (logAfter steps) = true} (c : Text)
    (k : Nat) : (({ outside steps h with contractId := c } : Outside host).chain k).log = logAfter steps :=
  rfl

theorem outsideOf_log (c : Text) (k : Nat) : ((outsideOf c).chain k).log =
    if c = contractId then logAfter Lend.Demo.repaidLoan else logAfter [] := by
  unfold outsideOf
  split_ifs
  · exact outside_log (h := repaidLoan_wellFormed) contractId k
  · exact outside_log c k

def network : Network fun _ => host where
  outside := outsideOf
  contractId c := by
    unfold outsideOf
    split_ifs with hc
    · exact hc.symm
    · rfl
  deployLedger _ := START_LEDGER
  deployed c k e he := by
    rw [outsideOf_log] at he
    split_ifs at he
    · exact logAfter_ledger he
    · exact logAfter_ledger he
  unique c c' j k e he e' he' _ := by
    rw [outsideOf_log] at he he'
    split_ifs at he he' with hc hc'
    · exact hc.trans hc'.symm
    · rw [logAfter_nil] at he'
      cases he'
    · rw [logAfter_nil] at he
      cases he
    · rw [logAfter_nil] at he
      cases he
  later c c' k request j e he hnot := by
    rw [outsideOf_log] at he hnot
    exact absurd he hnot
  advances c k cursor hvalid := by
    unfold outsideOf
    split_ifs
    · exact repaidOutside_steady.advances k cursor hvalid
    · exact (outside_steady undeployed_wellFormed).advances k cursor hvalid

/-- An archive that starts with a contract. -/
def archiverOf (c : Text) : Archiver where
  machine := machine
  contractId := c
  deployLedger := some START_LEDGER
  left _ := none

theorem archiverOf_init (c : Text) : (archiver network).init (archiverOf c) :=
  ⟨rfl, ⟨true, rfl⟩, rfl⟩

/-- The archive after a poll of the contract with events. -/
def archived : Archiver :=
  { archiverOf contractId with
    machine := (runArchiveCycle (outsideOf contractId) (some START_LEDGER) machine).2 }

/-- The archive after a poll of a contract without events, restarted for the other one. -/
def redeployed : Archiver :=
  Archiver.restart network
    { archiverOf [] with machine := (runArchiveCycle (outsideOf []) (some START_LEDGER) machine).2 }
    contractId true

theorem archived_via : Runs.Via (archiver network) network.Resumes archived := by
  have hstart : Runs.Via (archiver network) network.Resumes (archiverOf contractId) :=
    .init (archiverOf_init contractId)
  exact hstart.step (a := .poll) trivial rfl

theorem redeployed_reachable : Runs.Reachable (archiver network) redeployed := by
  have hstart : Runs.Reachable (archiver network) (archiverOf []) := .init (archiverOf_init [])
  exact (hstart.step (a := .poll) trivial rfl).step (a := .restart contractId true) trivial rfl

theorem redeployed_run : redeployed.store.list redeployed.contractId = [] ∧
    (network.rowsUpTo redeployed.contractId redeployed.store.cursor redeployed.machine.requests).length
      = 4 := by
  decide +kernel

theorem archived_run : archived.machine.requests ≤ 2 ∧ archived.store.cursor = some tip ∧
    (network.rowsUpTo archived.contractId archived.store.cursor 1).length = 4 := by
  decide +kernel

end Demo

end Writz.Relayer

import Writz.Relayer.Proofs.Archive
import Writz.Relayer.VaultWatcher.System

/-!
# Proofs: the vault's events

What a poll cycle leaves in the databases, and what they hold after a run of them: each deposit and
withdrawal up to the cursor once, if no transaction makes two that are alike.
-/

namespace Writz.Relayer.Vault

open Node EventLog

/-! ## One cycle -/

section Cycle

variable {deps : PollCycleDeps} {rows : List VaultEvent} {cursor : Option Text}

/-- The table after some events. -/
def storeAll (deps : PollCycleDeps) (page : Text) (events : List RpcEvent) (rows : List VaultEvent) :
    List VaultEvent :=
  events.foldl (fun rows e => (rowOf deps page e).elim rows fun row => insertVaultEvent row rows) rows

/-- What the databases hold. -/
def Holds (rows : List VaultEvent) (cursor : Option Text) (d : Databases) : Prop :=
  d.rows = rows ∧ d.cursor = cursor

theorem disk_triple :
    Program.Triple (Holds rows cursor) (disk deps) (fun _ => Holds rows cursor) (Holds rows cursor) := by
  intro d hd
  unfold disk
  dsimp only
  cases deps.diskFails d.operations <;> exact hd

theorem persist_triple (row : VaultEvent) :
    Program.Triple (Holds rows cursor) (persist deps row)
      (fun _ => Holds (insertVaultEvent row rows) cursor) (Holds rows cursor) := by
  refine disk_triple.bind fun _ => ?_
  refine Program.Triple.modify fun d hd => ?_
  exact ⟨congrArg (insertVaultEvent row) hd.1, hd.2⟩

/-- A page is stored but for the events at which the database fails. -/
theorem persistAll_triple (page : Text) (events : List RpcEvent) :
    Program.Triple (Holds rows cursor) (persistAll deps page events)
      (fun failed d => ∃ kept : List RpcEvent, kept.Sublist events ∧ (failed = false → kept = events) ∧
        Holds (storeAll deps page kept rows) cursor d) (fun _ => False) := by
  induction events generalizing rows with
  | nil => exact .pure fun d hd => ⟨[], .slnil, fun _ => rfl, hd⟩
  | cons e events ih =>
    unfold persistAll
    -- the event is stored, or it is not and the failure is noted
    refine Program.Triple.bind (Q := fun failed d =>
      (Holds (storeAll deps page [e] rows) cursor d) ∨ (failed = true ∧ Holds rows cursor d)) ?_ ?_
    · cases hrow : rowOf deps page e with
      | none =>
        refine .pure fun d hd => .inl ?_
        simpa [storeAll, hrow] using hd
      | some row =>
        refine Program.Triple.tryCatch (E := Holds rows cursor) ?_ fun _ =>
          .pure fun d hd => .inr ⟨rfl, hd⟩
        refine (persist_triple row).bind fun _ => .pure fun d hd => .inl ?_
        simpa [storeAll, hrow] using hd
    · intro failed d hd
      rcases hd with hd | ⟨rfl, hd⟩
      · refine (ih.bind (R := _) fun later => .pure fun d' hd' => ?_) d hd
        obtain ⟨kept, hsub, hall, hd'⟩ := hd'
        refine ⟨e :: kept, hsub.cons_cons e, fun hok => ?_, hd'⟩
        rw [Bool.or_eq_false_iff] at hok
        rw [hall hok.2]
      · refine (ih.bind (R := _) fun later => .pure fun d' hd' => ?_) d hd
        obtain ⟨kept, hsub, -, hd'⟩ := hd'
        exact ⟨kept, hsub.cons e, fun hok => (by cases hok), hd'⟩

/-- A cycle has stored nothing, or events of the page; then the cursor has moved only if it stored all. -/
def Progress (deps : PollCycleDeps) (start : Text) (rows : List VaultEvent) (d : Databases) : Prop :=
  Holds rows (some start) d ∨ ∃ response, deps.getEvents (.after start) = .ok response ∧
    ∃ kept : List RpcEvent, kept.Sublist response.events ∧ d.rows = storeAll deps response.cursor kept rows ∧
      (d.cursor = some start ∨ d.cursor = some response.cursor ∧ kept = response.events)

theorem readCursor_triple (start : Text) :
    Program.Triple (Holds rows (some start)) (readCursor deps)
      (fun persisted d => persisted = some start ∧ Holds rows (some start) d)
      (Holds rows (some start)) := by
  refine disk_triple.bind fun _ => Program.Triple.get.bind fun d => .pure fun d' hd => ?_
  obtain ⟨rfl, hd⟩ := hd
  exact ⟨hd.2, hd⟩

theorem writeCursor_triple (page : Text) :
    Program.Triple (Holds rows cursor) (writeCursor deps page) (fun _ => Holds rows (some page))
      (Holds rows cursor) := by
  refine (Program.Triple.ofExcept (Q := fun _ => Holds rows cursor) (fun _ _ d hd => hd)
    fun d hd => hd).bind fun _ => ?_
  refine disk_triple.bind fun _ => Program.Triple.modify fun d hd => ?_
  exact ⟨hd.1, rfl⟩

theorem runVaultPollCycle_triple (start : Text) :
    Program.Triple (Holds rows (some start)) (runVaultPollCycle deps)
      (fun _ => Progress deps start rows) (Progress deps start rows) := by
  refine ((readCursor_triple start).conseq (fun _ h => h) (fun _ _ h => h) fun _ h => .inl h).bind
    fun persisted => ?_
  rintro d ⟨rfl, hd⟩
  refine Program.Triple.bind (Q := fun response d =>
    deps.getEvents (.after start) = .ok response ∧ Holds rows (some start) d)
    (.ofExcept (fun response hok d hd => ⟨hok, hd⟩) fun d hd => .inl hd) (fun response => ?_) d hd
  rintro d ⟨hok, hd⟩
  refine ((persistAll_triple response.cursor response.events).conseq (fun _ h => h) (fun _ _ h => h)
    fun _ h => h.elim).bind (R := _) (fun failed => ?_) d hd
  rintro d ⟨kept, hsub, hall, hd⟩
  cases failed with
  | true => exact .inr ⟨response, hok, kept, hsub, hd.1, .inl hd.2⟩
  | false =>
    refine ((writeCursor_triple response.cursor).conseq (fun _ h => h) (fun _ d hd => ?_)
      fun d hd => ?_) d hd
    · exact .inr ⟨response, hok, kept, hsub, hd.1, .inr ⟨hd.2, hall rfl⟩⟩
    · exact .inr ⟨response, hok, kept, hsub, hd.1, .inl hd.2⟩

end Cycle

/-! ## The table -/

section Table

variable {deps : PollCycleDeps} {page : Text} {rows : List VaultEvent} {stored : List RpcEvent}

theorem rowOf_fact (hdecode : deps.decodeEvent = decodeVaultEvent) (e : RpcEvent) :
    (rowOf deps page e).map VaultEvent.fact = e.fact := by
  unfold rowOf RpcEvent.fact
  rw [hdecode]
  rcases decodeVaultEvent e with ⟨_ | kind, _ | depositor, _ | amountStroops⟩
  case some.some.some =>
    dsimp only
    split_ifs <;> rfl
  all_goals rfl

theorem sameKey_iff {row r : VaultEvent} : row.sameKey r = true ↔
    r.txHash = row.txHash ∧ r.depositor = row.depositor ∧ r.kind = row.kind ∧
      r.amountStroops = row.amountStroops := by
  simp only [VaultEvent.sameKey, Bool.and_eq_true, decide_eq_true_iff, and_assoc]

/-- The rows are those of some events, each once. -/
structure Stored (rows : List VaultEvent) (stored : List RpcEvent) : Prop where
  facts : rows.map VaultEvent.fact = stored.filterMap RpcEvent.fact
  nodup : stored.Nodup
  isSome : ∀ e ∈ stored, e.fact.isSome = true

/-- Among distinct events, the key tells whether an event is stored. -/
theorem Stored.any_sameKey (h : Stored rows stored) {events : List RpcEvent} (hdistinct : Distinct events)
    (hsub : stored ⊆ events) {e : RpcEvent} (he : e ∈ events) {row : VaultEvent}
    (hrow : e.fact = some row.fact) : rows.any row.sameKey = true ↔ e ∈ stored := by
  rw [List.any_eq_true]
  constructor
  · rintro ⟨r, hr, hkey⟩
    obtain ⟨htx, hdepositor, hkind, hamount⟩ := sameKey_iff.mp hkey
    have hfact : r.fact ∈ stored.filterMap RpcEvent.fact := h.facts ▸ List.mem_map_of_mem hr
    obtain ⟨e', he', hr'⟩ := List.mem_filterMap.mp hfact
    have hsame : e' = e :=
      hdistinct e' (hsub he') e he r.fact hr' row.fact hrow htx hdepositor hkind hamount
    exact hsame ▸ he'
  · intro hstored
    have hfact : row.fact ∈ rows.map VaultEvent.fact :=
      h.facts ▸ List.mem_filterMap.mpr ⟨e, hstored, hrow⟩
    obtain ⟨r, hr, hr'⟩ := List.mem_map.mp hfact
    refine ⟨r, hr, sameKey_iff.mpr ⟨?_, ?_, ?_, ?_⟩⟩
    · exact congrArg VaultFact.txHash hr'
    · exact congrArg VaultFact.depositor hr'
    · exact congrArg VaultFact.kind hr'
    · exact congrArg VaultFact.amountStroops hr'

theorem Stored.insert (h : Stored rows stored) {events : List RpcEvent} (hdistinct : Distinct events)
    (hsub : stored ⊆ events) {e : RpcEvent} (he : e ∈ events) {row : VaultEvent}
    (hrow : e.fact = some row.fact) :
    Stored (insertVaultEvent row rows) (if e ∈ stored then stored else stored ++ [e]) := by
  have hkey := h.any_sameKey hdistinct hsub he hrow
  unfold insertVaultEvent
  by_cases hstored : e ∈ stored
  · rw [if_pos (hkey.mpr hstored), if_pos hstored]
    exact h
  · rw [if_neg fun hany => hstored (hkey.mp hany), if_neg hstored]
    refine ⟨?_, ?_, ?_⟩
    · rw [List.map_append, List.filterMap_append, h.facts, List.filterMap_cons_some hrow]
      rfl
    · refine List.nodup_append.mpr ⟨h.nodup, List.nodup_singleton e, fun a ha b hb hab => ?_⟩
      rw [List.mem_singleton.mp hb] at hab
      exact hstored (hab ▸ ha)
    · intro x hx
      rcases List.mem_append.mp hx with hx | hx
      · exact h.isSome x hx
      · rw [List.mem_singleton.mp hx, hrow]
        rfl

/-- Storing a page of distinct events adds those that are deposits or withdrawals. -/
theorem Stored.storeAll (hdecode : deps.decodeEvent = decodeVaultEvent) {events : List RpcEvent}
    (hdistinct : Distinct events) {kept : List RpcEvent} (hkept : kept ⊆ events) (h : Stored rows stored)
    (hsub : stored ⊆ events) :
    ∃ stored', Stored (storeAll deps page kept rows) stored' ∧ stored ⊆ stored' ∧
      (∀ e ∈ kept, e.fact.isSome = true → e ∈ stored') ∧ ∀ e ∈ stored', e ∈ stored ∨ e ∈ kept := by
  induction kept generalizing rows stored with
  | nil => exact ⟨stored, h, List.Subset.refl _, fun e he => (by cases he), fun e he => .inl he⟩
  | cons e kept ih =>
    obtain ⟨he, hkept⟩ := List.cons_subset.mp hkept
    have hfact : (rowOf deps page e).map VaultEvent.fact = e.fact := rowOf_fact hdecode e
    change ∃ stored', Stored (Vault.storeAll deps page kept ((rowOf deps page e).elim rows _)) stored' ∧ _
    cases hrow : rowOf deps page e with
    | none =>
      rw [hrow] at hfact
      obtain ⟨stored', h', hgrows, hadded, hfrom⟩ := ih hkept h hsub
      refine ⟨stored', h', hgrows, List.forall_mem_cons.mpr ⟨fun hsome => ?_, hadded⟩, fun x hx =>
        (hfrom x hx).imp_right (List.mem_cons_of_mem _)⟩
      rw [← hfact] at hsome
      cases hsome
    | some row =>
      rw [hrow] at hfact
      have hinsert := h.insert hdistinct hsub he hfact.symm
      generalize hone : (if e ∈ stored then stored else stored ++ [e]) = one at hinsert
      have hmem : ∀ x, x ∈ one ↔ x ∈ stored ∨ x = e := by
        intro x
        rw [← hone]
        split_ifs with hstored
        · refine ⟨.inl, fun hx => ?_⟩
          rcases hx with hx | rfl
          · exact hx
          · exact hstored
        · rw [List.mem_append, List.mem_singleton]
      have hone_sub : one ⊆ events := fun x hx => by
        rcases (hmem x).mp hx with hx | rfl
        · exact hsub hx
        · exact he
      obtain ⟨stored', h', hgrows, hadded, hfrom⟩ := ih hkept hinsert hone_sub
      refine ⟨stored', h', fun x hx => hgrows ((hmem x).mpr (.inl hx)),
        List.forall_mem_cons.mpr ⟨fun _ => hgrows ((hmem e).mpr (.inr rfl)), hadded⟩, fun x hx => ?_⟩
      rcases hfrom x hx with hx | hx
      · refine ((hmem x).mp hx).imp_right ?_
        rintro rfl
        exact List.mem_cons_self
      · exact .inr (List.mem_cons_of_mem _ hx)

end Table

/-! ## Runs -/

section Runs

variable {start : Text} {s : Watch}

/-- A cursor that is the start, or points into the chain. -/
def Behind (start : Text) (s : Watch) (x : Text) : Prop :=
  x = start ∨ isValidCursor x = true ∧ ledgerOfCursor x ≤ s.latest

/-- The rows are those of `stored`, events since the start up to the furthest answer of RPC, with all up
to the cursor. -/
structure Follows (start : Text) (s : Watch) (cursor furthest : Text) (stored : List RpcEvent) : Prop where
  sorted : Sorted textLt RpcEvent.id s.log
  ids : ∀ e ∈ s.log, isValidCursor e.id = true ∧ e.ledger = ledgerOfCursor e.id ∧ e.ledger ≤ s.latest
  cursor_eq : s.cursor = some cursor
  start_le : textLt cursor start = false
  cursor_le : textLt furthest cursor = false
  cursor_behind : Behind start s cursor
  furthest_behind : Behind start s furthest
  rows_stored : Stored s.rows stored
  within : stored ⊆ span textLt RpcEvent.id start furthest s.log
  complete : ∀ e ∈ span textLt RpcEvent.id start cursor s.log, e.fact.isSome = true → e ∈ stored
  distinct : Distinct (span textLt RpcEvent.id start furthest s.log)

/-- Ledgers that close do not change what was up to a cursor. -/
theorem span_close {events : List RpcEvent} {latest : Nat} (hnext : s.Next events latest) {x : Text}
    (hx : Behind start s x) :
    span textLt RpcEvent.id start x (s.log ++ events) = span textLt RpcEvent.id start x s.log := by
  rcases hx with rfl | ⟨hvalid, hledger⟩
  · rw [span_self, span_self]
  · refine span_append_new fun e he => ?_
    obtain ⟨hid, hle, hlater, -⟩ := hnext.2.2 e he
    exact cursor_lt_of_ledger hvalid hid (by omega)

theorem Follows.close {cursor furthest : Text} {stored : List RpcEvent}
    (h : Follows start s cursor furthest stored) {events : List RpcEvent} {latest : Nat}
    (hnext : s.Next events latest) :
    Follows start { s with log := s.log ++ events, latest } cursor furthest stored := by
  have hcursor := span_close hnext h.cursor_behind
  have hfurthest := span_close hnext h.furthest_behind
  obtain ⟨hsorted, hlatest, hevents⟩ := hnext
  have hbehind : ∀ {x}, Behind start s x → Behind start { s with log := s.log ++ events, latest } x :=
    fun hx => hx.imp_right fun hx => ⟨hx.1, hx.2.trans hlatest⟩
  refine
    { h with
      sorted := ?_
      ids := fun e he => ?_
      cursor_behind := hbehind h.cursor_behind
      furthest_behind := hbehind h.furthest_behind
      within := hfurthest ▸ h.within
      complete := hcursor ▸ h.complete
      distinct := hfurthest ▸ h.distinct }
  · refine List.pairwise_append.mpr ⟨h.sorted, hsorted, fun e he e' he' => ?_⟩
    obtain ⟨hid, hledger, hle⟩ := h.ids e he
    obtain ⟨hid', hledger', hlater, -⟩ := hevents e' he'
    exact cursor_lt_of_ledger hid hid' (by omega)
  · rcases List.mem_append.mp he with he | he
    · obtain ⟨hid, hledger, hle⟩ := h.ids e he
      exact ⟨hid, hledger, hle.trans hlatest⟩
    · obtain ⟨hid, hledger, -, hle⟩ := hevents e he
      exact ⟨hid, hledger, hle⟩

/-- The further one of two cursors. -/
theorem further (a b : Text) : ∃ x, (x = a ∨ x = b) ∧ textLt x a = false ∧ textLt x b = false := by
  cases hlt : textLt a b with
  | false => exact ⟨a, .inl rfl, textLt_irrefl a, hlt⟩
  | true =>
    refine ⟨b, .inr rfl, ?_, textLt_irrefl b⟩
    by_contra hback
    have := textLt_trans hlt ((Bool.not_eq_false _).mp hback)
    rw [textLt_irrefl] at this
    cases this

theorem Follows.poll {cursor furthest : Text} {stored : List RpcEvent}
    (h : Follows start s cursor furthest stored) {answer : Option Text} {diskFails : Nat → Option Text}
    (hanswers : ∀ x ∈ answer, s.Answers x) (htold : Told start s (.poll answer diskFails)) :
    ∃ cursor' furthest' stored', Follows start (s.poll answer diskFails) cursor' furthest' stored' := by
  have hprogress : Progress (s.deps answer diskFails) cursor s.rows
      (runVaultPollCycle (s.deps answer diskFails) { rows := s.rows, cursor := s.cursor, operations := 0 }).2 :=
    (runVaultPollCycle_triple cursor).final ⟨rfl, h.cursor_eq⟩
  unfold Watch.poll
  generalize (runVaultPollCycle (s.deps answer diskFails)
    { rows := s.rows, cursor := s.cursor, operations := 0 }).2 = d at *
  dsimp only
  rcases hprogress with ⟨hrows, hcursor⟩ | ⟨response, hok, kept, hsub, hrows, hcursor⟩
  · exact ⟨cursor, furthest, stored, { h with cursor_eq := hcursor, rows_stored := by rw [hrows]; exact h.rows_stored }⟩
  · cases answer with
    | none => cases hok
    | some a =>
      cases hok
      obtain ⟨hvalid, hledger, hforward⟩ := hanswers a rfl
      have hforward := hforward cursor h.cursor_eq
      have hstart : textLt a start = false := textLt_le_trans hforward h.start_le
      -- the page, and everything stored before, is up to the furthest answer now
      obtain ⟨x, hx, hxf, hxa⟩ := further furthest a
      have hpage : span textLt RpcEvent.id cursor a s.log ⊆ span textLt RpcEvent.id start x s.log :=
        List.Subset.trans (span_subset_left textLt_order h.start_le) (span_subset_right textLt_order hxa)
      have hwithin : stored ⊆ span textLt RpcEvent.id start x s.log :=
        List.Subset.trans h.within (span_subset_right textLt_order hxf)
      have hdistinct : Distinct (span textLt RpcEvent.id start x s.log) := by
        rcases hx with rfl | rfl
        · exact h.distinct
        · exact htold
      have hbehind : Behind start s x := by
        rcases hx with rfl | rfl
        · exact h.furthest_behind
        · exact .inr ⟨hvalid, hledger⟩
      obtain ⟨stored', hstored, hgrows, hadded, hfrom⟩ := @Stored.storeAll (s.deps (some a) diskFails) a _ _
        rfl _ hdistinct kept (List.Subset.trans hsub.subset hpage) h.rows_stored hwithin
      rw [← hrows] at hstored
      have hwithin' : stored' ⊆ span textLt RpcEvent.id start x s.log := fun e he =>
        (hfrom e he).elim (fun he => hwithin he) fun he => hpage (hsub.subset he)
      rcases hcursor with hcursor | ⟨hcursor, hall⟩
      · exact ⟨cursor, x, stored',
          { h with
            cursor_eq := hcursor
            cursor_le := textLt_le_trans hxf h.cursor_le
            furthest_behind := hbehind
            rows_stored := hstored
            within := hwithin'
            complete := fun e he hsome => hgrows (h.complete e he hsome)
            distinct := hdistinct }⟩
      · refine ⟨a, x, stored',
          { h with
            cursor_eq := hcursor
            start_le := hstart
            cursor_le := hxa
            cursor_behind := .inr ⟨hvalid, hledger⟩
            furthest_behind := hbehind
            rows_stored := hstored
            within := hwithin'
            complete := fun e he hsome => ?_
            distinct := hdistinct }⟩
        rw [← span_append_span textLt_order h.sorted h.start_le hforward] at he
        rcases List.mem_append.mp he with he | he
        · exact hgrows (h.complete e he hsome)
        · exact hadded e (hall ▸ he) hsome

/-- What follows the events is exact. -/
theorem Follows.exact {cursor furthest : Text} {stored : List RpcEvent}
    (h : Follows start s cursor furthest stored) : s.Exact start := by
  let later := s.log.filter fun e => textLt cursor e.id && decide (e ∈ stored)
  have hlater : later.Sublist (s.log.filter fun e => textLt cursor e.id) := by
    have := (List.filter_sublist (p := fun e => decide (e ∈ stored))
      (l := s.log.filter fun e => textLt cursor e.id))
    rw [List.filter_filter] at this
    simpa only [later, Bool.and_comm] using this
  refine ⟨cursor, h.cursor_eq, later, hlater, ?_⟩
  have hperm : stored.Perm
      ((span textLt RpcEvent.id start cursor s.log ++ later).filter fun e => e.fact.isSome) := by
    have hnodup := h.sorted.nodup textLt_order
    refine (List.perm_ext_iff_of_nodup h.rows_stored.nodup (List.Nodup.filter _ ?_)).mpr fun e => ?_
    · refine List.nodup_append.mpr ⟨hnodup.filter _, hnodup.filter _, fun e he e' he' heq => ?_⟩
      subst heq
      have hafter := (Bool.and_eq_true _ _ ▸ (List.mem_filter.mp he').2).1
      rw [(mem_span.mp he).2.2] at hafter
      cases hafter
    · rw [List.mem_filter, List.mem_append]
      constructor
      · intro he
        refine ⟨?_, h.rows_stored.isSome e he⟩
        obtain ⟨hlog, hafter, -⟩ := mem_span.mp (h.within he)
        cases hcursor : textLt cursor e.id with
        | false => exact .inl (mem_span.mpr ⟨hlog, hafter, hcursor⟩)
        | true => exact .inr (List.mem_filter.mpr ⟨hlog, by rw [hcursor, decide_eq_true he]; rfl⟩)
      · rintro ⟨he | he, hsome⟩
        · exact h.complete e he hsome
        · exact of_decide_eq_true (Bool.and_eq_true _ _ ▸ (List.mem_filter.mp he).2).2
  have hfacts : (readAllVaultEvents s.rows).map VaultEvent.fact |>.Perm (stored.filterMap RpcEvent.fact) := by
    rw [← h.rows_stored.facts]
    exact (List.mergeSort_perm _ _).map _
  refine hfacts.trans ((hperm.filterMap _).trans ?_)
  rw [← List.filterMap_append, filterMap_filter_isSome]

end Runs

/-- While every poll is answered with no two alike, the stored rows are the deposits and withdrawals from
the start up to the cursor, and perhaps some after it, each once; so are the sums over them. -/
theorem stored_once {start : Text} {s : Watch} (h : Runs.Via (watcher start) (Told start) s) :
    ∃ cursor, s.cursor = some cursor ∧ ∃ extra : List RpcEvent,
      extra.Sublist (s.log.filter fun e => textLt cursor e.id) ∧
      ((readAllVaultEvents s.rows).map VaultEvent.fact).Perm
        ((span textLt RpcEvent.id start cursor s.log).filterMap RpcEvent.fact
          ++ extra.filterMap RpcEvent.fact) ∧
      ∀ amount : VaultFact → Int, ((readAllVaultEvents s.rows).map fun row => amount row.fact).sum
        = (((span textLt RpcEvent.id start cursor s.log).filterMap RpcEvent.fact).map amount).sum
          + ((extra.filterMap RpcEvent.fact).map amount).sum := by
  have hfollows : ∃ cursor furthest stored, Follows start s cursor furthest stored := by
    refine h.invariant (I := fun s => ∃ cursor furthest stored, Follows start s cursor furthest stored) ?_ ?_
    · rintro s ⟨hrows, hcursor, hsorted, hids⟩
      have hnone : span textLt RpcEvent.id start start s.log = [] := span_self s.log
      exact ⟨start, start, [],
        { sorted := hsorted
          ids := hids
          cursor_eq := hcursor
          start_le := textLt_irrefl start
          cursor_le := textLt_irrefl start
          cursor_behind := .inl rfl
          furthest_behind := .inl rfl
          rows_stored := ⟨by rw [hrows]; rfl, List.nodup_nil, fun e he => (by cases he)⟩
          within := List.nil_subset _
          complete := fun e he => by rw [hnone] at he; cases he
          distinct := fun e he => by rw [hnone] at he; cases he }⟩
    · rintro s label s' ⟨cursor, furthest, stored, hfollows⟩ htold hstep
      cases label with
      | close events latest =>
        simp only [watcher, Option.ite_none_right_eq_some, Option.some.injEq] at hstep
        obtain ⟨hnext, rfl⟩ := hstep
        exact ⟨cursor, furthest, stored, hfollows.close hnext⟩
      | poll answer diskFails =>
        simp only [watcher, Option.ite_none_right_eq_some, Option.some.injEq] at hstep
        obtain ⟨hanswers, rfl⟩ := hstep
        exact hfollows.poll hanswers htold
  obtain ⟨cursor, furthest, stored, hfollows⟩ := hfollows
  obtain ⟨cursor, hcursor, extra, hextra, hperm⟩ := hfollows.exact
  refine ⟨cursor, hcursor, extra, hextra, hperm, fun amount => ?_⟩
  have hsum := (hperm.map amount).sum_eq
  rw [List.map_append, List.sum_append, List.map_map] at hsum
  exact hsum

namespace Demo

def start : Text := "0004294967296000000-0000000000".toList

/-- The end of the ledger after it. -/
def answer : Text := "0004294967300000000-0000000000".toList

/-- A deposit of 100 USDC, an event of a transaction in ledger 1000000. -/
def deposit (index txHash : Text) : RpcEvent where
  id := "0004294967296004096-".toList ++ index
  topic := [some CONTRACT_TAG, some DEPOSIT_TOPIC]
  value :=
    { depositor := some "GALICE".toList, withdrawer := none, amounts := some [1000000000]
      amountsWithdrawn := none }
  ledger := 1000000
  ledgerClosedAt := 1790817602000
  txHash

/-- Two deposits. -/
def log (txHash txHash' : Text) : List RpcEvent :=
  [deposit "0000000000".toList txHash, deposit "0000000001".toList txHash']

def init (txHash txHash' : Text) : Watch where
  log := log txHash txHash'
  latest := 1000001
  rows := []
  cursor := some start

/-- After one poll. -/
def polled (txHash txHash' : Text) : Watch := (init txHash txHash').poll (some answer) fun _ => none

theorem id_facts : isValidCursor "0004294967296004096-0000000000".toList = true ∧
    isValidCursor "0004294967296004096-0000000001".toList = true ∧
    ledgerOfCursor "0004294967296004096-0000000000".toList = 1000000 ∧
    ledgerOfCursor "0004294967296004096-0000000001".toList = 1000000 ∧
    textLt "0004294967296004096-0000000000".toList "0004294967296004096-0000000001".toList = true := by
  decide

theorem via_polled {P : Watch → Label → Prop} {txHash txHash' : Text}
    (hp : P (init txHash txHash') (.poll (some answer) fun _ => none)) :
    Runs.Via (watcher start) P (polled txHash txHash') := by
  obtain ⟨hvalid, hvalid', hledger, hledger', hlt⟩ := id_facts
  have hinit : Runs.Via (watcher start) P (init txHash txHash') := by
    refine .init ⟨rfl, rfl, ?_, ?_⟩
    · refine List.pairwise_cons.mpr ⟨fun e he => ?_, List.pairwise_singleton _ _⟩
      rw [List.mem_singleton.mp he]
      exact hlt
    · refine List.forall_mem_cons.mpr ⟨⟨hvalid, hledger.symm, ?_⟩,
        List.forall_mem_singleton.mpr ⟨hvalid', hledger'.symm, ?_⟩⟩
      · exact (by decide : 1000000 ≤ 1000001)
      · exact (by decide : 1000000 ≤ 1000001)
  have hanswer : isValidCursor answer = true ∧ ledgerOfCursor answer ≤ 1000001 ∧
      textLt answer start = false := by decide
  have hanswers : ∀ x ∈ some answer, (init txHash txHash').Answers x := by
    rintro x ⟨⟩
    refine ⟨hanswer.1, hanswer.2.1, ?_⟩
    rintro x ⟨⟩
    exact hanswer.2.2
  refine hinit.step hp ?_
  rw [watcher]
  dsimp only
  rw [if_pos hanswers]
  rfl

end Demo

/-- Two deposits that are alike, but for their transactions. -/
theorem stored_once_deposits :
    ∃ cursor, (Demo.polled "a1".toList "b2".toList).cursor = some cursor ∧
      ((readAllVaultEvents (Demo.polled "a1".toList "b2".toList).rows).map VaultEvent.fact).length
        = ((span textLt RpcEvent.id Demo.start cursor (Demo.log "a1".toList "b2".toList)).filterMap
            RpcEvent.fact).length := by
  have htold : Told Demo.start (Demo.init "a1".toList "b2".toList) (.poll (some Demo.answer) fun _ => none) := by
    have hspan : ∀ e ∈ span textLt RpcEvent.id Demo.start Demo.answer (Demo.log "a1".toList "b2".toList),
        e = Demo.deposit "0000000000".toList "a1".toList ∨
          e = Demo.deposit "0000000001".toList "b2".toList := fun e he => by
      simpa [Demo.log] using (mem_span.mp he).1
    intro e he e' he' f hf f' hf' htx _ _ _
    rcases hspan e he with rfl | rfl <;> rcases hspan e' he' with rfl | rfl <;> cases hf <;> cases hf'
    · rfl
    · exact absurd htx (by decide)
    · exact absurd htx (by decide)
    · rfl
  obtain ⟨cursor, hcursor, extra, hextra, hperm, -⟩ := stored_once (Demo.via_polled htold)
  refine ⟨cursor, hcursor, ?_⟩
  cases hcursor
  have hnone : ((Demo.polled "a1".toList "b2".toList).log.filter fun e => textLt Demo.answer e.id) = [] := by
    decide
  rw [hnone, List.sublist_nil] at hextra
  subst hextra
  rw [hperm.length_eq, List.filterMap_nil, List.append_nil]
  rfl

/-- Two deposits of one transaction that are alike leave one row. -/
theorem deposit_lost :
    Runs.Reachable (watcher Demo.start) (Demo.polled "a1".toList "a1".toList) ∧
      ¬ (Demo.polled "a1".toList "a1".toList).Exact Demo.start := by
  refine ⟨Demo.via_polled trivial, ?_⟩
  rintro ⟨cursor, hcursor, extra, -, hperm⟩
  cases hcursor
  have hlength := hperm.length_eq
  rw [List.length_map, readAllVaultEvents, List.length_mergeSort, List.length_append] at hlength
  have hrows : (Demo.polled "a1".toList "a1".toList).rows.length = 1 := by decide
  have hspan : ((span textLt RpcEvent.id Demo.start Demo.answer
      (Demo.polled "a1".toList "a1".toList).log).filterMap RpcEvent.fact).length = 2 := by decide
  change _ = ((span textLt RpcEvent.id Demo.start Demo.answer _).filterMap _).length + _ at hlength
  omega

end Writz.Relayer.Vault

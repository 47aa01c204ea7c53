import Writz.Relayer.DepositReads.System
import Writz.Relayer.Proofs.Archive

/-!
# Proofs: the index of position events

The index holds the records of some events of the log, in its order. A walk adds those of each page, which
come after all it holds; so a restart adds none twice.
-/

namespace Writz.Relayer.DepositReads

open Node EventLog

variable {options : PositionEventIndexOptions}

/-! ## The lists of the positions -/

section Lists

variable {index : PositionEventIndex} {held : List RpcEvent}

/-- Each position has the records of its events among `held`. -/
def Indexed (options : PositionEventIndexOptions) (index : PositionEventIndex) (held : List RpcEvent) :
    Prop :=
  ∀ txid, index.recordsOf txid = held.filterMap (recordOf options txid)

theorem recordOf_eq {txid : Text} {e : RpcEvent} {d : DecodedPositionEvent}
    (hd : options.decode e = some d) :
    recordOf options txid e = if d.txid = txid then
      some { d with stellarTxHash := e.txHash, ledger := e.ledger, ledgerClosedAt := e.ledgerClosedAt }
      else none := by
  rw [recordOf, hd]

theorem recordOf_none {txid : Text} {e : RpcEvent} (hd : options.decode e = none) :
    recordOf options txid e = none := by
  rw [recordOf, hd]

theorem mem_recordsOf {txid : Text} {r : PositionEventRecord}
    (h : r ∈ held.filterMap (recordOf options txid)) :
    ∃ e ∈ held, ∃ d, options.decode e = some d ∧ d.txid = txid ∧ r.kind = d.kind ∧
      r.stellarTxHash = e.txHash := by
  obtain ⟨e, he, hr⟩ := List.mem_filterMap.mp h
  cases hd : options.decode e with
  | none =>
    rw [recordOf_none hd] at hr
    cases hr
  | some d =>
    rw [recordOf_eq hd] at hr
    split_ifs at hr with htxid
    cases hr
    exact ⟨e, he, d, hd, htxid, rfl, rfl⟩

/-- Only the lists change. -/
theorem addEvent_others (e : RpcEvent) :
    (index.addEvent options e).cursor = index.cursor ∧
      (index.addEvent options e).inflight = index.inflight := by
  unfold PositionEventIndex.addEvent
  split
  · exact ⟨rfl, rfl⟩
  · dsimp only
    split_ifs <;> exact ⟨rfl, rfl⟩

/-- Among events of which no two are alike, a new one is added. -/
theorem Indexed.addEvent (h : Indexed options index held) {events : List RpcEvent}
    (hdistinct : Distinct options events) (hsub : held ⊆ events) {e : RpcEvent} (he : e ∈ events)
    (hnew : e ∉ held) : Indexed options (index.addEvent options e) (held ++ [e]) := by
  intro txid
  rw [List.filterMap_append, ← h txid]
  cases hd : options.decode e with
  | none =>
    have hnone : [e].filterMap (recordOf options txid) = [] := by
      rw [List.filterMap_cons_none (recordOf_none hd), List.filterMap_nil]
    rw [hnone, List.append_nil, PositionEventIndex.addEvent, hd]
  | some d =>
    -- no record is of its kind and transaction
    have hfresh : ((index.recordsOf d.txid).any fun r =>
        decide (r.kind = d.kind) && decide (r.stellarTxHash = e.txHash)) = false := by
      rw [List.any_eq_false]
      intro r hr hsame
      rw [Bool.and_eq_true, decide_eq_true_iff, decide_eq_true_iff] at hsame
      rw [h d.txid] at hr
      obtain ⟨e', he', d', hd', htxid, hkind, htx⟩ := mem_recordsOf hr
      have : e' = e := hdistinct e' (hsub he') e he d' hd' d hd htxid (hkind ▸ hsame.1)
        (htx ▸ hsame.2)
      exact hnew (this ▸ he')
    rw [PositionEventIndex.addEvent, hd]
    dsimp only
    rw [hfresh, if_neg (by decide)]
    change ((index.records.set d.txid _).get txid).getD [] = _
    rw [JsMap.get_set]
    by_cases htxid : d.txid = txid
    · subst htxid
      rw [if_pos rfl, Option.getD_some, List.filterMap_cons_some (b := _)
        ((recordOf_eq hd).trans (if_pos rfl)), List.filterMap_nil]
    · rw [if_neg htxid, List.filterMap_cons_none ((recordOf_eq hd).trans (if_neg htxid)),
        List.filterMap_nil, List.append_nil]
      rfl

/-- And so are all of a page. -/
theorem Indexed.addEvents {events page : List RpcEvent} (hdistinct : Distinct options events)
    (hpage : page ⊆ events) (hnodup : (held ++ page).Nodup) (hsub : held ⊆ events)
    (h : Indexed options index held) :
    Indexed options (page.foldl (fun index e => index.addEvent options e) index) (held ++ page) := by
  induction page generalizing index held with
  | nil => rwa [List.append_nil]
  | cons e page ih =>
    obtain ⟨he, hpage⟩ := List.cons_subset.mp hpage
    rw [← List.singleton_append, ← List.append_assoc] at hnodup ⊢
    have hnew : e ∉ held := fun hheld =>
      (List.disjoint_of_nodup_append (List.nodup_append.mp hnodup).1) hheld (List.mem_singleton_self e)
    refine ih hpage hnodup (fun x hx => ?_) (h.addEvent hdistinct hsub he hnew)
    rcases List.mem_append.mp hx with hx | hx
    · exact hsub hx
    · rw [List.mem_singleton.mp hx]
      exact he

theorem addEvents_others (page : List RpcEvent) :
    (page.foldl (fun index e => index.addEvent options e) index).inflight = index.inflight := by
  induction page generalizing index with
  | nil => rfl
  | cons e page ih => exact ih.trans (addEvent_others e).2

end Lists

/-! ## The invariant -/

section Invariant

variable {s : Reader} {held : List RpcEvent}

/-- What a walk that awaits an answer relies on. -/
def StageOk (cursor : Option Text) (oldest : Nat) (held : List RpcEvent) : Stage → Prop
  | .events c => cursor = some c
  | .rejected c => cursor = some c
  | .health => cursor = none
  | .oldest l => cursor = none ∧ l ≤ oldest ∧ ∀ e ∈ held, e.ledger < l

/-- The index has the records of `held`: events up to its cursor, with all of them that RPC retains, or
without a cursor, events that RPC has dropped. -/
structure Reads (options : PositionEventIndexOptions) (s : Reader) (held : List RpcEvent) : Prop where
  sorted : Sorted textLt RpcEvent.id s.log
  ids : ∀ e ∈ s.log, isValidCursor e.id = true ∧ e.ledger = ledgerOfCursor e.id ∧ e.ledger ≤ s.latest
  sublist : held.Sublist s.log
  indexed : Indexed options s.index held
  valid : ∀ c, s.index.cursor = some c → isValidCursor c = true ∧ ledgerOfCursor c ≤ s.latest
  upTo : ∀ c, s.index.cursor = some c → ∀ e ∈ held, textLt c e.id = false
  complete : ∀ c, s.index.cursor = some c → ∀ e ∈ s.log, s.oldest ≤ e.ledger → textLt c e.id = false →
    e ∈ held
  dropped : s.index.cursor = none → ∀ e ∈ held, e.ledger < s.oldest
  stage : ∀ w, s.index.inflight = some w → StageOk s.index.cursor s.oldest held w.stage

theorem stageOk_stageOf (index : PositionEventIndex) (oldest : Nat) (held : List RpcEvent) :
    StageOk index.cursor oldest held index.stageOf := by
  unfold PositionEventIndex.stageOf
  cases index.cursor <;> exact rfl

/-- A walk that starts, goes on or ends leaves lists and cursor, and awaits the next page if anything. -/
theorem returned_others (index : PositionEventIndex) (now : Nat) :
    (index.returned now).records = index.records ∧ (index.returned now).cursor = index.cursor ∧
      ∀ w, (index.returned now).inflight = some w → w.stage = index.stageOf := by
  unfold PositionEventIndex.returned
  dsimp only
  split_ifs
  · refine ⟨rfl, rfl, ?_⟩
    rintro w ⟨⟩
    rfl
  · refine ⟨rfl, rfl, ?_⟩
    rintro w ⟨⟩

theorem nextPage_others (index : PositionEventIndex) (page now : Nat) :
    (index.nextPage page now).records = index.records ∧ (index.nextPage page now).cursor = index.cursor ∧
      ∀ w, (index.nextPage page now).inflight = some w → w.stage = index.stageOf := by
  unfold PositionEventIndex.nextPage
  split_ifs
  · refine ⟨rfl, rfl, ?_⟩
    rintro w ⟨⟩
    rfl
  · exact returned_others index now

/-- The lists and the cursor stay, and the stage is one that may be. -/
theorem Reads.restage (h : Reads options s held) {index : PositionEventIndex}
    (hrecords : index.records = s.index.records) (hcursor : index.cursor = s.index.cursor)
    (hstage : ∀ w, index.inflight = some w → StageOk s.index.cursor s.oldest held w.stage) :
    Reads options { s with index } held where
  sorted := h.sorted
  ids := h.ids
  sublist := h.sublist
  indexed txid := by
    change (index.records.get txid).getD [] = _
    rw [hrecords]
    exact h.indexed txid
  valid c hc := h.valid c (hcursor ▸ hc)
  upTo c hc := h.upTo c (hcursor ▸ hc)
  complete c hc := h.complete c (hcursor ▸ hc)
  dropped hc := h.dropped (hcursor ▸ hc)
  stage w hw := by
    change StageOk index.cursor s.oldest held w.stage
    rw [hcursor]
    exact hstage w hw

/-! ## Steps of the chain -/

theorem Reads.close (h : Reads options s held) {events : List RpcEvent} {latest : Nat}
    (hnext : s.Next events latest) : Reads options { s with log := s.log ++ events, latest } held := by
  obtain ⟨hsorted, hlatest, hevents⟩ := hnext
  refine
    { h with
      sorted := ?_
      ids := fun e he => ?_
      sublist := h.sublist.trans (List.sublist_append_left _ _)
      valid := fun c hc => ⟨(h.valid c hc).1, (h.valid c hc).2.trans hlatest⟩
      complete := fun c hc e he hretained hle => ?_ }
  · refine List.pairwise_append.mpr ⟨h.sorted, hsorted, fun e he e' he' => ?_⟩
    obtain ⟨hid, hledger, hle⟩ := h.ids e he
    obtain ⟨hid', hledger', hlater, -⟩ := hevents e' he'
    exact cursor_lt_of_ledger hid hid' (by omega)
  · rcases List.mem_append.mp he with he | he
    · obtain ⟨hid, hledger, hle⟩ := h.ids e he
      exact ⟨hid, hledger, hle.trans hlatest⟩
    · obtain ⟨hid, hledger, -, hle⟩ := hevents e he
      exact ⟨hid, hledger, hle⟩
  · rcases List.mem_append.mp he with he | he
    · exact h.complete c hc e he hretained hle
    · obtain ⟨hid, hledger, hlater, -⟩ := hevents e he
      obtain ⟨hvalid, hbound⟩ := h.valid c hc
      have hlt := cursor_lt_of_ledger hvalid hid (by omega)
      rw [hlt] at hle
      cases hle

theorem Reads.drop (h : Reads options s held) {oldest : Nat} (hle : s.oldest ≤ oldest) :
    Reads options { s with oldest } held :=
  { h with
    complete := fun c hc e he hretained => h.complete c hc e he (hle.trans hretained)
    dropped := fun hc e he => (h.dropped hc e he).trans_le hle
    stage := fun w hw => by
      have hstage := h.stage w hw
      cases hw' : w.stage with
      | oldest l =>
        rw [hw'] at hstage
        exact ⟨hstage.1, hstage.2.1.trans hle, hstage.2.2⟩
      | _ =>
        rw [hw'] at hstage
        exact hstage }

/-! ## Answers -/

/-- What is asked for comes after everything held. -/
theorem Reads.not_covers (h : Reads options s held) {w : Walk} (hw : s.index.inflight = some w) :
    ∀ e ∈ held, Reader.covers w.stage e = false := by
  intro e he
  have hstage := h.stage w hw
  cases hw' : w.stage with
  | events c =>
    rw [hw'] at hstage
    exact h.upTo c hstage e he
  | oldest l =>
    rw [hw'] at hstage
    exact decide_eq_false (not_le.mpr (hstage.2.2 e he))
  | _ => rfl

theorem Reads.upward_covers (h : Reads options s held) (stage : Stage) :
    Upward (Reader.covers stage) s.log := by
  cases stage with
  | events c => exact h.sorted.upward textLt_order c
  | oldest l =>
    refine (List.Pairwise.and_mem.mp h.sorted).imp fun {e e'} hlt hcovers => ?_
    obtain ⟨he, he', hlt⟩ := hlt
    obtain ⟨hid, hledger, -⟩ := h.ids e he
    obtain ⟨hid', hledger', -⟩ := h.ids e' he'
    have hle : ledgerOfCursor e.id ≤ ledgerOfCursor e'.id := by
      refine ledger_le_of_not_lt hid' hid ?_
      by_contra hback
      have := textLt_trans hlt ((Bool.not_eq_false _).mp hback)
      rw [textLt_irrefl] at this
      cases this
    have := of_decide_eq_true hcovers
    exact decide_eq_true (by omega)
  | _ => exact List.Pairwise.imp (fun _ hfalse => (by cases hfalse)) h.sorted

theorem mem_served {stage : Stage} {cursor : Text} {e : RpcEvent} :
    e ∈ s.served stage cursor ↔
      e ∈ s.log ∧ Reader.covers stage e = true ∧ s.oldest ≤ e.ledger ∧ textLt cursor e.id = false := by
  rw [Reader.served, List.mem_filter, Bool.and_eq_true, Bool.and_eq_true, decide_eq_true_iff,
    Bool.not_eq_true', and_assoc]

/-- A page goes to the end, and brings the cursor up to its own. -/
theorem Reads.addPage (h : Reads options s held) (hdistinct : Distinct options s.log) {w : Walk}
    (hw : s.index.inflight = some w) {cursor : Text} (hserves : s.Serves w.stage cursor) {index : PositionEventIndex}
    (hrecords : index.records = (s.index.addPage options (s.pageUpTo w.stage cursor)).records)
    (hcursor : index.cursor = some cursor)
    (hstage : ∀ w, index.inflight = some w → w.stage = index.stageOf) :
    Reads options { s with index } (held ++ s.served w.stage cursor) := by
  obtain ⟨hvalid, hledger, hfrom, -, -⟩ := hserves
  have hpage : (s.served w.stage cursor).Sublist s.log := List.filter_sublist
  have hsub : (held ++ s.served w.stage cursor).Sublist s.log :=
    (h.upward_covers w.stage).sublist_append h.sublist hpage (h.not_covers hw) fun e he =>
      (mem_served.mp he).2.1
  have hindexed := h.indexed.addEvents hdistinct hpage.subset
    (hsub.nodup (h.sorted.nodup textLt_order)) h.sublist.subset
  refine
    { sorted := h.sorted
      ids := h.ids
      sublist := hsub
      indexed := fun txid => ?_
      valid := fun c hc => ?_
      upTo := fun c hc e he => ?_
      complete := fun c hc e he hretained hle => ?_
      dropped := fun hc => ?_
      stage := fun w hw => ?_ }
  · change (index.records.get txid).getD [] = _
    rw [hrecords]
    exact hindexed txid
  · obtain rfl : cursor = c := Option.some.inj (hcursor.symm.trans hc)
    exact ⟨hvalid, hledger⟩
  · obtain rfl : cursor = c := Option.some.inj (hcursor.symm.trans hc)
    rcases List.mem_append.mp he with he | he
    · have hstage := h.stage w hw
      cases hw' : w.stage with
      | events asked =>
        rw [hw'] at hstage hfrom
        exact textLt_le_trans hfrom (h.upTo asked hstage e he)
      | oldest l =>
        rw [hw'] at hstage hfrom
        obtain ⟨hid, heq, -⟩ := h.ids e (h.sublist.subset he)
        have hlt := hstage.2.2 e he
        exact not_lt_of_ledger hvalid hid (by omega)
      | _ =>
        rw [hw'] at hfrom
        exact hfrom.elim
    · exact (mem_served.mp he).2.2.2
  · obtain rfl : cursor = c := Option.some.inj (hcursor.symm.trans hc)
    cases hcovers : Reader.covers w.stage e with
    | true => exact List.mem_append_right _ (mem_served.mpr ⟨he, hcovers, hretained, hle⟩)
    | false =>
      change s.oldest ≤ e.ledger at hretained
      refine List.mem_append_left _ ?_
      have hstage := h.stage w hw
      cases hw' : w.stage with
      | events asked =>
        rw [hw'] at hstage hcovers
        exact h.complete asked hstage e he hretained hcovers
      | oldest l =>
        rw [hw'] at hstage hcovers
        have := of_decide_eq_false hcovers
        have := hstage.2.1
        omega
      | _ =>
        rw [hw'] at hfrom
        exact hfrom.elim
  · rw [hcursor] at hc
    cases hc
  · rw [hstage w hw]
    exact stageOk_stageOf index s.oldest _

theorem Reads.onPage (h : Reads options s held) (hdistinct : Distinct options s.log) {w : Walk}
    (hw : s.index.inflight = some w) {cursor : Text} (hserves : s.Serves w.stage cursor) (now : Nat) :
    Reads options
      { s with index := s.index.onPage options w.page (s.pageUpTo w.stage cursor) now }
      (held ++ s.served w.stage cursor) := by
  unfold PositionEventIndex.onPage
  dsimp only
  split_ifs
  · obtain ⟨hrecords, hcursor, hstage⟩ :=
      returned_others (s.index.addPage options (s.pageUpTo w.stage cursor)) now
    refine h.addPage hdistinct hw hserves hrecords hcursor fun w' hw' => ?_
    rw [hstage w' hw', PositionEventIndex.stageOf, PositionEventIndex.stageOf, hcursor]
  · obtain ⟨hrecords, hcursor, hstage⟩ :=
      nextPage_others (s.index.addPage options (s.pageUpTo w.stage cursor)) w.page now
    refine h.addPage hdistinct hw hserves hrecords hcursor fun w' hw' => ?_
    rw [hstage w' hw', PositionEventIndex.stageOf, PositionEventIndex.stageOf, hcursor]

/-- A cursor that RPC has dropped is given up. -/
theorem Reads.onHealth_rejected (h : Reads options s held) {page : Nat} {cursor : Text}
    (hw : s.index.inflight = some { page, stage := .rejected cursor }) (now : Nat) :
    Reads options
      { s with index := s.index.onHealth { page, stage := .rejected cursor } s.oldest now } held := by
  have hcursor : s.index.cursor = some cursor := h.stage _ hw
  unfold PositionEventIndex.onHealth
  dsimp only
  split_ifs with hretained
  · exact h.restage rfl rfl fun w hw => (by cases hw)
  · obtain ⟨hrecords, hnone, hstage⟩ :=
      nextPage_others { s.index with cursor := none } page now
    have hdropped : ∀ e ∈ held, e.ledger < s.oldest := by
      intro e he
      obtain ⟨hid, hledger, -⟩ := h.ids e (h.sublist.subset he)
      have := ledger_le_of_not_lt (h.valid cursor hcursor).1 hid (h.upTo cursor hcursor e he)
      omega
    refine
      { sorted := h.sorted
        ids := h.ids
        sublist := h.sublist
        indexed := fun txid => ?_
        valid := fun c hc => ?_
        upTo := fun c hc => ?_
        complete := fun c hc => ?_
        dropped := fun _ => hdropped
        stage := fun w hw => ?_ }
    · change (JsMap.get txid (PositionEventIndex.nextPage _ _ _).records).getD [] = _
      rw [hrecords]
      exact h.indexed txid
    · cases hnone.symm.trans hc
    · cases hnone.symm.trans hc
    · cases hnone.symm.trans hc
    · rw [hstage w hw]
      change StageOk (PositionEventIndex.nextPage _ _ _).cursor s.oldest held _
      rw [hnone]
      exact stageOk_stageOf { s.index with cursor := none } s.oldest held

theorem Reads.onHealth_start (h : Reads options s held) {page : Nat}
    (hw : s.index.inflight = some { page, stage := .health }) (now : Nat) :
    Reads options { s with index := s.index.onHealth { page, stage := .health } s.oldest now } held := by
  have hcursor : s.index.cursor = none := h.stage _ hw
  refine h.restage rfl rfl ?_
  rintro w ⟨⟩
  exact ⟨hcursor, le_rfl, h.dropped hcursor⟩

theorem Reads.onFailure (h : Reads options s held) {w : Walk} (hw : s.index.inflight = some w) :
    Reads options { s with index := s.index.onFailure w } held := by
  have hstage := h.stage w hw
  obtain ⟨page, stage⟩ := w
  cases stage with
  | events c =>
    refine h.restage rfl rfl ?_
    rintro w ⟨⟩
    exact hstage
  | _ => exact h.restage rfl rfl fun w hw => (by cases hw)

theorem Reads.call (h : Reads options s held) (force : Bool) (now : Nat) :
    Reads options { s with index := s.index.refresh options force now } held := by
  unfold PositionEventIndex.refresh
  split
  · exact h
  · cases hw : s.index.inflight with
    | some w =>
      cases force with
      | false => exact h
      | true =>
        refine h.restage rfl rfl ?_
        rintro w' ⟨⟩
        exact h.stage w hw
    | none =>
      refine h.restage rfl rfl ?_
      rintro w ⟨⟩
      exact stageOk_stageOf s.index s.oldest held

/-! ## Runs -/

/-- A step adds to what is held, and keeps the invariant. -/
theorem Reads.step (h : Reads options s held) (hdistinct : Distinct options s.log) {label : Label}
    {s' : Reader} (hstep : (reader options).step s label = some s') :
    ∃ held', Reads options s' held' ∧ held ⊆ held' := by
  cases label with
  | close events latest =>
    simp only [reader, Option.ite_none_right_eq_some, Option.some.injEq] at hstep
    obtain ⟨hnext, rfl⟩ := hstep
    exact ⟨held, h.close hnext, List.Subset.refl _⟩
  | drop oldest =>
    simp only [reader, Option.ite_none_right_eq_some, Option.some.injEq] at hstep
    obtain ⟨hle, rfl⟩ := hstep
    exact ⟨held, h.drop hle, List.Subset.refl _⟩
  | call force now =>
    cases hstep
    exact ⟨held, h.call force now, List.Subset.refl _⟩
  | page cursor now =>
    cases hw : s.index.inflight with
    | none => simp [reader, hw] at hstep
    | some w =>
      simp only [reader, hw, Option.ite_none_right_eq_some, Option.some.injEq] at hstep
      obtain ⟨hserves, rfl⟩ := hstep
      exact ⟨_, h.onPage hdistinct hw hserves now, List.subset_append_left _ _⟩
  | health now =>
    cases hw : s.index.inflight with
    | none => simp [reader, hw] at hstep
    | some w =>
      obtain ⟨page, stage⟩ := w
      cases stage with
      | rejected cursor =>
        simp only [reader, hw, Option.some.injEq] at hstep
        subst hstep
        exact ⟨held, h.onHealth_rejected hw now, List.Subset.refl _⟩
      | health =>
        simp only [reader, hw, Option.some.injEq] at hstep
        subst hstep
        exact ⟨held, h.onHealth_start hw now, List.Subset.refl _⟩
      | _ => simp [reader, hw] at hstep
  | failure =>
    cases hw : s.index.inflight with
    | none => simp [reader, hw] at hstep
    | some w =>
      simp only [reader, hw, Option.map_some, Option.some.injEq] at hstep
      subst hstep
      exact ⟨held, h.onFailure hw, List.Subset.refl _⟩

end Invariant

/-- The log only grows. -/
theorem log_grows {s s' : Reader} {label : Label} (hstep : (reader options).step s label = some s') :
    s.log ⊆ s'.log := by
  cases label with
  | close events latest =>
    simp only [reader, Option.ite_none_right_eq_some, Option.some.injEq] at hstep
    obtain ⟨-, rfl⟩ := hstep
    exact List.subset_append_left _ _
  | drop oldest =>
    simp only [reader, Option.ite_none_right_eq_some, Option.some.injEq] at hstep
    obtain ⟨-, rfl⟩ := hstep
    exact List.Subset.refl _
  | call force now =>
    cases hstep
    exact List.Subset.refl _
  | page cursor now =>
    simp only [reader] at hstep
    split at hstep
    · split_ifs at hstep
      cases hstep
      exact List.Subset.refl _
    · cases hstep
  | health now =>
    simp only [reader] at hstep
    split at hstep <;> cases hstep <;> exact List.Subset.refl _
  | failure =>
    obtain ⟨w, -, rfl⟩ := Option.map_eq_some_iff.mp hstep
    exact List.Subset.refl _

theorem Distinct.mono {log log' : List RpcEvent} (h : Distinct options log') (hsub : log ⊆ log') :
    Distinct options log := fun e he e' he' => h e (hsub he) e' (hsub he')

/-- A walk that has come to the tip has read all that RPC retains. -/
theorem Reads.atTip {s s' : Reader} {held held' : List RpcEvent} {label : Label}
    (h : Reads options s held) (hstep : (reader options).step s label = some s')
    (htip : EndsAtTip ⟨s, label, s'⟩) (h' : Reads options s' held') :
    ∀ e, s'.Retains e → e ∈ held' := by
  cases label with
  | page cursor now =>
    unfold EndsAtTip at htip
    cases hw : s.index.inflight with
    | none => simp [hw] at htip
    | some w =>
      simp only [hw] at htip
      simp only [reader, hw, Option.ite_none_right_eq_some, Option.some.injEq] at hstep
      obtain ⟨hserves, rfl⟩ := hstep
      rintro e ⟨he, hretained⟩
      refine h'.complete cursor ?_ e he hretained ?_
      · change (PositionEventIndex.onPage _ _ _ _ _).cursor = _
        unfold PositionEventIndex.onPage
        dsimp only
        split_ifs
        · exact (returned_others _ now).2.1
        · exact (nextPage_others _ w.page now).2.1
      · have hledger := (h.ids e he).2.2
        exact hserves.2.2.2.2 htip.1 e he (hledger.trans htip.2)
  | _ => exact htip.elim

/-- After a run the index holds all that RPC retained at the end of a walk that came to the tip. -/
theorem reads_of_run {tr : List (Runs.Transition Reader Label)} {s : Reader}
    (h : Runs.Run (reader options) tr s) (hdistinct : Distinct options s.log) :
    ∃ held, Reads options s held ∧ ∀ t ∈ tr, EndsAtTip t → ∀ e, t.post.Retains e → e ∈ held := by
  induction h with
  | init h =>
    obtain ⟨hindex, hsorted, hids⟩ := h
    refine ⟨[],
      { sorted := hsorted
        ids := hids
        sublist := List.nil_sublist _
        indexed := fun txid => ?_
        valid := fun c hc => ?_
        upTo := fun c hc e he => (by cases he)
        complete := fun c hc => ?_
        dropped := fun _ e he => (by cases he)
        stage := fun w hw => ?_ }, fun t ht => (by cases ht)⟩
    · rw [hindex]
      rfl
    all_goals
      rw [hindex] at *
    · cases hc
    · cases hc
    · cases hw
  | step hrun hstep ih =>
    obtain ⟨held, hreads, htold⟩ := ih (hdistinct.mono (log_grows hstep))
    obtain ⟨held', hreads', hsub⟩ := hreads.step (hdistinct.mono (log_grows hstep)) hstep
    refine ⟨held', hreads', List.forall_mem_cons.mpr ⟨fun htip => ?_, fun t ht htip e he =>
      hsub (htold t ht htip e he)⟩⟩
    exact hreads.atTip hstep htip hreads'

/-- The histories are complete, as long as no walk is cut before the tip and no transaction has two events that are
alike. -/
theorem history_complete {tr : List (Runs.Transition Reader Label)} {s : Reader}
    (h : Runs.Run (reader options) tr s) (htips : ∀ t ∈ tr, Resolves t → EndsAtTip t)
    (hdistinct : Distinct options s.log) : HistoryComplete options tr s := by
  intro txidInternal
  obtain ⟨held, hreads, htold⟩ := reads_of_run h hdistinct
  refine ⟨held.filter fun e => (recordOf options (toLowerCase txidInternal) e).isSome,
    List.filter_sublist.trans hreads.sublist, hreads.sorted.nodup textLt_order, fun e he => ?_, ?_, ?_⟩
  · exact (List.mem_filter.mp he).2
  · rw [filterMap_filter_isSome]
    exact hreads.indexed _
  · rintro e hsome ⟨t, ht, hresolves, hretained⟩
    exact List.mem_filter.mpr ⟨htold t ht (htips t ht hresolves) e hretained, hsome⟩

namespace Demo

def indexOptions : PositionEventIndexOptions where
  freshForMs := 5000
  decode := decodePositionEvent

def txid : Bytes := List.replicate 32 7

/-- A partial repayment, an event of a transaction in ledger 1000000. -/
def repay (index txHash : Text) (amount : Int) : RpcEvent where
  id := "0004294967296004096-".toList ++ index
  topic := [.text "repay".toList, .bytes txid]
  value := .fields none none none (some amount)
  txHash
  ledger := 1000000
  ledgerClosedAt := "2026-07-01T00:00:00Z".toList

/-- Two repayments, of the transactions given. -/
def opened (txHash txHash' : Text) : Reader where
  log := [repay "0000000000".toList txHash 10, repay "0000000001".toList txHash' 20]
  oldest := 999990
  latest := 1000001
  index := .empty

/-- The end of the latest ledger. -/
def answer : Text := "0004294971591000000-0000000000".toList

/-! One walk, of one page. -/

section

variable (txHash txHash' : Text)

def called : Reader :=
  { opened txHash txHash' with index := PositionEventIndex.empty.refresh indexOptions false 9000 }

def told : Reader :=
  { opened txHash txHash' with
    index := (called txHash txHash').index.onHealth { page := 0, stage := .health } 999990 9001 }

def walked : Reader :=
  { opened txHash txHash' with
    index := (told txHash txHash').index.onPage indexOptions 0
      ((told txHash txHash').pageUpTo (.oldest 999990) answer) 9002 }

def trace : List (Runs.Transition Reader Label) :=
  [⟨told txHash txHash', .page answer 9002, walked txHash txHash'⟩,
    ⟨called txHash txHash', .health 9001, told txHash txHash'⟩,
    ⟨opened txHash txHash', .call false 9000, called txHash txHash'⟩]

end

variable {txHash txHash' : Text}

theorem run_trace (hserves : (told txHash txHash').Serves (.oldest 999990) answer) :
    Runs.Run (reader indexOptions) (trace txHash txHash') (walked txHash txHash') := by
  have hsorted : Sorted textLt RpcEvent.id (opened txHash txHash').log := by
    refine List.pairwise_pair.mpr ?_
    change textLt "0004294967296004096-0000000000".toList "0004294967296004096-0000000001".toList = true
    decide
  have hids : ∀ e ∈ (opened txHash txHash').log, isValidCursor e.id = true ∧ e.ledger = ledgerOfCursor e.id ∧
      e.ledger ≤ 1000001 := by
    intro e he
    rcases List.mem_pair.mp he with rfl | rfl
    · change isValidCursor "0004294967296004096-0000000000".toList = true ∧
        1000000 = ledgerOfCursor "0004294967296004096-0000000000".toList ∧ 1000000 ≤ 1000001
      decide
    · change isValidCursor "0004294967296004096-0000000001".toList = true ∧
        1000000 = ledgerOfCursor "0004294967296004096-0000000001".toList ∧ 1000000 ≤ 1000001
      decide
  have hpage : (reader indexOptions).step (told txHash txHash') (.page answer 9002) = some (walked txHash txHash') :=
    if_pos (e := none) hserves
  exact .step (.step (.step (.init ⟨rfl, hsorted, hids⟩) rfl) rfl) hpage

theorem trace_ends {t : Runs.Transition Reader Label} (ht : t ∈ trace txHash txHash') (hresolves : Resolves t) :
    EndsAtTip t := by
  simp only [trace, List.mem_cons, List.not_mem_nil, or_false] at ht
  rcases ht with rfl | rfl | rfl
  · rcases hresolves with htip | hcut
    · exact htip
    · exact absurd (by decide) hcut
  · exact hresolves.elim
  · exact hresolves.elim

end Demo

/-- Two repayments of two transactions. -/
theorem history_complete_repayments :
    HistoryComplete Demo.indexOptions (Demo.trace "a1".toList "b2".toList)
      (Demo.walked "a1".toList "b2".toList) := by
  refine history_complete (Demo.run_trace (by decide)) (fun t => Demo.trace_ends) ?_
  intro e he e' he' d hd d' hd' _ _ htx
  have hlog : ∀ e ∈ (Demo.walked "a1".toList "b2".toList).log,
      e = Demo.repay "0000000000".toList "a1".toList 10 ∨ e = Demo.repay "0000000001".toList "b2".toList 20 :=
    fun e he => by simpa [Demo.walked, Demo.opened] using he
  rcases hlog e he with rfl | rfl <;> rcases hlog e' he' with rfl | rfl
  · rfl
  · exact absurd htx (by decide)
  · exact absurd htx (by decide)
  · rfl

/-- Two repayments of one transaction: the second one is missing in the history. -/
theorem second_repayment_lost :
    Runs.Run (reader Demo.indexOptions) (Demo.trace "a1".toList "a1".toList) (Demo.walked "a1".toList "a1".toList) ∧
      (∀ t ∈ Demo.trace "a1".toList "a1".toList, Resolves t → EndsAtTip t) ∧
      ¬HistoryComplete Demo.indexOptions (Demo.trace "a1".toList "a1".toList)
        (Demo.walked "a1".toList "a1".toList) := by
  refine ⟨Demo.run_trace (by decide), fun t => Demo.trace_ends, fun hcomplete => ?_⟩
  obtain ⟨events, -, -, -, hhistory, hall⟩ := hcomplete (Hex.encode Demo.txid)
  have hmem : Demo.repay "0000000001".toList "a1".toList 20 ∈ events :=
    hall _ (by decide) ⟨_, List.mem_cons_self, .inl (by decide), by decide, by decide⟩
  have hlost : ∀ r ∈ (Demo.walked "a1".toList "a1".toList).index.history (Hex.encode Demo.txid),
      r.amount ≠ some "20".toList := by decide
  have hrecord : (recordOf Demo.indexOptions (toLowerCase (Hex.encode Demo.txid))
      (Demo.repay "0000000001".toList "a1".toList 20)).any (fun r => decide (r.amount = some "20".toList)) = true := by
    decide
  obtain ⟨r, hr, hamount⟩ := (Option.any_eq_true _ _).mp hrecord
  refine hlost r ?_ (of_decide_eq_true hamount)
  rw [hhistory]
  exact List.mem_filterMap.mpr ⟨_, hmem, hr⟩

end Writz.Relayer.DepositReads

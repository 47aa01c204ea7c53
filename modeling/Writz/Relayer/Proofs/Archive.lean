import Writz.Node.Digits
import Writz.Relayer.Proofs.History
import Writz.Relayer.Proofs.Process
import Writz.Util.EventLog

/-!
# Proofs: the archive and the events of the chain

What a database that starts from some rows and a cursor holds after reading pages: those rows, and
then every event after the cursor, up to the cursor it has reached.
-/

namespace Writz.Relayer

open Node

variable {τ ρ : Type} {H : Lend.Host τ ρ}

/-! ## Cursors -/

theorem digitValue_eq (c : Char) : Json.digitValue c = c.toNat - 48 := rfl

/-- The number that digits spell after a number. -/
def digitsFrom (n : Nat) : List Char → Nat
  | [] => n
  | c :: ds => digitsFrom (10 * n + Json.digitValue c) ds

theorem digitsValue_eq (ds : List Char) : Json.digitsValue ds = digitsFrom 0 ds := by
  have h : ∀ n, ds.foldl (fun n c => 10 * n + Json.digitValue c) n = digitsFrom n ds := by
    induction ds with
    | nil => exact fun _ => rfl
    | cons c ds ih => exact fun n => ih _
  exact h 0

/-- Digits after a smaller number spell a smaller number. -/
theorem digitsFrom_lt {xs ys : List Char} (hx : ∀ c ∈ xs, c.isDigit = true)
    (hlen : xs.length = ys.length) {a b : Nat} (hab : a < b) : digitsFrom a xs < digitsFrom b ys := by
  induction xs generalizing ys a b with
  | nil =>
    obtain rfl : ys = [] := List.eq_nil_of_length_eq_zero hlen.symm
    exact hab
  | cons x xs ih =>
    cases ys with
    | nil => simp at hlen
    | cons y ys =>
      obtain ⟨h48, h57⟩ := isDigit_iff.mp (hx x List.mem_cons_self)
      have hlen' : xs.length = ys.length := by simpa using hlen
      have hstep : 10 * a + Json.digitValue x < 10 * b + Json.digitValue y := by
        rw [digitValue_eq, digitValue_eq]
        omega
      exact ih (fun c hc => hx c (List.mem_cons_of_mem _ hc)) hlen' hstep

/-- Texts that start with digits, as many in both, are ordered like the numbers they start with. -/
theorem digitsFrom_le {xs ys s t : List Char} (hx : ∀ c ∈ xs, c.isDigit = true)
    (hy : ∀ c ∈ ys, c.isDigit = true) (hlen : xs.length = ys.length)
    (hlt : textLt (xs ++ s) (ys ++ t) = false) (n : Nat) : digitsFrom n ys ≤ digitsFrom n xs := by
  induction xs generalizing ys n with
  | nil =>
    obtain rfl : ys = [] := List.eq_nil_of_length_eq_zero hlen.symm
    exact le_rfl
  | cons x xs ih =>
    cases ys with
    | nil => simp at hlen
    | cons y ys =>
      have hlen' : xs.length = ys.length := by simpa using hlen
      have hx' : ∀ c ∈ xs, c.isDigit = true := fun c hc => hx c (List.mem_cons_of_mem _ hc)
      have hy' : ∀ c ∈ ys, c.isDigit = true := fun c hc => hy c (List.mem_cons_of_mem _ hc)
      rw [List.cons_append, List.cons_append, textLt] at hlt
      change digitsFrom (10 * n + Json.digitValue y) ys ≤ digitsFrom (10 * n + Json.digitValue x) xs
      by_cases hxy : x = y
      · subst hxy
        rw [if_pos rfl] at hlt
        exact ih hx' hy' hlen' hlt _
      · rw [if_neg hxy] at hlt
        have hge := of_decide_eq_false hlt
        have hne : x.toNat ≠ y.toNat := fun he => hxy (Char.toNat_inj.mp he)
        obtain ⟨h48, -⟩ := isDigit_iff.mp (hy y List.mem_cons_self)
        have hstep : 10 * n + Json.digitValue y < 10 * n + Json.digitValue x := by
          rw [digitValue_eq, digitValue_eq]
          omega
        exact (digitsFrom_lt hy' hlen'.symm hstep).le

theorem isValidCursor_iff {cursor : Text} : isValidCursor cursor = true ↔
    cursor.length = 30 ∧ (cursor.take 19).all Char.isDigit = true ∧ cursor[19]? = some '-' ∧
      (cursor.drop 20).all Char.isDigit = true := by
  unfold isValidCursor
  simp only [Bool.and_eq_true, decide_eq_true_iff, and_assoc]

/-- A cursor of a later ledger comes later. -/
theorem cursor_lt_of_ledger {a b : Text} (ha : isValidCursor a = true) (hb : isValidCursor b = true)
    (h : ledgerOfCursor a < ledgerOfCursor b) : textLt a b = true := by
  obtain ⟨halen, hadigits, -, -⟩ := isValidCursor_iff.mp ha
  obtain ⟨hblen, hbdigits, -, -⟩ := isValidCursor_iff.mp hb
  by_contra hlt
  have hle := digitsFrom_le (s := a.drop 19) (t := b.drop 19) (List.all_eq_true.mp hadigits)
    (List.all_eq_true.mp hbdigits) (by rw [List.length_take, List.length_take, halen, hblen])
    (by rw [List.take_append_drop, List.take_append_drop]; exact Bool.not_eq_true _ ▸ hlt) 0
  rw [← digitsValue_eq, ← digitsValue_eq] at hle
  exact absurd h (not_lt.mpr (Nat.div_le_div_right hle))

theorem textLt_order : EventLog.Order textLt where
  irrefl := textLt_irrefl
  trans := textLt_trans
  of_not := textLt_of_not_lt

/-- Not being after is transitive. -/
theorem textLt_le_trans {a b c : Text} (hcb : textLt c b = false) (hba : textLt b a = false) :
    textLt c a = false := by
  by_contra hlt
  have := textLt_of_not_lt hcb ((Bool.not_eq_false _).mp hlt)
  rw [hba] at this
  cases this

/-- Cursors are in the order of their ledgers. -/
theorem ledger_le_of_not_lt {a b : Text} (ha : isValidCursor a = true) (hb : isValidCursor b = true)
    (h : textLt a b = false) : ledgerOfCursor b ≤ ledgerOfCursor a := by
  by_contra hlt
  have := cursor_lt_of_ledger ha hb (not_le.mp hlt)
  rw [h] at this
  cases this

theorem not_lt_of_ledger {a b : Text} (ha : isValidCursor a = true) (hb : isValidCursor b = true)
    (h : ledgerOfCursor b < ledgerOfCursor a) : textLt a b = false := by
  by_contra hlt
  have := textLt_trans (cursor_lt_of_ledger hb ha h) ((Bool.not_eq_false _).mp hlt)
  rw [textLt_irrefl] at this
  cases this

/-! ## Tables -/

/-- A row after all others goes to the end. -/
theorem insertRow_last {row : LendEventRow} {rows : List LendEventRow}
    (h : ∀ r ∈ rows, textLt r.id row.id = true) : insertRow row rows = rows ++ [row] := by
  induction rows with
  | nil => rfl
  | cons r rows ih =>
    have hlt := h r List.mem_cons_self
    have hne : row.id ≠ r.id := by
      intro he
      rw [he, textLt_irrefl] at hlt
      cases hlt
    have hnlt : ¬ textLt row.id r.id = true := by
      intro hgt
      have hself := textLt_trans hlt hgt
      rw [textLt_irrefl] at hself
      cases hself
    rw [insertRow, if_neg hne, if_neg hnlt, ih fun r' hr' => h r' (List.mem_cons_of_mem _ hr')]
    rfl

/-- New rows in order, after all others, go to the end. -/
theorem insertRows_last {rows new : List LendEventRow}
    (hrows : ∀ r ∈ rows, ∀ n ∈ new, textLt r.id n.id = true)
    (hnew : new.Pairwise fun n n' => textLt n.id n'.id = true) :
    LendEventStore.insertRows rows new = rows ++ new := by
  induction new generalizing rows with
  | nil => exact (List.append_nil rows).symm
  | cons n new ih =>
    obtain ⟨hn, hnew⟩ := List.pairwise_cons.mp hnew
    change LendEventStore.insertRows (insertRow n rows) new = _
    rw [insertRow_last fun r hr => hrows r hr n List.mem_cons_self, ih ?_ hnew, List.append_assoc,
      List.singleton_append]
    intro r hr n' hn'
    rcases List.mem_append.mp hr with hr | hr
    · exact hrows r hr n' (List.mem_cons_of_mem _ hn')
    · rw [List.mem_singleton.mp hr]
      exact hn n' hn'

theorem commit_eq_ok {store store' : LendEventStore} {rows : List LendEventRow} {cursor : Text} :
    store.commit rows cursor = .ok store' ↔ isValidCursor cursor = true ∧
      store' = { rows := LendEventStore.insertRows store.rows rows, cursor := some cursor } := by
  unfold LendEventStore.commit assertValidCursor
  rw [bind_eq_ok]
  constructor
  · rintro ⟨_, hvalid, hstore⟩
    cases hstore
    exact ⟨Bool.not_eq_false _ ▸ failIf_eq_ok.mp hvalid, rfl⟩
  · rintro ⟨hvalid, rfl⟩
    exact ⟨(), failIf_eq_ok.mpr (by rw [hvalid]; decide), rfl⟩

/-! ## Events between two cursors -/

/-- The events after one cursor, up to another. -/
def between (after upTo : Text) (e : ChainEvent) : Bool := textLt after e.id && !textLt upTo e.id

/-- In a sorted stream, the events up to a cursor, and the ones from there up to a later one. -/
theorem filter_upTo_append {log : List ChainEvent}
    (hlog : log.Pairwise fun e e' => textLt e.id e'.id = true) {x y : Text} (hxy : textLt y x = false) :
    (log.filter fun e => !textLt y e.id)
      = (log.filter fun e => !textLt x e.id) ++ log.filter (between x y) := by
  induction log with
  | nil => rfl
  | cons e log ih =>
    obtain ⟨he, hlog⟩ := List.pairwise_cons.mp hlog
    have ih := ih hlog
    by_cases hx : textLt x e.id = true
    · -- from here on every event is after `x`
      have hnone : (log.filter fun e => !textLt x e.id) = [] := by
        refine List.filter_eq_nil_iff.mpr fun e' he' => ?_
        rw [textLt_trans hx (he e' he')]
        decide
      rw [hnone, List.nil_append] at ih
      rw [List.filter_cons, List.filter_cons, List.filter_cons, hnone, ih]
      simp only [between, hx, Bool.not_true, Bool.true_and, Bool.false_eq_true, if_false,
        List.nil_append]
    · have hx := Bool.eq_false_of_not_eq_true hx
      have hy : textLt y e.id = false := by
        by_contra hy
        have hlt := textLt_of_not_lt hxy (Bool.eq_true_of_not_eq_false hy)
        rw [hx] at hlt
        cases hlt
      rw [List.filter_cons, List.filter_cons, List.filter_cons, ih]
      simp only [between, hx, hy, Bool.not_false, Bool.false_and, Bool.false_eq_true, if_true, if_false,
        List.cons_append]

/-- In a sorted stream, the events up to a cursor come before the ones after it. -/
theorem filter_between {log : List ChainEvent}
    (hlog : log.Pairwise fun e e' => textLt e.id e'.id = true) {a b c : Text}
    (hab : textLt b a = false) (hbc : textLt c b = false) :
    log.filter (between a c) = log.filter (between a b) ++ log.filter (between b c) := by
  have hsplit : ∀ d, log.filter (between a d)
      = (log.filter fun e => !textLt d e.id).filter fun e => textLt a e.id := by
    intro d
    rw [List.filter_filter]
    rfl
  rw [hsplit c, filter_upTo_append hlog hbc, List.filter_append, ← hsplit b]
  congr 1
  refine List.filter_eq_self.mpr fun e he => ?_
  have hb := (Bool.and_eq_true _ _ ▸ (List.mem_filter.mp he).2).1
  exact textLt_of_not_lt hab hb

/-- No event is told of twice. -/
theorem History.id_inj (h : History H) {k : Nat} {e e' : ChainEvent} (he : e ∈ (h.chain k).log)
    (he' : e' ∈ (h.chain k).log) (hid : e.id = e'.id) : e = e' := by
  have hnodup : ((h.chain k).log.map ChainEvent.id).Nodup := by
    rw [List.Nodup, List.pairwise_map]
    refine (h.id_sorted k).imp fun {a b} hlt heq => ?_
    rw [heq, textLt_irrefl] at hlt
    cases hlt
  exact List.inj_on_of_nodup_map hnodup he he' hid

/-- Where all events between two cursors are on the chain, they stay the same. -/
theorem History.between_le (h : History H) {j k : Nat} (hjk : j ≤ k) {a b : Text}
    (hall : ∀ e ∈ (h.chain k).log, between a b e = true → e ∈ (h.chain j).log) :
    (h.chain k).log.filter (between a b) = (h.chain j).log.filter (between a b) := by
  obtain ⟨new, hnew⟩ := h.log_le hjk
  have hsorted := h.id_sorted k
  rw [← hnew] at hsorted hall
  have hnone : new.filter (between a b) = [] := by
    refine List.filter_eq_nil_iff.mpr fun e he hbetween => ?_
    have hold := hall e (List.mem_append_right _ he) hbetween
    have hlt := (List.pairwise_append.mp hsorted).2.2 e hold e he
    rw [textLt_irrefl] at hlt
    cases hlt
  rw [← hnew, List.filter_append, hnone, List.append_nil]

/-! ## What a database holds -/

variable {O : Outside H} {deployLedger : Option Nat}

theorem eventRows_append (es es' : List ChainEvent) :
    eventRows O (es ++ es') = eventRows O es ++ eventRows O es' := List.filterMap_append

theorem mem_eventRows {es : List ChainEvent} {row : LendEventRow} (h : row ∈ eventRows O es) :
    ∃ e ∈ es, row.id = e.id ∧ row.contractId = O.contractId := by
  obtain ⟨e, he, hrow⟩ := List.mem_filterMap.mp h
  obtain ⟨columns, -, rfl⟩ := Option.map_eq_some_iff.mp hrow
  exact ⟨e, he, rfl, rfl⟩

theorem eventRows_sorted {es : List ChainEvent} (h : es.Pairwise fun e e' => textLt e.id e'.id = true) :
    (eventRows O es).Pairwise fun row row' => textLt row.id row'.id = true := by
  refine List.pairwise_filterMap.mpr (h.imp ?_)
  intro e e' hlt row hrow row' hrow'
  obtain ⟨columns, -, rfl⟩ := Option.map_eq_some_iff.mp hrow
  obtain ⟨columns', -, rfl⟩ := Option.map_eq_some_iff.mp hrow'
  exact hlt

/-- A database holds the rows it started from, and the events after the cursor it started from, up to
its own cursor, of which none is still to come. -/
structure Archived (O : Outside H) (base : List LendEventRow) (start : Text) (k : Nat)
    (store : LendEventStore) (cursor : Text) : Prop where
  cursor_eq : store.cursor = some cursor
  valid : isValidCursor cursor = true
  start_le : textLt cursor start = false
  rows : store.rows = base ++ eventRows O ((O.chain k).log.filter (between start cursor))
  complete : ∀ j, ∀ e ∈ (O.chain j).log, between start cursor e = true → e ∈ (O.chain k).log

theorem Archived.mono {base : List LendEventRow} {start cursor : Text} {store : LendEventStore}
    {j k : Nat} (h : Archived O base start j store cursor) (hjk : j ≤ k) :
    Archived O base start k store cursor where
  cursor_eq := h.cursor_eq
  valid := h.valid
  start_le := h.start_le
  rows := by
    rw [h.rows, O.between_le hjk fun e he hbetween => h.complete k e he hbetween]
  complete j' e he hbetween := (O.log_le hjk).subset (h.complete j' e he hbetween)

section Page

variable {base : List LendEventRow} {start cursor : Text} {store : LendEventStore} {k : Nat}

theorem between_eq_true {a b : Text} {e : ChainEvent} :
    between a b e = true ↔ textLt a e.id = true ∧ textLt b e.id = false := by
  unfold between
  rw [Bool.and_eq_true, Bool.not_eq_true']

/-- The events of the next page, in the table. -/
theorem Archived.insertRows_page (hbase : ∀ r ∈ base, textLt start r.id = false)
    (h : Archived O base start k store cursor) {cursor' : Text}
    (hadvances : textLt cursor' cursor = false) :
    LendEventStore.insertRows store.rows
        (eventRows O ((O.chain k).log.filter (between cursor cursor')))
      = base ++ eventRows O ((O.chain k).log.filter (between start cursor')) := by
  rw [insertRows_last, h.rows, filter_between (O.id_sorted k) h.start_le hadvances, eventRows_append,
    List.append_assoc]
  · intro r hr n hn
    obtain ⟨e, he, hid, -⟩ := mem_eventRows hn
    have hafter := (between_eq_true.mp (List.mem_filter.mp he).2).1
    rw [hid]
    rw [h.rows] at hr
    rcases List.mem_append.mp hr with hr | hr
    · exact textLt_of_not_lt (hbase r hr) (textLt_of_not_lt h.start_le hafter)
    · obtain ⟨e', he', hid', -⟩ := mem_eventRows hr
      rw [hid']
      exact textLt_of_not_lt (between_eq_true.mp (List.mem_filter.mp he').2).2 hafter
  · exact eventRows_sorted ((O.id_sorted k).filter _)

/-- One page: the events up to a later cursor, and all there are where it is empty. -/
theorem readPage_archived (hsteady : O.Steady) (hbase : ∀ r ∈ base, textLt start r.id = false)
    (h : Archived O base start k store cursor) {m m' : Machine} (hk : k ≤ m.requests)
    {store' : LendEventStore} {more : Bool}
    (hr : readPage O deployLedger store m = (.ok (store', more), m')) :
    m'.requests = m.requests + 1 ∧ store.rows <+: store'.rows ∧
      (∃ cursor', Archived O base start m.requests store' cursor') ∧
      (more = false → store'.rows = base ++ served O start m.requests) := by
  have h := h.mono hk
  simp only [readPage, Program.bind_eq_ok, Program.pure_eq_ok, ofResult_eq_ok, request_eq_ok,
    disk_eq_ok, nextRequest, h.cursor_eq, Except.ok.injEq] at hr
  obtain ⟨_, _, ⟨rfl, rfl⟩, _, _, ⟨-, rfl, rfl⟩, _, _, ⟨-, rfl⟩, _, _, ⟨hcommit, rfl⟩, hpair, rfl⟩ := hr
  obtain ⟨hvalid, rfl⟩ := commit_eq_ok.mp hcommit
  obtain ⟨rfl, rfl⟩ := Prod.mk.inj hpair
  have hadvances := hsteady.advances m.requests cursor h.valid
  have hevents := O.ordered.events m.requests (.after cursor)
  change _ = (O.chain m.requests).log.filter (between cursor _) at hevents
  have hrows := h.insertRows_page hbase hadvances
  rw [← hevents] at hrows
  have hcomplete : ∀ j, ∀ e ∈ (O.chain j).log,
      between start (O.page m.requests (.after cursor)).cursor e = true →
        e ∈ (O.chain m.requests).log := by
    intro j e he hbetween
    by_contra hnew
    have hlater := O.ordered.later m.requests (.after cursor) j e he hnew
    rw [(between_eq_true.mp hbetween).2] at hlater
    cases hlater
  have hstart : textLt (O.page m.requests (.after cursor)).cursor start = false := by
    by_contra hlt
    have hback := textLt_of_not_lt hadvances (Bool.eq_true_of_not_eq_false hlt)
    rw [h.start_le] at hback
    cases hback
  refine ⟨rfl, ?_, ⟨_, ⟨rfl, hvalid, hstart, hrows, hcomplete⟩⟩, ?_⟩
  · change store.rows <+: LendEventStore.insertRows _ _
    rw [hrows, h.rows, filter_between (O.id_sorted m.requests) h.start_le hadvances, eventRows_append,
      ← List.append_assoc]
    exact List.prefix_append _ _
  · intro hmore
    have hempty := List.isEmpty_iff.mp (by simpa using hmore)
    have htip := hsteady.tip m.requests (.after cursor) hempty
    change LendEventStore.insertRows _ _ = _
    rw [hrows, served]
    congr 2
    refine List.filter_congr fun e he => ?_
    have hnone : textLt (O.page m.requests (.after cursor)).cursor e.id = false := by
      by_contra hlt
      have hafter := textLt_of_not_lt hadvances (Bool.eq_true_of_not_eq_false hlt)
      exact absurd hafter (Bool.eq_false_iff.mp (htip e he))
    rw [between, hnone, Bool.not_false, Bool.and_true]

/-- What reading leaves: the rows there were, followed by those of events since. -/
structure CaughtUp (O : Outside H) (base : List LendEventRow) (start : Text) (m m' : Machine)
    (store store' : LendEventStore) (reached : Bool) : Prop where
  grows : store.rows <+: store'.rows
  archived : ∃ cursor', Archived O base start m'.requests store' cursor'
  tip : reached = true →
    m.requests < m'.requests ∧ store'.rows = base ++ served O start (m'.requests - 1)

theorem readPages_archived (hsteady : O.Steady) (hbase : ∀ r ∈ base, textLt start r.id = false) {pages : Nat} :
    ∀ {store : LendEventStore} {cursor : Text} {m m' : Machine} {store' : LendEventStore}
      {reached : Bool}, Archived O base start m.requests store cursor →
        readPages O deployLedger pages store m = (.ok (store', reached), m') →
          CaughtUp O base start m m' store store' reached := by
  induction pages with
  | zero =>
    intro store cursor m m' store' reached h hr
    obtain ⟨hpair, rfl⟩ := Program.pure_eq_ok.mp hr
    obtain ⟨rfl, rfl⟩ := Prod.mk.inj hpair
    exact ⟨List.prefix_rfl, ⟨cursor, h⟩, fun hf => by cases hf⟩
  | succ pages ih =>
    intro store cursor m m' store' reached h hr
    rw [readPages, Program.bind_eq_ok] at hr
    obtain ⟨⟨store₁, more⟩, m₁, hpage, hr⟩ := hr
    obtain ⟨hm₁, hgrows, ⟨cursor₁, h₁⟩, htip⟩ := readPage_archived hsteady hbase h le_rfl hpage
    cases more with
    | false =>
      obtain ⟨hpair, rfl⟩ := Program.pure_eq_ok.mp hr
      obtain ⟨rfl, rfl⟩ := Prod.mk.inj hpair
      refine ⟨hgrows, ⟨cursor₁, h₁.mono (by omega)⟩, fun _ => ⟨by omega, ?_⟩⟩
      rw [htip rfl, hm₁, Nat.add_sub_cancel]
    | true =>
      have hrest := ih (h₁.mono (by omega)) hr
      refine ⟨hgrows.trans hrest.grows, hrest.archived, fun hreached => ?_⟩
      obtain ⟨hlt, hrows⟩ := hrest.tip hreached
      exact ⟨by omega, hrows⟩

theorem catchUp_archived (hsteady : O.Steady) (hbase : ∀ r ∈ base, textLt start r.id = false) {deploy cycles : Nat} :
    ∀ {store : LendEventStore} {cursor : Text} {m m' : Machine} {store' : LendEventStore},
      Archived O base start m.requests store cursor →
        catchUp O deploy cycles store m = (.ok store', m') →
          CaughtUp O base start m m' store store' true := by
  induction cycles with
  | zero =>
    intro store cursor m m' store' h hr
    exact absurd hr (by rw [catchUp, fail_eq_ok]; exact not_false)
  | succ cycles ih =>
    intro store cursor m m' store' h hr
    rw [catchUp, Program.bind_eq_ok] at hr
    obtain ⟨⟨store₁, reached⟩, m₁, hcycle, hr⟩ := hr
    have hfirst := readPages_archived hsteady hbase h hcycle
    cases reached with
    | true =>
      obtain ⟨rfl, rfl⟩ := Program.pure_eq_ok.mp hr
      exact hfirst
    | false =>
      obtain ⟨cursor₁, h₁⟩ := hfirst.archived
      have hrest := ih h₁ hr
      have hreads := (onlyReads_readPages _ _ _).of_eq hcycle
      refine ⟨hfirst.grows.trans hrest.grows, hrest.archived, fun _ => ?_⟩
      obtain ⟨hlt, hrows⟩ := hrest.tip rfl
      exact ⟨hreads.requests.trans_lt hlt, hrows⟩

end Page

end Writz.Relayer

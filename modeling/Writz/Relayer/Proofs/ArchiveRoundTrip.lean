import Writz.Relayer.Proofs.ArchiveFile
import Writz.Relayer.Proofs.Following
import Writz.Util.JsonText

/-!
# Proofs: an archive file holds the archive

What is exported is read back, row for row, and what was accepted is exported again as it was. Ids are
compared as texts, which is their order on the chain.
-/

namespace Writz.Relayer

open Node

/-! ## The order of the ids -/

/-- The number of the transaction an id names, its ledger in the high bits. -/
def toidOf (id : Text) : Nat := Json.digitsValue (id.take 19)

/-- The index of an event in its transaction. -/
def indexOf (id : Text) : Nat := Json.digitsValue (id.drop 20)

theorem ledgerOfCursor_eq (id : Text) : ledgerOfCursor id = toidOf id / 2 ^ 32 := rfl

/-- Texts that start with as many digits are ordered by the numbers, then by what follows. -/
theorem textLt_digits {xs ys s t : List Char} (hx : ∀ c ∈ xs, c.isDigit = true) (hy : ∀ c ∈ ys, c.isDigit = true)
    (hlen : xs.length = ys.length) (n : Nat) :
    textLt (xs ++ s) (ys ++ t) = true ↔
      digitsFrom n xs < digitsFrom n ys ∨ digitsFrom n xs = digitsFrom n ys ∧ textLt s t = true := by
  induction xs generalizing ys n with
  | nil =>
    obtain rfl : ys = [] := List.eq_nil_of_length_eq_zero hlen.symm
    have hnil : digitsFrom n [] = n := rfl
    rw [hnil, List.nil_append, List.nil_append]
    simp
  | cons x xs ih =>
    cases ys with
    | nil => simp at hlen
    | cons y ys =>
      have hlen' : xs.length = ys.length := by simpa using hlen
      have hx' : ∀ c ∈ xs, c.isDigit = true := fun c hc => hx c (List.mem_cons_of_mem _ hc)
      have hy' : ∀ c ∈ ys, c.isDigit = true := fun c hc => hy c (List.mem_cons_of_mem _ hc)
      obtain ⟨hx48, -⟩ := isDigit_iff.mp (hx x List.mem_cons_self)
      obtain ⟨hy48, -⟩ := isDigit_iff.mp (hy y List.mem_cons_self)
      rw [List.cons_append, List.cons_append, textLt]
      have hcons : ∀ c ds, digitsFrom n (c :: ds) = digitsFrom (10 * n + Json.digitValue c) ds := fun _ _ => rfl
      rw [hcons, hcons]
      by_cases hxy : x = y
      · subst hxy
        rw [if_pos rfl]
        exact ih hx' hy' hlen' _
      · rw [if_neg hxy, decide_eq_true_iff]
        have hne : x.toNat ≠ y.toNat := fun he => hxy (Char.toNat_inj.mp he)
        rcases Nat.lt_or_gt_of_ne hne with hlt | hgt
        · have hstep : 10 * n + Json.digitValue x < 10 * n + Json.digitValue y := by
            rw [digitValue_eq, digitValue_eq]
            omega
          have hless := digitsFrom_lt hx' hlen' hstep
          exact iff_of_true hlt (.inl hless)
        · have hstep : 10 * n + Json.digitValue y < 10 * n + Json.digitValue x := by
            rw [digitValue_eq, digitValue_eq]
            omega
          have hless := digitsFrom_lt hy' hlen'.symm hstep
          refine iff_of_false (Nat.not_lt.mpr hgt.le) ?_
          rintro (hlow | ⟨heq, -⟩)
          · exact absurd hlow hless.asymm
          · exact absurd heq hless.ne'

/-- A valid id is its two numbers. -/
theorem cursor_split {id : Text} (h : isValidCursor id = true) : id = id.take 19 ++ '-' :: id.drop 20 := by
  obtain ⟨hlen, -, hdash, -⟩ := isValidCursor_iff.mp h
  obtain ⟨hbound, hget⟩ := List.getElem?_eq_some_iff.mp hdash
  rw [← hget, ← List.drop_eq_getElem_cons hbound, List.take_append_drop]

/-- Valid ids are ordered by transaction, then by index. -/
theorem textLt_iff {a b : Text} (ha : isValidCursor a = true) (hb : isValidCursor b = true) :
    textLt a b = true ↔ toidOf a < toidOf b ∨ toidOf a = toidOf b ∧ indexOf a < indexOf b := by
  obtain ⟨halen, hatoid, -, haindex⟩ := isValidCursor_iff.mp ha
  obtain ⟨hblen, hbtoid, -, hbindex⟩ := isValidCursor_iff.mp hb
  have htoid := textLt_digits (s := '-' :: a.drop 20) (t := '-' :: b.drop 20) (List.all_eq_true.mp hatoid)
    (List.all_eq_true.mp hbtoid) (by rw [List.length_take, List.length_take, halen, hblen]) 0
  have hindex := textLt_digits (s := []) (t := []) (List.all_eq_true.mp haindex) (List.all_eq_true.mp hbindex)
    (by rw [List.length_drop, List.length_drop, halen, hblen]) 0
  rw [List.append_nil, List.append_nil, textLt_irrefl] at hindex
  rw [← cursor_split ha, ← cursor_split hb, textLt, if_pos rfl, hindex] at htoid
  simp only [← digitsValue_eq] at htoid
  rw [htoid]
  simp [toidOf, indexOf]

/-! ## What is exported -/

/-- A database that can be exported: events of one contract in the order of the chain, up to the cursor,
each with the ledger of its id and the columns its XDR decodes to. -/
structure Exportable (decode : DecodeRaw) (target : ArchiveTarget) (rows : List LendEventRow) (cursor : Text) : Prop where
  cursor_valid : isValidCursor cursor = true
  contractId : ∀ row ∈ rows, row.contractId = target.contractId
  valid : ∀ row ∈ rows, isValidCursor row.id = true
  sorted : rows.Pairwise fun row row' => textLt row.id row'.id = true
  upTo : ∀ row ∈ rows, textLt cursor row.id = false
  ledger : ∀ row ∈ rows, row.ledger = ledgerOfCursor row.id
  ledger_pos : ∀ row ∈ rows, 0 < row.ledger
  decodes : ∀ row ∈ rows, decode row.rawXdr = .ok ⟨row.name, row.subject, row.data⟩

variable {decode : DecodeRaw} {target : ArchiveTarget} {rows : List LendEventRow} {cursor : Text}

theorem Exportable.tail {row : LendEventRow} (h : Exportable decode target (row :: rows) cursor)
    (hsorted : rows.Pairwise fun row row' => textLt row.id row'.id = true) : Exportable decode target rows cursor where
  cursor_valid := h.cursor_valid
  contractId r hr := h.contractId r (List.mem_cons_of_mem _ hr)
  valid r hr := h.valid r (List.mem_cons_of_mem _ hr)
  sorted := hsorted
  upTo r hr := h.upTo r (List.mem_cons_of_mem _ hr)
  ledger r hr := h.ledger r (List.mem_cons_of_mem _ hr)
  ledger_pos r hr := h.ledger_pos r (List.mem_cons_of_mem _ hr)
  decodes r hr := h.decodes r (List.mem_cons_of_mem _ hr)

def headerMembers (target : ArchiveTarget) (rows : List LendEventRow) (cursor : Text) : List Json.Member :=
  [.ofString "format" ARCHIVE_FORMAT, .ofNat "version" ARCHIVE_VERSION,
    .ofString "networkPassphrase" target.networkPassphrase, .ofString "contractId" target.contractId,
    .ofOption "firstLedger" (rows.head?.map (·.ledger)), .ofOption "lastLedger" (rows.getLast?.map (·.ledger)),
    .ofNat "events" rows.length, .ofString "cursor" cursor]

def rowMembers (r : LendEventRow) : List Json.Member :=
  [.ofString "id" r.id, .ofNat "ledger" r.ledger, .ofString "txHash" r.txHash, .ofString "name" r.name,
    .ofString "subject" r.subject, .ofString "data" r.data, .ofString "rawXdr" r.rawXdr]

/-- An export: its header, and a line for each event. -/
def exportLines (target : ArchiveTarget) (rows : List LendEventRow) (cursor : Text) : List Text :=
  Json.objectText (headerMembers target rows cursor) :: rows.map fun r => Json.objectText (rowMembers r)

theorem memberText_ofOption (name : String) (row : Option LendEventRow) :
    Json.memberText ((Json.Member.ofOption name (row.map (·.ledger))).name, (Json.Member.ofOption name (row.map (·.ledger))).text)
      = field name (ledgerText row) := by
  cases row <;> rfl

/-- The lines of an export are objects. -/
theorem archiveLines_eq (rows : List LendEventRow) (cursor : Text) (target : ArchiveTarget) :
    archiveLines rows (some cursor) target = .ok (exportLines target rows cursor) := by
  have hheader : Json.objectText (headerMembers target rows cursor) = fields
      [textField "format" ARCHIVE_FORMAT, field "version" (decimal ARCHIVE_VERSION),
        textField "networkPassphrase" target.networkPassphrase,
        textField "contractId" target.contractId, field "firstLedger" (ledgerText rows.head?),
        field "lastLedger" (ledgerText rows.getLast?), field "events" (decimal rows.length),
        textField "cursor" cursor] := by
    rw [← memberText_ofOption, ← memberText_ofOption]
    rfl
  rw [exportLines, hheader]
  rfl

theorem parseLine_objectText (ms : List Json.Member) (n : Nat) :
    parseLine (Json.objectText ms) n = .ok (ms.map fun m => (m.name, m.value)) := by
  rw [parseLine, (Json.spells_object ms).parse]

/-! ## Numbers -/

theorem asNumber_nat {n : Nat} (h : n < 2 ^ 53) : asNumber (.number n 0) = some (.finite n) := by
  have hone : Number.pow10 0 = 1 := rfl
  rw [asNumber, Number.ofDecimal, hone, mul_one, Int.cast_natCast, Number.ofRat_natCast h]

theorem isNat_nat {n : Nat} (h : n < 2 ^ 53) : isNat (some (.number n 0)) n = true := by
  unfold isNat
  rw [Option.bind_some, asNumber_nat h]
  exact decide_eq_true rfl

theorem toNat?_natCast (n : Nat) : Number.toNat? (.finite n) = some n := by
  simp [Number.toNat?]

theorem ledgerOrNull_of_null {o : Members} {key : String} (h : Json.get o key.toList = some .null) :
    ledgerOrNull o key = .ok none := by
  rw [ledgerOrNull, h]

theorem ledgerOrNull_of_nat {o : Members} {key : String} {n : Nat} (h : Json.get o key.toList = some (.number n 0))
    (hpos : 0 < n) (hlt : n < 2 ^ 53) : ledgerOrNull o key = .ok (some (.finite n)) := by
  have hledger : ∃ m ∈ Number.toNat? (.finite n), 0 < m := ⟨n, toNat?_natCast n, hpos⟩
  unfold ledgerOrNull
  rw [h]
  simp only [asNumber_nat hlt]
  rw [failIf, if_neg (not_not.mpr hledger)]
  rfl

/-- The ledger of a valid id is a number of 32 bits. -/
theorem ledgerOfCursor_lt {id : Text} (h : isValidCursor id = true) : ledgerOfCursor id < 2 ^ 53 := by
  obtain ⟨hlen, hdigits, -, -⟩ := isValidCursor_iff.mp h
  have hbound : ∀ (ds : List Char), (∀ c ∈ ds, c.isDigit = true) → Json.digitsValue ds < 10 ^ ds.length := by
    intro ds
    induction ds using List.reverseRecOn with
    | nil => exact fun _ => by decide
    | append_singleton ds c ih =>
      intro hds
      have hrest := ih fun d hd => hds d (List.mem_append_left _ hd)
      obtain ⟨h48, h57⟩ := isDigit_iff.mp (hds c (List.mem_append_right _ List.mem_cons_self))
      have hlast : Json.digitsValue [c] = c.toNat - 48 := by simp [Json.digitsValue, Json.digitValue]
      rw [digitsValue_append, hlast, List.length_append, List.length_singleton, pow_one, pow_succ]
      omega
  have htoid := hbound (id.take 19) (List.all_eq_true.mp hdigits)
  rw [List.length_take, hlen] at htoid
  rw [ledgerOfCursor]
  exact Nat.div_lt_of_lt_mul (htoid.trans (by norm_num))

/-! ## Reading an export -/

/-- The header an export is read with. -/
def headerOf (target : ArchiveTarget) (rows : List LendEventRow) (cursor : Text) : ArchiveHeader where
  networkPassphrase := target.networkPassphrase
  contractId := target.contractId
  firstLedger := ledgerNumber rows.head?
  lastLedger := ledgerNumber rows.getLast?
  events := .finite rows.length
  cursor := cursor

/-- The members of a line. -/
def membersOf (ms : List Json.Member) : Members := ms.map fun m => (m.name, m.value)

theorem str_of_string {o : Members} {key : String} {v : Text} (h : Json.get o key.toList = some (.string v)) (n : Nat) :
    str o key n = .ok v := by
  rw [str, h]

/-- The ledger of an end is read as it was written. -/
theorem ledgerOrNull_ofOption {o : Members} {key : String} {row : Option LendEventRow}
    (h : Json.get o key.toList = some (Json.Member.ofOption key (row.map (·.ledger))).value)
    (hrow : ∀ r ∈ row, 0 < r.ledger ∧ r.ledger < 2 ^ 53) : ledgerOrNull o key = .ok (ledgerNumber row) := by
  cases row with
  | none => exact ledgerOrNull_of_null h
  | some r =>
    obtain ⟨hpos, hlt⟩ := hrow r rfl
    exact ledgerOrNull_of_nat h hpos hlt

theorem failIf_neg {ε : Type} {c : Prop} [Decidable c] {e : ε} (h : ¬ c) : failIf c e = .ok () := by
  rw [failIf, if_neg h]

theorem Exportable.ledger_bounds (h : Exportable decode target rows cursor) {row : LendEventRow} (hrow : row ∈ rows) :
    0 < row.ledger ∧ row.ledger < 2 ^ 53 := by
  refine ⟨h.ledger_pos row hrow, ?_⟩
  rw [h.ledger row hrow]
  exact ledgerOfCursor_lt (h.valid row hrow)

theorem parseHeader_exported (h : Exportable decode target rows cursor) (hlen : rows.length < 2 ^ 53) :
    parseHeader (membersOf (headerMembers target rows cursor)) target = .ok (headerOf target rows cursor) := by
  have hformat : ¬ (isText (Json.get (membersOf (headerMembers target rows cursor)) "format".toList) ARCHIVE_FORMAT = false
      ∨ isNat (Json.get (membersOf (headerMembers target rows cursor)) "version".toList) ARCHIVE_VERSION = false) := by
    have htext : isText (Json.get (membersOf (headerMembers target rows cursor)) "format".toList) ARCHIVE_FORMAT = true := rfl
    have hversion : isNat (Json.get (membersOf (headerMembers target rows cursor)) "version".toList) ARCHIVE_VERSION = true :=
      isNat_nat (by decide)
    rw [htext, hversion]
    decide
  have hfirst : ledgerOrNull (membersOf (headerMembers target rows cursor)) "firstLedger" = .ok (ledgerNumber rows.head?) :=
    ledgerOrNull_ofOption rfl fun r hr => h.ledger_bounds (List.mem_of_head? hr)
  have hlast : ledgerOrNull (membersOf (headerMembers target rows cursor)) "lastLedger" = .ok (ledgerNumber rows.getLast?) :=
    ledgerOrNull_ofOption rfl fun r hr => h.ledger_bounds (List.mem_of_getLast? hr)
  have hevents : ((Json.get (membersOf (headerMembers target rows cursor)) "events".toList).bind asNumber).getD (.finite (-1))
      = .finite rows.length := by
    change ((asNumber (.number rows.length 0))).getD (.finite (-1)) = _
    rw [asNumber_nat hlen]
    rfl
  have hpassphrase : str (membersOf (headerMembers target rows cursor)) "networkPassphrase" 1 = .ok target.networkPassphrase := rfl
  have hcontract : str (membersOf (headerMembers target rows cursor)) "contractId" 1 = .ok target.contractId := rfl
  have hcursor : str (membersOf (headerMembers target rows cursor)) "cursor" 1 = .ok cursor := rfl
  unfold parseHeader
  simp only [failIf_neg hformat, hpassphrase, hcontract, hfirst, hlast, hevents, hcursor, bind, Except.bind]
  rw [failIf_neg (not_not.mpr rfl), failIf_neg (not_not.mpr rfl), failIf_neg (by rw [h.cursor_valid]; decide)]
  rfl

theorem parseRow_exported {header : ArchiveHeader} {row : LendEventRow} {previous : Text} (n : Nat)
    (hcontract : row.contractId = header.contractId) (hvalid : isValidCursor row.id = true)
    (hprevious : textLt previous row.id = true) (hupTo : textLt header.cursor row.id = false)
    (hledger : row.ledger = ledgerOfCursor row.id) (hdecodes : decode row.rawXdr = .ok ⟨row.name, row.subject, row.data⟩) :
    parseRow decode header previous (Json.objectText (rowMembers row)) n = .ok row := by
  have hnat : isNat (Json.get (membersOf (rowMembers row)) "ledger".toList) (ledgerOfCursor row.id) = true := by
    change isNat (some (.number row.ledger 0)) _ = true
    rw [hledger]
    exact isNat_nat (ledgerOfCursor_lt hvalid)
  have hid : str (membersOf (rowMembers row)) "id" n = .ok row.id := rfl
  have htx : str (membersOf (rowMembers row)) "txHash" n = .ok row.txHash := rfl
  have hname : str (membersOf (rowMembers row)) "name" n = .ok row.name := rfl
  have hsubject : str (membersOf (rowMembers row)) "subject" n = .ok row.subject := rfl
  have hdata : str (membersOf (rowMembers row)) "data" n = .ok row.data := rfl
  have hraw : str (membersOf (rowMembers row)) "rawXdr" n = .ok row.rawXdr := rfl
  have hline : parseLine (Json.objectText (rowMembers row)) n = .ok (membersOf (rowMembers row)) :=
    parseLine_objectText _ _
  unfold parseRow
  simp only [hline, hid, htx, hname, hsubject, hdata, hraw, hdecodes, bind, Except.bind]
  rw [failIf_neg (by rw [hvalid]; decide), failIf_neg (by rw [hprevious]; decide), failIf_neg (by rw [hupTo]; decide),
    failIf_neg (by rw [hnat]; decide)]
  simp only [ne_eq, not_true_eq_false, or_self]
  rw [failIf_neg not_false, ← hledger, ← hcontract]

theorem parseRows_exported {header : ArchiveHeader} (hheader : header.contractId = target.contractId)
    (rows : List LendEventRow) :
    ∀ (previous : Text) (n : Nat), Exportable decode target rows header.cursor →
      (∀ row ∈ rows, textLt previous row.id = true) →
      parseRows decode header previous n (rows.map fun r => Json.objectText (rowMembers r)) = .ok rows := by
  induction rows with
  | nil =>
    intro previous n _ _
    rfl
  | cons row rows ih =>
    intro previous n h hprevious
    have hmem : row ∈ row :: rows := List.mem_cons_self
    obtain ⟨hafter, hsorted⟩ := List.pairwise_cons.mp h.sorted
    have hrow := parseRow_exported n
      ((h.contractId row hmem).trans hheader.symm) (h.valid row hmem) (hprevious row hmem) (h.upTo row hmem)
      (h.ledger row hmem) (h.decodes row hmem)
    have hrest := ih row.id (n + 1) (h.tail hsorted) hafter
    rw [List.map_cons, parseRows, hrow]
    change (do
      let rows ← parseRows decode header row.id (n + 1) (rows.map fun r => Json.objectText (rowMembers r))
      Except.ok (row :: rows)) = _
    rw [hrest]
    rfl

/-! ## Lines -/

theorem trim_ne_nil {c : Char} {s : Text} (h : isTrimmed c = false) : trim (c :: s) ≠ [] := by
  intro htrim
  rw [trim, List.dropWhile_cons, if_neg (by rw [h]; decide), List.reverse_eq_nil_iff, List.dropWhile_eq_nil_iff] at htrim
  have hc := htrim c (List.mem_reverse.mpr List.mem_cons_self)
  rw [h] at hc
  cases hc

theorem exportLines_line {line : Text} (h : line ∈ exportLines target rows cursor) : ∃ ms, line = Json.objectText ms := by
  rcases List.mem_cons.mp h with rfl | h
  · exact ⟨_, rfl⟩
  · obtain ⟨r, -, rfl⟩ := List.mem_map.mp h
    exact ⟨_, rfl⟩

/-- The lines of an export are found again. -/
theorem splitLines_export {trailing : List Text} (htrailing : ∀ t ∈ trailing, t = []) :
    ((splitLines (['\n'].intercalate (exportLines target rows cursor ++ trailing))).filter fun l => trim l ≠ [])
      = exportLines target rows cursor := by
  have hnewline : ∀ line ∈ exportLines target rows cursor ++ trailing, '\n' ∉ line := by
    intro line hline hmem
    rcases List.mem_append.mp hline with hline | hline
    · obtain ⟨ms, rfl⟩ := exportLines_line hline
      exact absurd (Json.printable_of_mem_objectText hmem) (by decide)
    · rw [htrailing line hline] at hmem
      cases hmem
  have hne : exportLines target rows cursor ++ trailing ≠ [] := by simp [exportLines]
  have hkept : ∀ line ∈ exportLines target rows cursor, decide (trim line ≠ []) = true := by
    intro line hline
    obtain ⟨ms, rfl⟩ := exportLines_line hline
    exact decide_eq_true (trim_ne_nil rfl)
  have hdropped : ∀ line ∈ trailing, ¬ decide (trim line ≠ []) = true := by
    intro line hline
    rw [htrailing line hline]
    decide
  rw [splitLines, List.splitOn_intercalate '\n' hnewline hne, List.filter_append, List.filter_eq_self.mpr hkept,
    List.filter_eq_nil_iff.mpr hdropped, List.append_nil]

theorem intercalate_newline {lines : List Text} (h : lines ≠ []) :
    ['\n'].intercalate lines ++ ['\n'] = ['\n'].intercalate (lines ++ [[]]) := by
  induction lines with
  | nil => exact absurd rfl h
  | cons line lines ih =>
    cases lines with
    | nil => simp [List.intercalate, List.intersperse]
    | cons line' lines =>
      have hcons : ∀ ls : List Text, ['\n'].intercalate (line :: line' :: ls) = line ++ '\n' :: ['\n'].intercalate (line' :: ls) := by
        intro ls
        simp [List.intercalate, List.intersperse]
      rw [List.cons_append, List.cons_append, hcons, hcons, List.append_assoc, List.cons_append,
        ih (List.cons_ne_nil _ _), List.cons_append]

/-! ## What was accepted -/

theorem parseArchive_of_lines {text : Text} (h : Exportable decode target rows cursor) (hlen : rows.length < 2 ^ 53)
    (hlines : ((splitLines text).filter fun l => trim l ≠ []) = exportLines target rows cursor) :
    parseArchive decode text target = .ok { header := headerOf target rows cursor, rows } := by
  have hfirst := parseLine_objectText (headerMembers target rows cursor) 1
  have hheader := parseHeader_exported h hlen
  have hrows : parseRows decode (headerOf target rows cursor) [] 2 (rows.map fun r => Json.objectText (rowMembers r))
      = .ok rows := by
    refine parseRows_exported rfl rows [] 2 h fun row hrow => ?_
    obtain ⟨hlength, -, -, -⟩ := isValidCursor_iff.mp (h.valid row hrow)
    cases hid : row.id with
    | nil =>
      rw [hid] at hlength
      cases hlength
    | cons c id => rfl
  unfold parseArchive
  rw [hlines, exportLines]
  refine bind_eq_ok.mpr ⟨_, hfirst, bind_eq_ok.mpr ⟨_, hheader, bind_eq_ok.mpr ⟨_, hrows, ?_⟩⟩⟩
  have hcount : ¬ Number.finite rows.length ≠ (headerOf target rows cursor).events := not_not.mpr rfl
  have hends : ¬ (ledgerNumber rows.head? ≠ (headerOf target rows cursor).firstLedger
      ∨ ledgerNumber rows.getLast? ≠ (headerOf target rows cursor).lastLedger) := by simp [headerOf]
  exact bind_eq_ok.mpr ⟨(), failIf_neg hcount, bind_eq_ok.mpr ⟨(), failIf_neg hends, rfl⟩⟩

theorem ledgerOrNull_eq_ok {o : Members} {key : String} {ledger : Option Number} (h : ledgerOrNull o key = .ok ledger) :
    ∀ x ∈ ledger, ∃ n ∈ x.toNat?, 0 < n := by
  unfold ledgerOrNull at h
  split at h
  · cases h
    intro x hx
    cases hx
  · split at h
    · obtain ⟨_, hpos, hx⟩ := bind_eq_ok.mp h
      cases hx
      rintro x ⟨⟩
      exact not_not.mp (failIf_eq_ok.mp hpos)
    · cases h
  · cases h

theorem isNat_eq_true {v : Option Json} {n : Nat} (h : isNat v n = true) : ∃ j, v = some j ∧ asNumber j = some (.finite n) := by
  unfold isNat at h
  cases v with
  | none => cases h
  | some j =>
    refine ⟨j, rfl, ?_⟩
    rw [Option.bind_some] at h
    split at h
    · next x hx => rw [hx, of_decide_eq_true h]
    · cases h

/-- What a row of an accepted file is. -/
theorem parseRow_accepted {header : ArchiveHeader} {previous line : Text} {n : Nat} {row : LendEventRow}
    (hr : parseRow decode header previous line n = .ok row) :
    isValidCursor row.id = true ∧ row.ledger = ledgerOfCursor row.id ∧
      decode row.rawXdr = .ok ⟨row.name, row.subject, row.data⟩ := by
  simp only [parseRow, bind_eq_ok, failIf_eq_ok] at hr
  obtain ⟨o, -, id, -, -, hvalid, -, -, -, -, -, -, txHash, -, name, -, subject, -, data, -, rawXdr, -, hr⟩ := hr
  split at hr
  · next columns hdecode =>
    obtain ⟨columns', hcolumns, hr⟩ := bind_eq_ok.mp hr
    obtain ⟨_, hmatch, hr⟩ := bind_eq_ok.mp hr
    cases hr
    cases hcolumns
    obtain ⟨hname, hsubject, hdata⟩ := not_or.mp (failIf_eq_ok.mp hmatch) |>.imp not_not.mp fun h => not_or.mp h
    refine ⟨Bool.eq_true_of_not_eq_false hvalid, rfl, ?_⟩
    rw [hdecode, ← hname, ← not_not.mp hsubject, ← not_not.mp hdata]
  · obtain ⟨columns, hcolumns, -⟩ := bind_eq_ok.mp hr
    cases hcolumns

theorem parseRows_accepted {header : ArchiveHeader} {lines : List Text} :
    ∀ {previous : Text} {n : Nat} {rows : List LendEventRow}, parseRows decode header previous n lines = .ok rows →
      ∀ row ∈ rows, isValidCursor row.id = true ∧ row.ledger = ledgerOfCursor row.id ∧
        decode row.rawXdr = .ok ⟨row.name, row.subject, row.data⟩ := by
  induction lines with
  | nil =>
    intro previous n rows hr row hrow
    cases hr
    cases hrow
  | cons line lines ih =>
    intro previous n rows hr
    obtain ⟨row, hrow, hr⟩ := bind_eq_ok.mp hr
    obtain ⟨rest, hrest, hr⟩ := bind_eq_ok.mp hr
    cases hr
    intro row' hrow'
    rcases List.mem_cons.mp hrow' with rfl | hrow'
    · exact parseRow_accepted hrow
    · exact ih hrest row' hrow'

/-- The header of an accepted file is the one its rows are exported with. -/
theorem parseArchive_header {text : Text} {file : ParsedArchive} (hr : parseArchive decode text target = .ok file) :
    file.header = headerOf target file.rows file.header.cursor ∧
      (∀ row ∈ file.rows, isValidCursor row.id = true ∧ row.ledger = ledgerOfCursor row.id ∧
        decode row.rawXdr = .ok ⟨row.name, row.subject, row.data⟩) ∧
      ∀ x ∈ ledgerNumber file.rows.head?, ∃ n ∈ x.toNat?, 0 < n := by
  unfold parseArchive at hr
  split at hr
  · cases hr
  · obtain ⟨o, -, hr⟩ := bind_eq_ok.mp hr
    obtain ⟨header, hheader, hr⟩ := bind_eq_ok.mp hr
    obtain ⟨rows, hrows, hr⟩ := bind_eq_ok.mp hr
    obtain ⟨_, hcount, hr⟩ := bind_eq_ok.mp hr
    obtain ⟨_, hends, hr⟩ := bind_eq_ok.mp hr
    cases hr
    have hcount := not_not.mp (failIf_eq_ok.mp hcount)
    obtain ⟨hfirst, hlast⟩ := not_or.mp (failIf_eq_ok.mp hends)
    have hfirst := not_not.mp hfirst
    have hlast := not_not.mp hlast
    simp only [parseHeader, bind_eq_ok, failIf_eq_ok] at hheader
    obtain ⟨-, -, networkPassphrase, -, contractId, -, firstLedger, hpos, lastLedger, -, cursor, -, -, hnetwork, -,
      hcontract, -, -, hheader⟩ := hheader
    cases hheader
    refine ⟨?_, parseRows_accepted hrows, ?_⟩
    · simp only [headerOf, hcount, hfirst, hlast, not_not.mp hnetwork, not_not.mp hcontract]
    · rw [hfirst]
      exact ledgerOrNull_eq_ok hpos

/-- An accepted file can be exported. -/
theorem parseArchive_exportable {text : Text} {file : ParsedArchive} (hr : parseArchive decode text target = .ok file) :
    Exportable decode target file.rows file.header.cursor := by
  have haccepted := parseArchive_accepted hr
  obtain ⟨-, hrows, hfirst⟩ := parseArchive_header hr
  refine
    { cursor_valid := haccepted.cursor_valid
      contractId := haccepted.contractId
      valid := fun row hrow => (hrows row hrow).1
      sorted := haccepted.sorted
      upTo := haccepted.upTo
      ledger := fun row hrow => (hrows row hrow).2.1
      ledger_pos := ?_
      decodes := fun row hrow => (hrows row hrow).2.2 }
  -- the first ledger is positive, and no later event is in an earlier one
  intro row hrow
  cases hall : file.rows with
  | nil =>
    rw [hall] at hrow
    cases hrow
  | cons first rest =>
    have hsorted := haccepted.sorted
    rw [hall] at hfirst hrow hsorted hrows
    obtain ⟨n, hn, hpos⟩ := hfirst _ rfl
    have hledger := Option.some.inj ((toNat?_natCast first.ledger).symm.trans hn)
    have hfirstpos : 0 < first.ledger := hledger ▸ hpos
    rcases List.mem_cons.mp hrow with rfl | hrest
    · exact hfirstpos
    · obtain ⟨hafter, -⟩ := List.pairwise_cons.mp hsorted
      obtain ⟨hvalid, hledger', -⟩ := hrows row hrow
      obtain ⟨hvalid₁, hledger₁, -⟩ := hrows first List.mem_cons_self
      have hnot : textLt row.id first.id = false := by
        by_contra hlt
        have hloop := textLt_trans (hafter row hrest) ((Bool.not_eq_false _).mp hlt)
        rw [textLt_irrefl] at hloop
        cases hloop
      have hle := ledger_le_of_not_lt hvalid hvalid₁ hnot
      omega

/-! ## What a relayer exports -/

/-- The text of the lines, each ended. -/
def exportText (lines : List Text) : Text := lines.flatMap fun line => line ++ ['\n']

theorem exportText_eq {lines : List Text} (h : lines ≠ []) : exportText lines = ['\n'].intercalate lines ++ ['\n'] := by
  rw [intercalate_newline h]
  clear h
  induction lines with
  | nil => rfl
  | cons line lines ih =>
    have hcons : ['\n'].intercalate (line :: (lines ++ [[]])) = line ++ '\n' :: ['\n'].intercalate (lines ++ [[]]) := by
      cases lines <;> simp [List.intercalate, List.intersperse]
    rw [List.cons_append, hcons, ← ih]
    simp [exportText]

variable {τ ρ : Type} {H : Text → Lend.Host τ ρ} {N : Network H}

/-- The XDR of the chain's archived events decodes to their columns. -/
def Network.Decodes (N : Network H) (c : Text) (decode : DecodeRaw) : Prop :=
  ∀ k, ∀ e ∈ ((N.outside c).chain k).log, ∀ subject data, eventColumns e.event = some (subject, data) →
    decode ((N.outside c).encodeRawXdr e.event) = .ok { name := eventName e.event, subject, data }

/-- The rows of the chain can be exported. -/
theorem exportable_rowsUpTo {c : Text} {k : Nat} (hdecodes : N.Decodes c decode)
    (hpos : ∀ k, ∀ e ∈ ((N.outside c).chain k).log, 0 < e.ledger) (hcontract : target.contractId = c)
    (hvalid : isValidCursor cursor = true) : Exportable decode target (N.rowsUpTo c (some cursor) k) cursor := by
  have hrow : ∀ row ∈ N.rowsUpTo c (some cursor) k, ∃ e ∈ ((N.outside c).chain k).log,
      textLt cursor e.id = false ∧ ∃ subject data, eventColumns e.event = some (subject, data) ∧
        row = { id := e.id, contractId := (N.outside c).contractId, ledger := e.ledger, txHash := e.txHash,
                name := eventName e.event, subject, data, rawXdr := (N.outside c).encodeRawXdr e.event } := by
    intro row hrow
    obtain ⟨e, he, hdecoded⟩ := List.mem_filterMap.mp hrow
    obtain ⟨hlog, hupTo⟩ := List.mem_filter.mp he
    obtain ⟨⟨subject, data⟩, hcolumns, hrow⟩ := Option.map_eq_some_iff.mp hdecoded
    exact ⟨e, hlog, Bool.not_eq_true' _ ▸ hupTo, subject, data, hcolumns, hrow.symm⟩
  refine
    { cursor_valid := hvalid
      contractId := ?_
      valid := ?_
      sorted := eventRows_sorted (((N.outside c).id_sorted k).filter _)
      upTo := ?_
      ledger := ?_
      ledger_pos := ?_
      decodes := ?_ }
  · intro row hmem
    obtain ⟨e, -, -, subject, data, -, rfl⟩ := hrow row hmem
    exact (N.contractId c).trans hcontract.symm
  · intro row hmem
    obtain ⟨e, he, -, subject, data, -, rfl⟩ := hrow row hmem
    exact ((N.outside c).id_valid k e he).1
  · intro row hmem
    obtain ⟨e, -, hupTo, subject, data, -, rfl⟩ := hrow row hmem
    exact hupTo
  · intro row hmem
    obtain ⟨e, he, -, subject, data, -, rfl⟩ := hrow row hmem
    exact ((N.outside c).id_valid k e he).2
  · intro row hmem
    obtain ⟨e, he, -, subject, data, -, rfl⟩ := hrow row hmem
    exact hpos k e he
  · intro row hmem
    obtain ⟨e, he, -, subject, data, hcolumns, rfl⟩ := hrow row hmem
    exact hdecodes k e he subject data hcolumns

namespace Demo

theorem repaid_decodes : network.Decodes contractId decodeRawXdr := by
  have hall : (logAfter Lend.Demo.repaidLoan).all (fun e => decide (∀ columns ∈ eventColumns e.event,
      decodeRawXdr (encodeRawXdr e.event) = .ok { name := eventName e.event, subject := columns.1, data := columns.2 }))
        = true := by decide +kernel
  intro k e he subject data hcolumns
  have hlog : ((network.outside contractId).chain k).log = logAfter Lend.Demo.repaidLoan := by
    rw [show network.outside = outsideOf from rfl, outsideOf_log, if_pos rfl]
  have hxdr : (network.outside contractId).encodeRawXdr = encodeRawXdr := by
    rw [show network.outside = outsideOf from rfl, outsideOf, if_pos rfl]
    rfl
  rw [hlog] at he
  rw [hxdr]
  exact of_decide_eq_true (List.all_eq_true.mp hall e he) _ hcolumns

theorem repaid_pos (k : Nat) : ∀ e ∈ ((network.outside contractId).chain k).log, 0 < e.ledger := by
  intro e he
  have hdeployed := network.deployed contractId k e he
  exact lt_of_lt_of_le (by decide) hdeployed

def exportTarget : ArchiveTarget where
  contractId := contractId
  networkPassphrase := networkPassphrase

theorem archived_cursor : archived.store.cursor = some tip := by
  obtain ⟨-, hcursor, -⟩ := archived_run
  exact hcursor

theorem archived_rows : archived.store.list archived.contractId = network.rowsUpTo contractId (some tip) 1 := by
  obtain ⟨hrequests, -⟩ := archived_run
  have hrows := (follows_of_via archived_via).whole 1 hrequests
  rwa [archived_cursor] at hrows

theorem archived_length : (archived.store.list archived.contractId).length < 2 ^ 53 := by
  obtain ⟨-, -, hfour⟩ := archived_run
  rw [archived_cursor] at hfour
  rw [archived_rows]
  exact hfour.trans_lt (by decide)

theorem archived_exportable : Exportable decodeRawXdr exportTarget (archived.store.list archived.contractId) tip := by
  rw [archived_rows]
  exact exportable_rowsUpTo repaid_decodes repaid_pos rfl ((follows_of_via archived_via).valid tip archived_cursor)

end Demo

/-- An exported archive is read back, with or without a last newline; an accepted file is exported and read
as itself; and the ids of events are in the order of the chain. -/
theorem archive_round_trip (decode : DecodeRaw) (target : ArchiveTarget) :
    (∀ rows cursor, Exportable decode target rows cursor → rows.length < 2 ^ 53 →
      ∃ lines, archiveLines rows (some cursor) target = .ok lines ∧ ∃ file : ParsedArchive,
        file.rows = rows ∧ file.header.cursor = cursor ∧
          parseArchive decode (['\n'].intercalate lines) target = .ok file ∧
          parseArchive decode (['\n'].intercalate lines ++ ['\n']) target = .ok file) ∧
    (∀ text file, parseArchive decode text target = .ok file → file.rows.length < 2 ^ 53 →
      Exportable decode target file.rows file.header.cursor ∧
      ∃ lines, archiveLines file.rows (some file.header.cursor) target = .ok lines ∧
        parseArchive decode (['\n'].intercalate lines) target = .ok file) ∧
    ∀ a b, isValidCursor a = true → isValidCursor b = true →
      (textLt a b = true ↔ toidOf a < toidOf b ∨ toidOf a = toidOf b ∧ indexOf a < indexOf b) := by
  refine ⟨fun rows cursor h hlen => ?_, fun text file hr hlen => ?_, fun a b => textLt_iff⟩
  · refine ⟨_, archiveLines_eq rows cursor target, { header := headerOf target rows cursor, rows }, rfl, rfl, ?_, ?_⟩
    · refine parseArchive_of_lines h hlen ?_
      simpa only [List.append_nil] using splitLines_export (List.forall_mem_nil _)
    · refine parseArchive_of_lines h hlen ?_
      rw [intercalate_newline (by simp [exportLines])]
      exact splitLines_export (by simp)
  · obtain ⟨hheader, -, -⟩ := parseArchive_header hr
    have h := parseArchive_exportable hr
    refine ⟨h, _, archiveLines_eq _ _ target, ?_⟩
    have hlines : (splitLines (['\n'].intercalate (exportLines target file.rows file.header.cursor))).filter
        (fun l => trim l ≠ []) = exportLines target file.rows file.header.cursor := by
      simpa only [List.append_nil] using splitLines_export (List.forall_mem_nil _)
    rw [parseArchive_of_lines h hlen hlines, ← hheader]

/-- The archive of the deployment. -/
theorem archive_round_trip_archived : ∃ lines,
    archiveLines (Demo.archived.store.list Demo.archived.contractId) (some Demo.tip) Demo.exportTarget = .ok lines ∧
      ∃ file, parseArchive Demo.decodeRawXdr (['\n'].intercalate lines) Demo.exportTarget = .ok file ∧
        file.rows = Demo.archived.store.list Demo.archived.contractId := by
  obtain ⟨lines, hlines, file, hrows, -, hfile, -⟩ := (archive_round_trip Demo.decodeRawXdr Demo.exportTarget).1
    (Demo.archived.store.list Demo.archived.contractId) Demo.tip Demo.archived_exportable Demo.archived_length
  exact ⟨lines, hlines, file, hfile, hrows⟩

end Writz.Relayer

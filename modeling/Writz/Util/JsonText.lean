import Mathlib.Data.List.Basic
import Mathlib.Data.List.TakeDrop
import Mathlib.Tactic.IntervalCases
import Writz.Util.Json

/-!
# Texts that spell a JSON value

What a reader makes of a text that was written: a string behind its quotes, the digits of a number, the
members of an object. A text spells a value if the reader takes just that text for it, whatever follows.
-/

namespace Json

/-- What may follow a value inside another, or nothing. -/
def Delimits : List Char → Prop
  | [] => True
  | c :: _ => c = ',' ∨ c = ']' ∨ c = '}'

/-- A text spells a value. -/
structure Spells (t : List Char) (v : Json) : Prop where
  start : ∃ c cs, t = c :: cs ∧ isSpace c = false
  read : ∀ fuel rest, t.length < fuel → Delimits rest → readValue fuel (t ++ rest) = some (v, rest)

theorem skipSpace_cons {c : Char} (h : isSpace c = false) (s : List Char) : skipSpace (c :: s) = c :: s := by
  rw [skipSpace, List.dropWhile_cons, if_neg (by rw [h]; decide)]

theorem Spells.skipSpace {t : List Char} {v : Json} (h : Spells t v) (rest : List Char) :
    skipSpace (t ++ rest) = t ++ rest := by
  obtain ⟨c, cs, rfl, hc⟩ := h.start
  exact skipSpace_cons hc _

/-- A text that spells a value is read as it. -/
theorem Spells.parse {t : List Char} {v : Json} (h : Spells t v) : parse t = some v := by
  have hread := h.read (t.length + 1) [] (Nat.lt_succ_self _) trivial
  have hskip := h.skipSpace []
  rw [List.append_nil] at hread hskip
  rw [Json.parse, hskip, hread]
  rfl

/-! ## Strings -/

theorem hexValue_hexDigit {v : Nat} (h : v < 16) : hexValue (hexDigit v) = some v := by
  interval_cases v <;> rfl

theorem readHex4_control {n : Nat} (h : n < 0x20) (s : List Char) :
    readHex4 ('0' :: '0' :: hexDigit (n / 16) :: hexDigit (n % 16) :: s) = some (n, s) := by
  have hhigh : hexValue (hexDigit (n / 16)) = some (n / 16) := hexValue_hexDigit (by omega)
  have hlow : hexValue (hexDigit (n % 16)) = some (n % 16) := hexValue_hexDigit (by omega)
  have hzero : hexValue '0' = some 0 := rfl
  simp only [readHex4, hhigh, hlow, hzero, Option.bind_eq_bind, Option.bind_some, Option.some.injEq, Prod.mk.injEq,
    and_true]
  omega

/-- A character is read back as it was written. -/
theorem readChars_escape (c : Char) (fuel : Nat) (s : List Char) :
    readChars (fuel + 1) (escape c ++ s) = (readChars fuel s).map fun r => (c :: r.1, r.2) := by
  have hmap : ∀ r : Option (List Char × List Char),
      (r.bind fun r => some (c :: r.1, r.2)) = r.map fun r => (c :: r.1, r.2) :=
    fun _ => Option.map_eq_bind.symm
  unfold escape
  split_ifs with hquote hback hb hf hn hr ht hcontrol
  · subst hquote
    exact hmap _
  · subst hback
    exact hmap _
  · subst hb
    exact hmap _
  · subst hf
    exact hmap _
  · subst hn
    exact hmap _
  · subst hr
    exact hmap _
  · subst ht
    exact hmap _
  · have hunicode : readEscape ('u' :: '0' :: '0' :: hexDigit (c.toNat / 16) :: hexDigit (c.toNat % 16) :: s)
        = some (c, s) := by
      have hchar : unitChar c.toNat = c := by
        rw [unitChar, if_neg (by omega), Char.ofNat_toNat]
      change readUnicode _ = _
      rw [readUnicode, readHex4_control hcontrol]
      simp only [Option.bind_eq_bind, Option.bind_some]
      rw [if_neg (by omega), hchar]
    change readChars (fuel + 1) ('\\' :: 'u' :: '0' :: '0' :: hexDigit (c.toNat / 16) :: hexDigit (c.toNat % 16) :: s) = _
    rw [readChars, if_neg (by decide), if_pos rfl, hunicode]
    exact hmap _
  · change readChars (fuel + 1) (c :: s) = _
    rw [readChars, if_neg hquote, if_neg hback, if_neg hcontrol]
    exact hmap _

theorem readChars_quoted (s rest : List Char) : ∀ fuel, s.length < fuel →
    readChars fuel (s.flatMap escape ++ '"' :: rest) = some (s, rest) := by
  induction s with
  | nil =>
    intro fuel hfuel
    obtain ⟨fuel, rfl⟩ := Nat.exists_eq_add_of_lt hfuel
    rfl
  | cons c s ih =>
    intro fuel hfuel
    cases fuel with
    | zero => cases hfuel
    | succ fuel =>
      rw [List.flatMap_cons, List.append_assoc, readChars_escape, ih fuel (Nat.lt_of_succ_lt_succ hfuel)]
      rfl

theorem length_le_flatMap_escape (s : List Char) : s.length ≤ (s.flatMap escape).length := by
  have hpos : ∀ c, 1 ≤ (escape c).length := by
    intro c
    unfold escape
    split_ifs <;> simp
  induction s with
  | nil => rfl
  | cons c s ih =>
    rw [List.flatMap_cons, List.length_append, List.length_cons]
    have hc := hpos c
    omega

/-- A string is read back from its quotes, whatever follows. -/
theorem readString_quote (s rest : List Char) : readString (quote s ++ rest) = some (s, rest) := by
  have hform : quote s ++ rest = '"' :: (s.flatMap escape ++ '"' :: rest) := by simp [quote]
  have hlength := length_le_flatMap_escape s
  rw [hform, readString]
  refine readChars_quoted s rest _ ?_
  rw [List.length_append]
  omega

theorem spells_quote (s : List Char) : Spells (quote s) (.string s) := by
  refine ⟨⟨'"', _, rfl, rfl⟩, fun fuel rest hfuel _ => ?_⟩
  cases fuel with
  | zero => cases hfuel
  | succ fuel =>
    have hread : readValue (fuel + 1) (quote s ++ rest) = (readString (quote s ++ rest)).map fun r => (.string r.1, r.2) := rfl
    rw [hread, readString_quote]
    rfl

theorem spells_null : Spells "null".toList .null := by
  refine ⟨⟨'n', _, rfl, rfl⟩, fun fuel rest hfuel _ => ?_⟩
  cases fuel with
  | zero => cases hfuel
  | succ fuel => rfl

/-- No control character is left in what is written of a string. -/
theorem printable_of_mem_quote {s : List Char} {c : Char} (h : c ∈ quote s) : 0x20 ≤ c.toNat := by
  have hescape : ∀ c', ∀ c ∈ escape c', 0x20 ≤ c.toNat := by
    intro c' c hc
    have hhex : ∀ v < 16, 0x20 ≤ (hexDigit v).toNat := by decide
    unfold escape at hc
    split_ifs at hc with h1 h2 h3 h4 h5 h6 h7 h8
    · rcases List.mem_pair.mp hc with rfl | rfl <;> decide
    · rcases List.mem_pair.mp hc with rfl | rfl <;> decide
    · rcases List.mem_pair.mp hc with rfl | rfl <;> decide
    · rcases List.mem_pair.mp hc with rfl | rfl <;> decide
    · rcases List.mem_pair.mp hc with rfl | rfl <;> decide
    · rcases List.mem_pair.mp hc with rfl | rfl <;> decide
    · rcases List.mem_pair.mp hc with rfl | rfl <;> decide
    · simp only [List.mem_cons, List.not_mem_nil, or_false] at hc
      rcases hc with rfl | rfl | rfl | rfl | rfl | rfl
      · decide
      · decide
      · decide
      · decide
      · exact hhex _ (by omega)
      · exact hhex _ (by omega)
    · obtain rfl := List.mem_singleton.mp hc
      exact not_lt.mp h8
  rcases List.mem_append.mp h with hbody | hend
  · rcases List.mem_cons.mp hbody with rfl | hmem
    · decide
    · obtain ⟨c', -, hc⟩ := List.mem_flatMap.mp hmem
      exact hescape c' c hc
  · obtain rfl := List.mem_singleton.mp hend
    decide

/-! ## Numbers -/

/-- No number but zero is written with a zero first. -/
theorem head_toDigits (n : Nat) : ∀ {d : Char} {ds : List Char}, Nat.toDigits 10 n = '0' :: d :: ds → False := by
  induction n using Nat.strongRecOn with
  | ind n ih =>
    intro d ds h
    by_cases hlt : n < 10
    · have hlength := congrArg List.length h
      rw [Nat.toDigits_of_lt_base hlt, List.length_cons, List.length_cons] at hlength
      cases hlength
    · have hsplit := Nat.toDigits_of_base_le (n := n) (b := 10) (by decide) (by omega)
      rw [h] at hsplit
      rcases hrest : Nat.toDigits 10 (n / 10) with _ | ⟨c, _ | ⟨c', cs⟩⟩
      · exact Nat.toDigits_ne_nil hrest
      · rw [hrest] at hsplit
        cases hsplit
        have hvalue := Nat.ofDigitChars_ten_toDigits (n := n / 10)
        rw [hrest] at hvalue
        have hzero : Nat.ofDigitChars 10 ['0'] 0 = 0 := by decide
        omega
      · rw [hrest] at hsplit
        cases hsplit
        exact ih (n / 10) (by omega) hrest

theorem not_isDigit_of_delimits {rest : List Char} (h : Delimits rest) : ∀ c cs, rest = c :: cs → c.isDigit = false := by
  rintro c cs rfl
  rcases h with rfl | rfl | rfl <;> rfl

theorem takeDigits_append {ds rest : List Char} (hds : ∀ c ∈ ds, c.isDigit = true) (hrest : Delimits rest) :
    takeDigits (ds ++ rest) = (ds, rest) := by
  have hnone : rest.takeWhile Char.isDigit = [] ∧ rest.dropWhile Char.isDigit = rest := by
    cases rest with
    | nil => exact ⟨rfl, rfl⟩
    | cons c cs =>
      have hc := not_isDigit_of_delimits hrest c cs rfl
      rw [List.takeWhile_cons, List.dropWhile_cons, hc]
      exact ⟨rfl, rfl⟩
  rw [takeDigits, List.span_eq_takeWhile_dropWhile Char.isDigit, List.takeWhile_append_of_pos hds, List.dropWhile_append_of_pos hds,
    hnone.1, hnone.2, List.append_nil]

theorem readNumber_digits {n : Nat} {rest : List Char} (hrest : Delimits rest) :
    readNumber (Nat.toDigits 10 n ++ rest) = some (.number n 0, rest) := by
  have hdigits : ∀ c ∈ Nat.toDigits 10 n, c.isDigit = true := fun c hc =>
    Nat.isDigit_of_mem_toDigits (by decide) (by decide) hc
  have htake := takeDigits_append hdigits hrest
  have hvalue : digitsValue (Nat.toDigits 10 n) = n := Nat.ofDigitChars_ten_toDigits
  have hint : readInt (Nat.toDigits 10 n ++ rest) = some (Nat.toDigits 10 n, rest) := by
    unfold readInt
    rw [htake]
    split
    · next h => exact absurd (congrArg Prod.fst h) Nat.toDigits_ne_nil
    · next h => exact absurd (head_toDigits n (congrArg Prod.fst h)) id
    · next h =>
      cases h
      rfl
  have hfraction : readFraction rest = some ([], rest) := by
    unfold readFraction
    split
    · rcases hrest with h | h | h <;> cases h
    · rfl
  have hexponent : readExponent rest = some (0, rest) := by
    unfold readExponent
    split
    · rcases hrest with rfl | rfl | rfl <;> rfl
    · rfl
  rcases hform : Nat.toDigits 10 n with _ | ⟨c, cs⟩
  · exact absurd hform Nat.toDigits_ne_nil
  · have hminus : c ≠ '-' := by
      rintro rfl
      exact absurd (hdigits '-' (by rw [hform]; exact List.mem_cons_self)) (by decide)
    rw [hform] at hint hvalue
    rw [List.cons_append] at hint ⊢
    unfold readNumber
    split
    next sign s' hs =>
      split at hs
      · next h => exact absurd (List.cons.inj h).1 hminus
      cases hs
      simp only [hint, hfraction, hexponent, Option.bind_eq_bind, Option.bind_some, List.append_nil, hvalue, one_mul,
          List.length_nil, Nat.cast_zero, sub_zero]

theorem spells_nat (n : Nat) : Spells (Nat.toDigits 10 n) (.number n 0) := by
  rcases hform : Nat.toDigits 10 n with _ | ⟨c, cs⟩
  · exact absurd hform Nat.toDigits_ne_nil
  have hdigit : c.isDigit = true :=
    Nat.isDigit_of_mem_toDigits (b := 10) (n := n) (by decide) (by decide) (by rw [hform]; exact List.mem_cons_self)
  have hne : ∀ c', c'.isDigit = false → c ≠ c' := by
    rintro c' hc' rfl
    rw [hdigit] at hc'
    cases hc'
  refine ⟨⟨c, cs, rfl, ?_⟩, fun fuel rest hfuel hrest => ?_⟩
  · simp only [isSpace, Bool.or_eq_false_iff, beq_eq_false_iff_ne]
    exact ⟨⟨⟨hne _ rfl, hne _ rfl⟩, hne _ rfl⟩, hne _ rfl⟩
  · cases fuel with
    | zero => cases hfuel
    | succ fuel =>
      have hread : readValue (fuel + 1) (c :: cs ++ rest) = readNumber (c :: cs ++ rest) := by
        rw [List.cons_append, readValue]
        · exact fun s h => hne 'n' rfl (List.cons.inj h).1
        · exact fun s h => hne 't' rfl (List.cons.inj h).1
        · exact fun s h => hne 'f' rfl (List.cons.inj h).1
        · exact fun s h => hne '"' rfl (List.cons.inj h).1
        · exact fun s h => hne '[' rfl (List.cons.inj h).1
        · exact fun s h => hne '{' rfl (List.cons.inj h).1
      rw [hread, ← hform, readNumber_digits hrest]

theorem printable_of_mem_null {c : Char} (h : c ∈ "null".toList) : 0x20 ≤ c.toNat := by
  have hnull : "null".toList = ['n', 'u', 'l', 'l'] := rfl
  rw [hnull] at h
  simp only [List.mem_cons, List.not_mem_nil, or_false] at h
  rcases h with rfl | rfl | rfl | rfl <;> decide

theorem printable_of_mem_toDigits {n : Nat} {c : Char} (h : c ∈ Nat.toDigits 10 n) : 0x20 ≤ c.toNat := by
  have hdigit : c.isDigit = true := Nat.isDigit_of_mem_toDigits (by decide) (by decide) h
  have hle : 48 ≤ c.toNat := by
    unfold Char.isDigit at hdigit
    rw [Bool.and_eq_true, decide_eq_true_iff, decide_eq_true_iff] at hdigit
    exact UInt32.le_iff_toNat_le.mp hdigit.1
  omega

/-! ## Objects -/

/-- The text of a member. -/
def memberText (m : List Char × List Char) : List Char := quote m.1 ++ ':' :: m.2

section Members

variable {name t rest : List Char} {v : Json} {fuel : Nat}

-- the equations of `readMembers`, before the proofs that rewrite with them
attribute [local simp] readMembers

theorem length_memberText (name t : List Char) :
    (memberText (name, t)).length = (quote name).length + (t.length + 1) := by
  rw [memberText, List.length_append, List.length_cons]

theorem memberText_append (name t s : List Char) : memberText (name, t) ++ s = quote name ++ ':' :: (t ++ s) := by
  rw [memberText, List.append_assoc, List.cons_append]

/-- The last member ends the object. -/
theorem readMembers_last (h : Spells t v) (hfuel : t.length < fuel) :
    readMembers (fuel + 1) (memberText (name, t) ++ '\x7d' :: rest) = some ([(name, v)], rest) := by
  have hvalue : readValue fuel (t ++ '\x7d' :: rest) = some (v, '\x7d' :: rest) :=
    h.read fuel _ hfuel (.inr (.inr rfl))
  rw [memberText_append, readMembers]
  simp only [readString_quote, skipSpace_cons (show isSpace ':' = false from rfl), h.skipSpace, hvalue,
    skipSpace_cons (show isSpace '\x7d' = false from rfl)]

/-- After a member and a comma, the members go on. -/
theorem readMembers_next {s : List Char} (h : Spells t v) (hfuel : t.length < fuel) (hs : skipSpace s = s) :
    readMembers (fuel + 1) (memberText (name, t) ++ ',' :: s)
      = (readMembers fuel s).map fun r => ((name, v) :: r.1, r.2) := by
  have hvalue : readValue fuel (t ++ ',' :: s) = some (v, ',' :: s) := h.read fuel _ hfuel (.inl rfl)
  rw [memberText_append, readMembers]
  simp only [readString_quote, skipSpace_cons (show isSpace ':' = false from rfl), h.skipSpace, hvalue,
    skipSpace_cons (show isSpace ',' = false from rfl), hs]

end Members

/-- A member with its text, all on one line, and the value the text spells. -/
structure Member where
  name : List Char
  text : List Char
  value : Json
  spells : Spells text value
  printable : ∀ c ∈ text, 0x20 ≤ c.toNat

def Member.ofString (name : String) (s : List Char) : Member where
  name := name.toList
  text := quote s
  value := .string s
  spells := spells_quote s
  printable _ := printable_of_mem_quote

def Member.ofNat (name : String) (n : Nat) : Member where
  name := name.toList
  text := Nat.toDigits 10 n
  value := .number n 0
  spells := spells_nat n
  printable _ := printable_of_mem_toDigits

/-- A number that may be missing. -/
def Member.ofOption (name : String) (n : Option Nat) : Member where
  name := name.toList
  text := (n.map (Nat.toDigits 10)).getD "null".toList
  value := (n.map fun n => .number n 0).getD .null
  spells := by
    cases n with
    | none => exact spells_null
    | some n => exact spells_nat n
  printable := by
    cases n with
    | none => exact fun _ => printable_of_mem_null
    | some n => exact fun _ => printable_of_mem_toDigits

/-- The members' texts, with commas between them. -/
def membersText (ms : List Member) : List Char := [','].intercalate (ms.map fun m => memberText (m.name, m.text))

theorem membersText_singleton (m : Member) : membersText [m] = memberText (m.name, m.text) := by
  simp [membersText, List.intercalate]

theorem membersText_cons (m m' : Member) (ms : List Member) :
    membersText (m :: m' :: ms) = memberText (m.name, m.text) ++ ',' :: membersText (m' :: ms) := by
  simp [membersText, List.intercalate]

/-- A text of members starts with a quote. -/
theorem membersText_start (m : Member) (ms : List Member) : ∃ s, membersText (m :: ms) = '"' :: s := by
  cases ms with
  | nil =>
    rw [membersText_singleton, memberText, quote]
    exact ⟨_, rfl⟩
  | cons m' ms =>
    rw [membersText_cons, memberText, quote]
    exact ⟨_, rfl⟩

theorem skipSpace_membersText (m : Member) (ms : List Member) (rest : List Char) :
    skipSpace (membersText (m :: ms) ++ rest) = membersText (m :: ms) ++ rest := by
  obtain ⟨s, hs⟩ := membersText_start m ms
  rw [hs]
  exact skipSpace_cons rfl _

/-- The members that are written are read. -/
theorem readMembers_text (rest : List Char) (ms : List Member) : ∀ m fuel, (membersText (m :: ms)).length < fuel →
    readMembers fuel (membersText (m :: ms) ++ '\x7d' :: rest)
      = some ((m :: ms).map fun m => (m.name, m.value), rest) := by
  induction ms with
  | nil =>
    intro m fuel hfuel
    rw [membersText_singleton, length_memberText] at hfuel
    cases fuel with
    | zero => cases hfuel
    | succ fuel =>
      rw [membersText_singleton, readMembers_last m.spells (by omega)]
      rfl
  | cons m' ms ih =>
    intro m fuel hfuel
    rw [membersText_cons, List.length_append, List.length_cons, length_memberText] at hfuel
    cases fuel with
    | zero => cases hfuel
    | succ fuel =>
      have hrest := ih m' fuel (by omega)
      have hskip := skipSpace_membersText m' ms ('\x7d' :: rest)
      rw [membersText_cons, List.append_assoc, List.cons_append, readMembers_next m.spells (by omega) hskip, hrest]
      rfl

/-- The text of an object. -/
def objectText (ms : List Member) : List Char := '\x7b' :: membersText ms ++ ['\x7d']

theorem spells_object (ms : List Member) : Spells (objectText ms) (.object (ms.map fun m => (m.name, m.value))) := by
  refine ⟨⟨'\x7b', _, rfl, rfl⟩, fun fuel rest hfuel _ => ?_⟩
  cases fuel with
  | zero => cases hfuel
  | succ fuel =>
    have htext : objectText ms ++ rest = '\x7b' :: (membersText ms ++ '\x7d' :: rest) := by simp [objectText]
    rw [htext]
    cases ms with
    | nil => rfl
    | cons m ms =>
      have hlength : (membersText (m :: ms)).length < fuel := by
        rw [objectText, List.length_append, List.length_cons, List.length_singleton] at hfuel
        omega
      have hmembers := readMembers_text rest ms m fuel hlength
      obtain ⟨s, hs⟩ := membersText_start m ms
      have hskip := skipSpace_membersText m ms ('\x7d' :: rest)
      rw [hs, List.cons_append] at hskip hmembers
      rw [hs, List.cons_append]
      unfold readValue
      simp only [hskip]
      change (readMembers fuel ('"' :: (s ++ '\x7d' :: rest))).map _ = _
      rw [hmembers]
      rfl

theorem printable_of_mem_memberText {m : Member} {c : Char} (h : c ∈ memberText (m.name, m.text)) : 0x20 ≤ c.toNat := by
  rcases List.mem_append.mp h with hname | hrest
  · exact printable_of_mem_quote hname
  · rcases List.mem_cons.mp hrest with rfl | htext
    · decide
    · exact m.printable c htext

/-- An object is written on one line. -/
theorem printable_of_mem_objectText {ms : List Member} {c : Char} (h : c ∈ objectText ms) : 0x20 ≤ c.toNat := by
  have hmembers : ∀ ms : List Member, ∀ c ∈ membersText ms, 0x20 ≤ c.toNat := by
    intro ms
    induction ms with
    | nil => exact fun c hc => absurd hc List.not_mem_nil
    | cons m ms ih =>
      intro c hc
      cases ms with
      | nil =>
        rw [membersText_singleton] at hc
        exact printable_of_mem_memberText hc
      | cons m' ms =>
        rw [membersText_cons] at hc
        rcases List.mem_append.mp hc with hm | hrest
        · exact printable_of_mem_memberText hm
        · rcases List.mem_cons.mp hrest with rfl | hrest
          · decide
          · exact ih c hrest
  rcases List.mem_append.mp h with hbody | hend
  · rcases List.mem_cons.mp hbody with rfl | hbody
    · decide
    · exact hmembers ms c hbody
  · obtain rfl := List.mem_singleton.mp hend
    decide

end Json

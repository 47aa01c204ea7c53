import Writz.Frontend.UsdcAmount

/-!
# Proofs: USDC amounts

Both readers see a whole part and decimals, and the amount of these. They see the same ones, except where
the comma is read as a decimal point by one and left out by the other.
-/

namespace Writz.Frontend.UsdcAmount

open Node RegularExpression

def IsDigits (s : Text) : Prop := ∀ c ∈ s, c.isDigit = true

/-! ## What the regular expressions match -/

theorem mem_digits_iff {c : Char} :
    c ∈ ['0', '1', '2', '3', '4', '5', '6', '7', '8', '9'] ↔ c.isDigit = true := by
  constructor
  · intro h
    simp only [List.mem_cons, List.not_mem_nil, or_false] at h
    rcases h with rfl | rfl | rfl | rfl | rfl | rfl | rfl | rfl | rfl | rfl <;> rfl
  · intro h
    obtain ⟨h48, h57⟩ := isDigit_iff.mp h
    have hc : c = Char.ofNat c.toNat := (Char.ofNat_toNat c).symm
    rw [hc]
    generalize c.toNat = n at h48 h57
    interval_cases n <;> decide

theorem digits_rmatch_iff {v : Text} : digit.star.rmatch v ↔ IsDigits v := by
  rw [digit, anyOf_star_rmatch_iff]
  exact forall₂_congr fun c _ => mem_digits_iff

theorem digit_pow_rmatch_iff {k : Nat} {v : Text} : (digit ^ k).rmatch v ↔ v.length = k ∧ IsDigits v := by
  rw [digit, anyOf_pow_rmatch_iff]
  exact and_congr_right fun _ => forall₂_congr fun c _ => mem_digits_iff

/-- `v` is a whole part, or a whole part and decimals after a point. -/
structure Spells (v whole frac : Text) : Prop where
  whole_digits : IsDigits whole
  frac_digits : IsDigits frac
  text : v = whole ∧ frac = [] ∨ v = whole ++ '.' :: frac

theorem plainNumber_iff {v : Text} : plainNumber.rmatch v ↔ ∃ whole frac, Spells v whole frac := by
  simp only [plainNumber, mul_rmatch_iff, optional_rmatch_iff, char_rmatch_iff, digits_rmatch_iff]
  constructor
  · rintro ⟨a, _, rfl, ha, _, b, rfl, rfl | rfl, hb⟩
    · refine ⟨a ++ b, [], ⟨fun c hc => ?_, fun c hc => (List.not_mem_nil hc).elim, .inl ⟨rfl, rfl⟩⟩⟩
      exact (List.mem_append.mp hc).elim (ha c) (hb c)
    · exact ⟨a, b, ⟨ha, hb, .inr rfl⟩⟩
  · rintro ⟨a, b, ⟨ha, hb, htext⟩⟩
    rcases htext with ⟨rfl, rfl⟩ | rfl
    · exact ⟨v, [], by simp, ha, [], [], rfl, .inl rfl, hb⟩
    · exact ⟨a, '.' :: b, rfl, ha, ['.'], b, rfl, .inr rfl, hb⟩

/-- Groups of three digits, each after a comma. -/
theorem groups_rmatch_iff {v : Text} : (oneOrMore (char ',' * digit ^ 3)).rmatch v ↔
    ∃ groups : List Text, groups ≠ [] ∧ v = commaGroups groups ∧ ∀ g ∈ groups, g.length = 3 ∧ IsDigits g := by
  simp only [oneOrMore_rmatch_iff, mul_rmatch_iff, char_rmatch_iff, digit_pow_rmatch_iff]
  constructor
  · rintro ⟨parts, hne, rfl, hparts⟩
    refine ⟨parts.map List.tail, by simpa using hne, ?_, ?_⟩
    · have hcomma : ∀ p ∈ parts, ',' :: p.tail = p := by
        intro p hp
        obtain ⟨_, d, rfl, rfl, -⟩ := hparts p hp
        rfl
      rw [commaGroups, List.map_map]
      exact congrArg List.flatten ((List.map_congr_left hcomma).trans (List.map_id _)).symm
    · intro g hg
      obtain ⟨p, hp, rfl⟩ := List.mem_map.mp hg
      obtain ⟨_, d, rfl, rfl, hd⟩ := hparts p hp
      exact hd
  · rintro ⟨groups, hne, rfl, hgroups⟩
    refine ⟨groups.map (',' :: ·), by simpa using hne, rfl, fun p hp => ?_⟩
    obtain ⟨g, hg, rfl⟩ := List.mem_map.mp hp
    exact ⟨[','], g, rfl, rfl, hgroups g hg⟩

theorem groupedNumber_iff {v : Text} : groupedNumber.rmatch v ↔
    ∃ head groups rest, v = head ++ (commaGroups groups ++ rest) ∧ groups ≠ [] ∧ IsGrouped head groups ∧
      (rest = [] ∨ ∃ frac, IsDigits frac ∧ rest = '.' :: frac) := by
  simp only [groupedNumber, mul_rmatch_iff, add_rmatch_iff, optional_rmatch_iff, char_rmatch_iff, digits_rmatch_iff,
    digit_pow_rmatch_iff, groups_rmatch_iff]
  constructor
  · rintro ⟨head, _, rfl, hhead, _, rest, rfl, ⟨groups, hne, rfl, hgroups⟩, hrest⟩
    refine ⟨head, groups, rest, rfl, hne, ?_, ?_⟩
    · rcases hhead with ⟨hlen, hd⟩ | ⟨hlen, hd⟩ | ⟨hlen, hd⟩
      all_goals exact ⟨hd, by omega, by omega, hgroups⟩
    · rcases hrest with hrest | ⟨_, frac, rfl, rfl, hfrac⟩
      · exact .inl hrest
      · exact .inr ⟨frac, hfrac, rfl⟩
  · rintro ⟨head, groups, rest, rfl, hne, hgrouped, hrest⟩
    refine ⟨head, _, rfl, ?_, _, rest, rfl, ⟨groups, hne, rfl, hgrouped.groups_digits⟩, ?_⟩
    · have hpos := hgrouped.head_pos
      have hle := hgrouped.head_le
      have hd : IsDigits head := hgrouped.head_digits
      rcases (by omega : head.length = 1 ∨ head.length = 2 ∨ head.length = 3) with hlen | hlen | hlen
      · exact .inl ⟨hlen, hd⟩
      · exact .inr (.inl ⟨hlen, hd⟩)
      · exact .inr (.inr ⟨hlen, hd⟩)
    · rcases hrest with hrest | ⟨frac, hfrac, rfl⟩
      · exact .inl hrest
      · exact .inr ⟨['.'], frac, rfl, rfl, hfrac⟩

/-! ## The amount of a text -/

section Reading

variable {v whole frac : Text}

theorem not_mem_of_digits {c : Char} (h : IsDigits v) (hc : c.isDigit = false) : c ∉ v := by
  intro hmem
  rw [h c hmem] at hc
  cases hc

theorem Spells.splitPoint (h : Spells v whole frac) : splitPoint v = (whole, frac) := by
  have hwhole : '.' ∉ whole := not_mem_of_digits h.whole_digits rfl
  have hfrac : '.' ∉ frac := not_mem_of_digits h.frac_digits rfl
  rcases h.text with ⟨rfl, rfl⟩ | rfl
  · rw [UsdcAmount.splitPoint, List.splitOn_eq_singleton hwhole]
  · rw [UsdcAmount.splitPoint, List.splitOn_append_cons_self_of_not_mem hwhole, List.splitOn_eq_singleton hfrac]

/-- The stroops that a whole part and at most seven decimals are worth. -/
def amount (whole frac : Text) : Nat := Json.digitsValue (whole ++ padEnd 7 '0' frac)

theorem length_padEnd (hlen : frac.length ≤ 7) : (padEnd 7 '0' frac).length = 7 := by
  rw [padEnd, List.length_append, List.length_replicate]
  omega

theorem amount_eq (hlen : frac.length ≤ 7) :
    amount whole frac = Json.digitsValue whole * 10000000 + Json.digitsValue (padEnd 7 '0' frac) := by
  rw [amount, digitsValue_append, length_padEnd hlen, Nat.mul_comm]
  rfl

theorem isDigits_padEnd (hfrac : IsDigits frac) : IsDigits (padEnd 7 '0' frac) := by
  intro c hc
  rcases List.mem_append.mp hc with hc | hc
  · exact hfrac c hc
  · rw [List.eq_of_mem_replicate hc]
    rfl

theorem amount_pos_iff (hwhole : IsDigits whole) (hfrac : IsDigits frac) :
    0 < amount whole frac ↔ ∃ c ∈ whole ++ frac, c ≠ '0' := by
  have hdigits : IsDigits (whole ++ padEnd 7 '0' frac) := fun c hc =>
    (List.mem_append.mp hc).elim (hwhole c) (isDigits_padEnd hfrac c)
  rw [amount, digitsValue_pos_iff hdigits]
  refine exists_congr fun c => ?_
  simp only [padEnd, List.mem_append, List.mem_replicate]
  tauto

theorem toBigInt_digits (h : IsDigits v) (hne : v ≠ []) : toBigInt v = .ok (Json.digitsValue v : Int) := by
  have hdecimal : isDecimal v = true := by
    rw [isDecimal, Bool.and_eq_true, Bool.not_eq_true', List.isEmpty_eq_false_iff, List.all_eq_true]
    exact ⟨hne, h⟩
  rw [toBigInt, bigIntOfText_of_isDecimal hdecimal]
  rfl

theorem stroopsOf_digits (hwhole : IsDigits whole) (hfrac : IsDigits frac) (hlen : frac.length ≤ 7) :
    stroopsOf whole frac = .ok (amount whole frac : Int) := by
  have hunits : toBigInt (if whole.isEmpty then "0".toList else whole) = .ok (Json.digitsValue whole : Int) := by
    cases whole with
    | nil => rfl
    | cons c whole => exact toBigInt_digits hwhole (List.cons_ne_nil c whole)
  have hrest : toBigInt (padEnd 7 '0' frac) = .ok (Json.digitsValue (padEnd 7 '0' frac) : Int) := by
    refine toBigInt_digits (isDigits_padEnd hfrac) ?_
    exact List.ne_nil_of_length_eq_add_one (length_padEnd hlen)
  unfold stroopsOf
  rw [hunits, hrest, amount_eq hlen]
  push_cast
  rfl

theorem Spells.ne_of_pos (h : Spells v whole frac) (hpos : 0 < amount whole frac) : v ≠ [] ∧ v ≠ ".".toList := by
  obtain ⟨c, hc, hne⟩ := (amount_pos_iff h.whole_digits h.frac_digits).mp hpos
  have hmem : c ∈ v := by
    rcases h.text with ⟨rfl, rfl⟩ | rfl
    · simpa using hc
    · simp only [List.mem_append, List.mem_cons] at hc ⊢
      tauto
  have hdigit : c.isDigit = true :=
    (List.mem_append.mp hc).elim (h.whole_digits c) (h.frac_digits c)
  constructor
  · rintro rfl
    cases hmem
  · rintro rfl
    rw [List.mem_singleton.mp hmem] at hdigit
    revert hdigit
    decide

theorem Spells.unique {whole' frac' : Text} (h : Spells v whole frac) (h' : Spells v whole' frac') :
    whole' = whole ∧ frac' = frac := by
  have heq := h'.splitPoint.symm.trans h.splitPoint
  exact ⟨congrArg Prod.fst heq, congrArg Prod.snd heq⟩

/-- What a field spells: a whole part and at most seven decimals, not all zero. -/
def Worth (v : Text) (n : Int) : Prop :=
  ∃ whole frac, Spells v whole frac ∧ frac.length ≤ 7 ∧ 0 < amount whole frac ∧ n = amount whole frac

/-- A text of the form of a number, and one that is not. -/
theorem exists_spells_of_form (hform : ¬ (¬ plainNumber.rmatch v = true ∨ v = ".".toList)) :
    ∃ whole frac, Spells v whole frac := by
  rw [not_or, not_not] at hform
  exact plainNumber_iff.mp hform.1

theorem Spells.form (h : Spells v whole frac) (hpos : 0 < amount whole frac) :
    ¬ (¬ plainNumber.rmatch v = true ∨ v = ".".toList) := by
  rw [not_or, not_not]
  exact ⟨plainNumber_iff.mpr ⟨whole, frac, h⟩, (h.ne_of_pos hpos).2⟩

theorem toStroops_iff {input : Text} {n : Int} :
    toStroops input = .ok (some n) ↔ Worth ((trim input).filter (· ≠ ',')) n := by
  unfold toStroops
  generalize (trim input).filter (· ≠ ',') = v
  dsimp only
  constructor
  · intro h
    by_cases hform : ¬ plainNumber.rmatch v = true ∨ v = [] ∨ v = ".".toList
    · rw [if_pos hform] at h
      cases h
    rw [if_neg hform] at h
    obtain ⟨whole, frac, hspells⟩ := exists_spells_of_form (fun hc => hform (hc.imp_right .inr))
    rw [hspells.splitPoint] at h
    dsimp only at h
    by_cases hlen : frac.length > 7
    · rw [if_pos hlen] at h
      cases h
    rw [if_neg hlen, stroopsOf_digits hspells.whole_digits hspells.frac_digits (not_lt.mp hlen)] at h
    have hvalue : (if (amount whole frac : Int) > 0 then some (amount whole frac : Int) else none) = some n :=
      Except.ok.inj h
    split_ifs at hvalue with hpos
    exact ⟨whole, frac, hspells, not_lt.mp hlen, by omega, (Option.some.inj hvalue).symm⟩
  · rintro ⟨whole, frac, hspells, hlen, hpos, rfl⟩
    have hform : ¬ (¬ plainNumber.rmatch v = true ∨ v = [] ∨ v = ".".toList) := by
      rintro (hplain | hnil | hpoint)
      · exact hspells.form hpos (.inl hplain)
      · exact (hspells.ne_of_pos hpos).1 hnil
      · exact (hspells.ne_of_pos hpos).2 hpoint
    have hpos' : (amount whole frac : Int) > 0 := by omega
    rw [if_neg hform, hspells.splitPoint]
    dsimp only
    rw [if_neg (not_lt.mpr hlen), stroopsOf_digits hspells.whole_digits hspells.frac_digits hlen]
    exact congrArg Except.ok (if_pos hpos')

theorem parseUsdcAmount_iff {input : Text} {n : Int} :
    parseUsdcAmount input = .ok (.ok n) ↔ Worth (readCommas ((trim input).filter (!isTrimmed ·))) n := by
  unfold parseUsdcAmount
  generalize (trim input).filter (!isTrimmed ·) = u
  dsimp only
  constructor
  · intro h
    by_cases hempty : u.isEmpty = true
    · rw [if_pos hempty] at h
      cases h
    rw [if_neg hempty] at h
    by_cases hform : ¬ plainNumber.rmatch (readCommas u) = true ∨ readCommas u = ".".toList
    · rw [if_pos hform] at h
      cases h
    rw [if_neg hform] at h
    obtain ⟨whole, frac, hspells⟩ := exists_spells_of_form hform
    rw [hspells.splitPoint] at h
    dsimp only at h
    by_cases hlen : frac.length > 7
    · rw [if_pos hlen] at h
      cases h
    rw [if_neg hlen, stroopsOf_digits hspells.whole_digits hspells.frac_digits (not_lt.mp hlen)] at h
    change (if (amount whole frac : Int) ≤ 0 then (Except.ok (UsdcParse.error "Enter an amount above 0.") : Result UsdcParse)
        else .ok (.ok (amount whole frac : Int))) = .ok (.ok n) at h
    by_cases hpos : (amount whole frac : Int) ≤ 0
    · rw [if_pos hpos] at h
      cases h
    rw [if_neg hpos] at h
    exact ⟨whole, frac, hspells, not_lt.mp hlen, by omega, (UsdcParse.ok.inj (Except.ok.inj h)).symm⟩
  · rintro ⟨whole, frac, hspells, hlen, hpos, rfl⟩
    have hempty : ¬ u.isEmpty = true := by
      intro hc
      rw [List.isEmpty_iff.mp hc] at hspells
      exact (hspells.ne_of_pos hpos).1 rfl
    have hpos' : ¬ (amount whole frac : Int) ≤ 0 := by omega
    rw [if_neg hempty, if_neg (hspells.form hpos), hspells.splitPoint]
    dsimp only
    rw [if_neg (not_lt.mpr hlen), stroopsOf_digits hspells.whole_digits hspells.frac_digits hlen]
    exact if_neg hpos'

theorem Worth.unique {m n : Int} (hm : Worth v m) (hn : Worth v n) : m = n := by
  obtain ⟨whole, frac, hspells, -, -, rfl⟩ := hm
  obtain ⟨whole', frac', hspells', -, -, rfl⟩ := hn
  obtain ⟨rfl, rfl⟩ := hspells.unique hspells'
  rfl

theorem Worth.mem {n : Int} (h : Worth v n) {c : Char} (hc : c ∈ v) : c.isDigit = true ∨ c = '.' := by
  obtain ⟨whole, frac, hspells, -⟩ := h
  rcases hspells.text with ⟨rfl, rfl⟩ | rfl
  · exact .inl (hspells.whole_digits c hc)
  · rcases List.mem_append.mp hc with hc | hc
    · exact .inl (hspells.whole_digits c hc)
    rcases List.mem_cons.mp hc with hc | hc
    · exact .inr hc
    · exact .inl (hspells.frac_digits c hc)

end Reading

/-! ## Two readings of a comma -/

section Commas

variable {v whole frac : Text}

theorem replaceFirst_of_not_mem {c d : Char} (h : c ∉ v) : replaceFirst c d v = v := by
  induction v with
  | nil => rfl
  | cons x v ih =>
    have hx : x ≠ c := fun he => h (he ▸ List.mem_cons_self)
    rw [replaceFirst, if_neg hx, ih fun hmem => h (List.mem_cons_of_mem x hmem)]

theorem replaceFirst_append {c d : Char} (h : c ∉ whole) :
    replaceFirst c d (whole ++ c :: frac) = whole ++ d :: frac := by
  induction whole with
  | nil => exact if_pos rfl
  | cons x whole ih =>
    have hx : x ≠ c := fun he => h (he ▸ List.mem_cons_self)
    rw [List.cons_append, replaceFirst, if_neg hx, ih fun hmem => h (List.mem_cons_of_mem x hmem)]
    rfl

theorem filter_comma_digits (h : IsDigits v) : v.filter (· ≠ ',') = v := by
  refine List.filter_eq_self.mpr fun c hc => ?_
  have hne : c ≠ ',' := fun he => not_mem_of_digits h rfl (he ▸ hc)
  simpa using hne

/-- Digits, a comma and one to seven digits that are not a group of thousands, not all of them zero. -/
def DecimalComma (v : Text) : Prop :=
  ∃ whole frac, v = whole ++ ',' :: frac ∧ IsDigits whole ∧ IsDigits frac ∧ 1 ≤ frac.length ∧ frac.length ≤ 7 ∧
    ¬ (1 ≤ whole.length ∧ whole.length ≤ 3 ∧ frac.length = 3) ∧ ∃ c ∈ whole ++ frac, c ≠ '0'

/-- With one comma, the thousands form is a group of three digits after it. -/
theorem groupedNumber_comma_iff (hwhole : IsDigits whole) (hfrac : IsDigits frac) :
    groupedNumber.rmatch (whole ++ ',' :: frac) ↔ 1 ≤ whole.length ∧ whole.length ≤ 3 ∧ frac.length = 3 := by
  rw [groupedNumber_iff]
  constructor
  · rintro ⟨head, groups, rest, heq, hne, hgrouped, hrest⟩
    cases groups with
    | nil => exact absurd rfl hne
    | cons g groups =>
      have heq' : whole ++ ',' :: frac = head ++ ',' :: (g ++ commaGroups groups ++ rest) := heq
      obtain ⟨rfl, -, rfl⟩ := (List.append_cons_inj_of_notMem (not_mem_of_digits hwhole rfl)
        (not_mem_of_digits hfrac rfl)).mp heq'
      have hgroups : groups = [] := by
        cases groups with
        | nil => rfl
        | cons g' groups => exact absurd (by simp [commaGroups]) (not_mem_of_digits hfrac (c := ',') rfl)
      have hrest' : rest = [] := by
        rcases hrest with hrest | ⟨f, -, rfl⟩
        · exact hrest
        · exact absurd (by simp) (not_mem_of_digits hfrac (c := '.') rfl)
      rw [hgroups, hrest', commaGroups, List.map_nil, List.flatten_nil, List.append_nil, List.append_nil]
      exact ⟨hgrouped.head_pos, hgrouped.head_le, (hgrouped.groups_digits g List.mem_cons_self).1⟩
  · rintro ⟨hpos, hle, hlen⟩
    refine ⟨whole, [frac], [], by simp [commaGroups], List.cons_ne_nil _ _, ⟨hwhole, hpos, hle, fun g hg => ?_⟩, .inl rfl⟩
    rw [List.mem_singleton.mp hg]
    exact ⟨hlen, hfrac⟩

theorem amount_pad (whole frac : Text) :
    amount whole frac = 10 ^ (7 - frac.length) * Json.digitsValue (whole ++ frac) := by
  rw [amount, padEnd, ← List.append_assoc, digitsValue_append, digitsValue_replicate, List.length_replicate,
    Nat.add_zero]

/-- Without a comma, and in the thousands form, both leave the commas out. -/
theorem readCommas_eq_filter (h : groupedNumber.rmatch v = true ∨ ',' ∉ v) :
    readCommas v = v.filter (· ≠ ',') := by
  unfold readCommas
  by_cases hgrouped : groupedNumber.rmatch v = true
  · rw [if_pos hgrouped]
  · have hcomma : ',' ∉ v := h.resolve_left hgrouped
    rw [if_neg hgrouped, replaceFirst_of_not_mem hcomma]
    refine (List.filter_eq_self.mpr fun c hc => ?_).symm
    have hne : c ≠ ',' := fun he => hcomma (he ▸ hc)
    simpa using hne

theorem decimalComma_of_ne {m n : Int} (hm : Worth (readCommas v) m) (hn : Worth (v.filter (· ≠ ',')) n)
    (hne : m ≠ n) : DecimalComma v := by
  have hboth : ¬ (groupedNumber.rmatch v = true ∨ ',' ∉ v) := by
    intro hc
    rw [readCommas_eq_filter hc] at hm
    exact hne (hm.unique hn)
  rw [not_or, not_not] at hboth
  obtain ⟨hgrouped, hcomma⟩ := hboth
  obtain ⟨a, b, rfl, ha⟩ := List.eq_append_cons_of_mem hcomma
  rw [readCommas, if_neg hgrouped, replaceFirst_append ha] at hm
  obtain ⟨whole, frac, hspells, hlen, hpos, rfl⟩ := hm
  have hparts : whole = a ∧ frac = b := by
    rcases hspells.text with ⟨htext, -⟩ | htext
    · exact absurd (by simp [← htext]) (not_mem_of_digits hspells.whole_digits (c := '.') rfl)
    · obtain ⟨rfl, -, rfl⟩ := (List.append_cons_inj_of_notMem (not_mem_of_digits hspells.whole_digits rfl)
        (not_mem_of_digits hspells.frac_digits rfl)).mp htext.symm
      exact ⟨rfl, rfl⟩
  obtain ⟨rfl, rfl⟩ := hparts
  have hwhole := hspells.whole_digits
  have hfrac := hspells.frac_digits
  refine ⟨whole, frac, rfl, hwhole, hfrac, ?_, hlen, ?_, (amount_pos_iff hwhole hfrac).mp hpos⟩
  · -- without decimals both read the whole part
    by_contra hzero
    have hnil : frac = [] := List.length_eq_zero_iff.mp (by omega)
    subst hnil
    have hfilter : (whole ++ [',']).filter (· ≠ ',') = whole := by
      rw [List.filter_append, filter_comma_digits hwhole]
      simp
    rw [hfilter] at hn
    exact hne (Worth.unique ⟨whole, [], ⟨hwhole, hfrac, .inl ⟨rfl, rfl⟩⟩, hlen, hpos, rfl⟩ hn)
  · rw [← groupedNumber_comma_iff hwhole hfrac]
    exact hgrouped

theorem DecimalComma.worth (h : DecimalComma v) :
    ∃ m n : Int, Worth (readCommas v) m ∧ Worth (v.filter (· ≠ ',')) n ∧ m ≠ n := by
  obtain ⟨whole, frac, rfl, hwhole, hfrac, hfrac1, hlen, hgroup, hpos⟩ := h
  have hcomma : ',' ∉ whole := not_mem_of_digits hwhole rfl
  have hread : readCommas (whole ++ ',' :: frac) = whole ++ '.' :: frac := by
    rw [readCommas, if_neg (by rwa [groupedNumber_comma_iff hwhole hfrac]), replaceFirst_append hcomma]
  have hfilter : (whole ++ ',' :: frac).filter (· ≠ ',') = whole ++ frac := by
    rw [List.filter_append, filter_comma_digits hwhole, List.filter_cons_of_neg (by simp), filter_comma_digits hfrac]
  have hdigits : IsDigits (whole ++ frac) := fun c hc => (List.mem_append.mp hc).elim (hwhole c) (hfrac c)
  have hpos' : 0 < amount whole frac := (amount_pos_iff hwhole hfrac).mpr hpos
  have hpos'' : 0 < amount (whole ++ frac) [] := by
    rw [amount_pos_iff hdigits fun c hc => (List.not_mem_nil hc).elim, List.append_nil]
    exact hpos
  refine ⟨amount whole frac, amount (whole ++ frac) [], ?_, ?_, ?_⟩
  · rw [hread]
    exact ⟨whole, frac, ⟨hwhole, hfrac, .inr rfl⟩, hlen, hpos', rfl⟩
  · rw [hfilter]
    exact ⟨whole ++ frac, [], ⟨hdigits, fun c hc => (List.not_mem_nil hc).elim, .inl ⟨rfl, rfl⟩⟩, by simp, hpos'', rfl⟩
  · -- the decimals are read as units: a power of ten more for each
    have hvalue : 0 < Json.digitsValue (whole ++ frac) := (digitsValue_pos_iff hdigits).mpr hpos
    have hpow : 10 ^ (7 - frac.length) < 10 ^ 7 := Nat.pow_lt_pow_right (by decide) (by omega)
    have hlt : amount whole frac < amount (whole ++ frac) [] := by
      rw [amount_pad, amount_pad, List.append_nil]
      exact Nat.mul_lt_mul_of_pos_right hpow hvalue
    omega

theorem isTrimmed_eq_false {c : Char} (h : c.isDigit = true ∨ c = '.' ∨ c = ',') : isTrimmed c = false := by
  rcases h with h | rfl | rfl
  · exact isTrimmed_of_isDigit h
  · rfl
  · rfl

theorem filter_trimmed (h : ∀ c ∈ v, c.isDigit = true ∨ c = '.' ∨ c = ',') : v.filter (!isTrimmed ·) = v := by
  refine List.filter_eq_self.mpr fun c hc => ?_
  rw [isTrimmed_eq_false (h c hc)]
  rfl

/-- The two readers agree on a text exactly when it has no decimal comma. -/
theorem agree_iff (input : Text) :
    (∀ m n, parseUsdcAmount input = .ok (.ok m) → toStroops input = .ok (some n) → m = n) ↔
      ¬ DecimalComma (trim input) := by
  simp only [parseUsdcAmount_iff, toStroops_iff]
  constructor
  · intro hagree hcomma
    have hfilter : (trim input).filter (!isTrimmed ·) = trim input := by
      obtain ⟨whole, frac, heq, hwhole, hfrac, -⟩ := hcomma
      rw [heq]
      refine filter_trimmed fun c hc => ?_
      rcases List.mem_append.mp hc with hc | hc
      · exact .inl (hwhole c hc)
      rcases List.mem_cons.mp hc with hc | hc
      · exact .inr (.inr hc)
      · exact .inl (hfrac c hc)
    obtain ⟨m, n, hm, hn, hne⟩ := hcomma.worth
    rw [hfilter] at hagree
    exact hne (hagree m n hm hn)
  · intro hcomma m n hm hn
    have hfilter : (trim input).filter (!isTrimmed ·) = trim input := by
      refine filter_trimmed fun c hc => ?_
      by_cases hc' : c = ','
      · exact .inr (.inr hc')
      · rcases hn.mem (List.mem_filter.mpr ⟨hc, by simpa using hc'⟩) with hdigit | hpoint
        · exact .inl hdigit
        · exact .inr (.inl hpoint)
    rw [hfilter] at hm
    by_contra hne
    exact hcomma (decimalComma_of_ne hm hn hne)

end Commas

/-! ## What the fields are filled with -/

section Fields

variable {ds frac : Text}

theorem mem_groupDigits (hds : IsDigits ds) {c : Char} (hc : c ∈ groupDigits ds) : c.isDigit = true ∨ c = ',' := by
  by_cases hcomma : c = ','
  · exact .inr hcomma
  · have hmem : c ∈ (groupDigits ds).filter (· ≠ ',') := List.mem_filter.mpr ⟨hc, by simpa using hcomma⟩
    rw [filter_groupDigits hds] at hmem
    exact .inl (hds c hmem)

theorem mem_field (hds : IsDigits ds) (hfrac : IsDigits frac) {c : Char}
    (hc : c ∈ groupDigits ds ++ '.' :: frac) : c.isDigit = true ∨ c = '.' ∨ c = ',' := by
  rcases List.mem_append.mp hc with hc | hc
  · exact (mem_groupDigits hds hc).imp_right .inr
  rcases List.mem_cons.mp hc with hc | hc
  · exact .inr (.inl hc)
  · exact .inl (hfrac c hc)

theorem filter_field (hds : IsDigits ds) (hfrac : IsDigits frac) :
    (groupDigits ds ++ '.' :: frac).filter (· ≠ ',') = ds ++ '.' :: frac := by
  rw [List.filter_append, filter_groupDigits hds, List.filter_cons_of_pos (by simp), filter_comma_digits hfrac]

/-- What is grouped is of the thousands form, unless it is too short for a comma. -/
theorem grouped_field (hds : IsDigits ds) (hne : ds ≠ []) (hfrac : IsDigits frac) :
    groupedNumber.rmatch (groupDigits ds ++ '.' :: frac) = true ∨ ',' ∉ groupDigits ds ++ '.' :: frac := by
  obtain ⟨head, groups, heq, hgrouped⟩ := exists_isGrouped hds hne
  rw [heq]
  by_cases hgroups : groups = []
  · refine .inr fun hmem => ?_
    rw [hgroups, commaGroups, List.map_nil, List.flatten_nil, List.append_nil] at hmem
    rcases List.mem_append.mp hmem with hmem | hmem
    · exact not_mem_of_digits hgrouped.head_digits rfl hmem
    · exact not_mem_of_digits hfrac rfl ((List.mem_cons.mp hmem).resolve_left (by decide))
  · refine .inl (groupedNumber_iff.mpr ⟨head, groups, '.' :: frac, ?_, hgroups, hgrouped, .inr ⟨frac, hfrac, rfl⟩⟩)
    rw [List.append_assoc]

/-- Both read the field that shows digits, grouped, and decimals. -/
theorem read_field (hds : IsDigits ds) (hne : ds ≠ []) (hfrac : IsDigits frac) (hlen : frac.length ≤ 7)
    (hpos : 0 < amount ds frac) :
    parseUsdcAmount (groupDigits ds ++ '.' :: frac) = .ok (.ok (amount ds frac)) ∧
      toStroops (groupDigits ds ++ '.' :: frac) = .ok (some (amount ds frac : Int)) := by
  have hmem := fun c (hc : c ∈ groupDigits ds ++ '.' :: frac) => mem_field hds hfrac hc
  have htrim : trim (groupDigits ds ++ '.' :: frac) = groupDigits ds ++ '.' :: frac :=
    trim_eq_self fun c hc => isTrimmed_eq_false (hmem c hc)
  have hworth : Worth (ds ++ '.' :: frac) (amount ds frac) := ⟨ds, frac, ⟨hds, hfrac, .inr rfl⟩, hlen, hpos, rfl⟩
  constructor
  · rw [parseUsdcAmount_iff, htrim, filter_trimmed hmem, readCommas_eq_filter (grouped_field hds hne hfrac),
      filter_field hds hfrac]
    exact hworth
  · rw [toStroops_iff, htrim, filter_field hds hfrac]
    exact hworth

/-- The Earn flows read grouped digits without a point. -/
theorem toStroops_groupDigits (hds : IsDigits ds) (hpos : 0 < amount ds []) :
    toStroops (groupDigits ds) = .ok (some (amount ds [] : Int)) := by
  have htrim : trim (groupDigits ds) = groupDigits ds :=
    trim_eq_self fun c hc => isTrimmed_eq_false ((mem_groupDigits hds hc).imp_right .inr)
  rw [toStroops_iff, htrim, filter_groupDigits hds]
  exact ⟨ds, [], ⟨hds, fun c hc => (List.not_mem_nil hc).elim, .inl ⟨rfl, rfl⟩⟩, by simp, hpos, rfl⟩

end Fields

section Amounts

theorem isDigits_decimal (n : Nat) : IsDigits (Nat.toDigits 10 n) := fun _ hc => isDigit_of_mem_decimal hc

theorem isDigits_padStart {k : Nat} {s : Text} (h : IsDigits s) : IsDigits (padStart k '0' s) := by
  intro c hc
  rcases List.mem_append.mp hc with hc | hc
  · rw [List.eq_of_mem_replicate hc]
    rfl
  · exact h c hc

theorem length_padStart {k n : Nat} (hk : 0 < k) (hn : n < 10 ^ k) : (padStart k '0' (Nat.toDigits 10 n)).length = k := by
  rw [padStart_toDigits (by decide) hk hn, length_lastDigits]

/-- The seven decimals of an amount. -/
def decimals (s : Nat) : Text := padStart 7 '0' (Nat.toDigits 10 (s % 10000000))

/-- The decimals without the zeros that end them. -/
def shortDecimals (s : Nat) : Text := (decimals s).rdropWhile (· == '0')

theorem length_decimals (s : Nat) : (decimals s).length = 7 :=
  length_padStart (by decide) (Nat.mod_lt _ (by decide))

theorem isDigits_shortDecimals (s : Nat) : IsDigits (shortDecimals s) := fun c hc =>
  isDigits_padStart (isDigits_decimal _) c ((List.rdropWhile_prefix _ _).subset hc)

theorem length_shortDecimals_le (s : Nat) : (shortDecimals s).length ≤ 7 :=
  (List.rdropWhile_prefix _ _).length_le.trans (length_decimals s).le

/-- Digits that pad to the seven decimals of an amount are worth it. -/
theorem amount_of_padEnd {s : Nat} {frac : Text} (hlen : frac.length ≤ 7) (h : padEnd 7 '0' frac = decimals s) :
    amount (Nat.toDigits 10 (s / 10000000)) frac = s := by
  rw [amount_eq hlen, h, decimals, digitsValue_padStart, digitsValue_decimal, digitsValue_decimal]
  omega

theorem bigIntText_natCast (base n : Nat) : bigIntText base (n : Int) = Nat.toDigits base n := rfl

theorem toExactFieldValue_natCast (s : Nat) :
    toExactFieldValue s = groupDigits (Nat.toDigits 10 (s / 10000000)) ++ '.' :: padEnd 2 '0' (shortDecimals s) := by
  have hunits : (s : Int).tdiv STROOP = ((s / 10000000 : Nat) : Int) := Int.ofNat_tdiv s 10000000
  have hrest : (s : Int).tmod STROOP = ((s % 10000000 : Nat) : Int) := Int.ofNat_tmod s 10000000
  rw [toExactFieldValue, hunits, hrest, toLocaleString_natCast, bigIntText_natCast, List.append_assoc]
  rfl

theorem fmtUsdc_natCast (s : Nat) :
    fmtUsdc s = groupDigits (Nat.toDigits 10 (s / 10000000)) ++
      (if shortDecimals s = [] then [] else '.' :: shortDecimals s) := by
  have hunits : (s : Int).tdiv STROOP = ((s / 10000000 : Nat) : Int) := Int.ofNat_tdiv s 10000000
  have hrest : (s : Int).tmod STROOP = ((s % 10000000 : Nat) : Int) := Int.ofNat_tmod s 10000000
  have hnonneg : ¬ (s : Int) < 0 := by omega
  unfold fmtUsdc
  simp only [hnonneg, if_false, hunits, hrest, toLocaleString_natCast, bigIntText_natCast, List.nil_append,
    List.isEmpty_iff]
  rfl

theorem toFieldValue_natCast (s : Nat) :
    toFieldValue s = groupDigits (Nat.toDigits 10 (s / 100000 / 100)) ++
      '.' :: padStart 2 '0' (Nat.toDigits 10 (s / 100000 % 100)) := by
  have hcents : (s : Int).tdiv (STROOP.tdiv 100) = ((s / 100000 : Nat) : Int) := Int.ofNat_tdiv s 100000
  have hunits : ((s / 100000 : Nat) : Int).tdiv 100 = ((s / 100000 / 100 : Nat) : Int) := Int.ofNat_tdiv _ 100
  have hrest : ((s / 100000 : Nat) : Int).tmod 100 = ((s / 100000 % 100 : Nat) : Int) := Int.ofNat_tmod _ 100
  rw [toFieldValue, hcents, hunits, hrest, toLocaleString_natCast, bigIntText_natCast, List.append_assoc]
  rfl

/-- The exact field is read as the amount. -/
theorem read_toExactFieldValue {s : Nat} (hs : 0 < s) :
    parseUsdcAmount (toExactFieldValue s) = .ok (.ok s) ∧ toStroops (toExactFieldValue s) = .ok (some (s : Int)) := by
  have hfrac : IsDigits (padEnd 2 '0' (shortDecimals s)) := by
    intro c hc
    rcases List.mem_append.mp hc with hc | hc
    · exact isDigits_shortDecimals s c hc
    · rw [List.eq_of_mem_replicate hc]
      rfl
  have hlen : (padEnd 2 '0' (shortDecimals s)).length ≤ 7 := by
    have hle := length_shortDecimals_le s
    rw [padEnd, List.length_append, List.length_replicate]
    omega
  have hamount := amount_of_padEnd hlen (s := s) (by
    rw [padEnd_padEnd (by decide), shortDecimals, padEnd_rdropWhile (length_decimals s)])
  have hread := read_field (isDigits_decimal (s / 10000000)) Nat.toDigits_ne_nil hfrac hlen (by rwa [hamount])
  rw [hamount] at hread
  rw [toExactFieldValue_natCast]
  exact hread

theorem toStroops_fmtUsdc {s : Nat} (hs : 0 < s) : toStroops (fmtUsdc s) = .ok (some (s : Int)) := by
  have hamount := amount_of_padEnd (length_shortDecimals_le s) (padEnd_rdropWhile (length_decimals s))
  rw [fmtUsdc_natCast]
  by_cases hshort : shortDecimals s = []
  · rw [hshort] at hamount
    rw [if_pos hshort, List.append_nil, toStroops_groupDigits (isDigits_decimal _) (by rwa [hamount]), hamount]
  · have hread := read_field (isDigits_decimal (s / 10000000)) Nat.toDigits_ne_nil (isDigits_shortDecimals s)
      (length_shortDecimals_le s) (by rwa [hamount])
    rw [if_neg hshort, hread.2, hamount]

/-- The field of cents is read as the cents. -/
theorem parseUsdcAmount_toFieldValue {s : Nat} (hs : 100000 ≤ s) :
    parseUsdcAmount (toFieldValue s) = .ok (.ok (s / 100000 * 100000 : Nat)) := by
  have hlen : (padStart 2 '0' (Nat.toDigits 10 (s / 100000 % 100))).length = 2 :=
    length_padStart (by decide) (Nat.mod_lt _ (by decide))
  have hamount : amount (Nat.toDigits 10 (s / 100000 / 100)) (padStart 2 '0' (Nat.toDigits 10 (s / 100000 % 100))) =
      s / 100000 * 100000 := by
    rw [amount_eq (by omega), digitsValue_padEnd, hlen, digitsValue_padStart, digitsValue_decimal, digitsValue_decimal]
    omega
  have hread := read_field (isDigits_decimal (s / 100000 / 100)) Nat.toDigits_ne_nil
    (isDigits_padStart (isDigits_decimal (s / 100000 % 100))) (hlen.le.trans (by decide)) (by omega)
  rw [hamount] at hread
  rw [toFieldValue_natCast]
  exact hread.1

end Amounts

/-- The two readers agree on a text unless it has a decimal comma; what the app fills the fields with is read as
the amount, or as its cents. -/
theorem amounts_agree_iff (input : Text) :
    ((∀ m n, parseUsdcAmount input = .ok (.ok m) → toStroops input = .ok (some n) → m = n) ↔
      ¬ DecimalComma (trim input)) ∧
    (∀ s, 0 < s → parseUsdcAmount (toExactFieldValue s) = .ok (.ok s) ∧ toStroops (fmtUsdc s) = .ok (some s) ∧
      toStroops (toExactFieldValue s) = .ok (some s)) ∧
    (∀ s, 100000 ≤ s → parseUsdcAmount (toFieldValue s) = .ok (.ok (s / 100000 * 100000))) := by
  refine ⟨agree_iff input, fun s hs => ?_, fun s hs => ?_⟩
  · obtain ⟨n, rfl⟩ := Int.eq_ofNat_of_zero_le hs.le
    have hn : 0 < n := by omega
    exact ⟨(read_toExactFieldValue hn).1, toStroops_fmtUsdc hn, (read_toExactFieldValue hn).2⟩
  · obtain ⟨n, rfl⟩ := Int.eq_ofNat_of_zero_le (le_trans (by decide) hs)
    have hn : 100000 ≤ n := by omega
    exact parseUsdcAmount_toFieldValue hn

/-- 1,402.67 USDC. -/
theorem amounts_agree_grouped :
    parseUsdcAmount (toExactFieldValue 14026700000) = .ok (.ok 14026700000) ∧
      toStroops (fmtUsdc 14026700000) = .ok (some 14026700000) ∧
      toStroops (toExactFieldValue 14026700000) = .ok (some 14026700000) :=
  (amounts_agree_iff "1,402.67".toList).2.1 14026700000 (by decide)

/-- A comma typed as a decimal point makes ten times the amount on the other page. -/
theorem decimal_comma_disagrees :
    parseUsdcAmount "1,5".toList = .ok (.ok 15000000) ∧ toStroops "1,5".toList = .ok (some 150000000) :=
  ⟨by decide, by decide⟩

end Writz.Frontend.UsdcAmount

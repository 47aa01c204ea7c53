import Mathlib.Data.List.DropRight
import Writz.Node.Buffer
import Writz.Node.Number

/-!
# Decimal and hex texts

Reading the number that was written, and writing one with leading zeros.
-/

namespace Writz.Node

theorem isDigit_iff {c : Char} : c.isDigit = true ↔ 48 ≤ c.toNat ∧ c.toNat ≤ 57 := by
  unfold Char.isDigit
  rw [Bool.and_eq_true, decide_eq_true_iff, decide_eq_true_iff]
  exact and_congr UInt32.le_iff_toNat_le UInt32.le_iff_toNat_le

theorem digitsValue_decimal (n : Nat) : Json.digitsValue (Nat.toDigits 10 n) = n :=
  Nat.ofDigitChars_ten_toDigits

theorem isDigit_of_mem_decimal {n : Nat} {c : Char} (h : c ∈ Nat.toDigits 10 n) : c.isDigit = true :=
  Nat.isDigit_of_mem_toDigits (by decide) (by decide) h

theorem isDecimal_decimal (n : Nat) : isDecimal (Nat.toDigits 10 n) = true := by
  rw [isDecimal, Bool.and_eq_true, Bool.not_eq_true', List.isEmpty_eq_false_iff, List.all_eq_true]
  exact ⟨Nat.toDigits_ne_nil, fun c hc => isDigit_of_mem_decimal hc⟩

/-! ## Reading an integer -/

/-- A text with no white space is not trimmed. -/
theorem trim_eq_self {s : Text} (h : ∀ c ∈ s, isTrimmed c = false) : trim s = s := by
  have hself : ∀ t : Text, (∀ c ∈ t, isTrimmed c = false) → t.dropWhile isTrimmed = t := by
    intro t ht
    cases t with
    | nil => rfl
    | cons c t => rw [List.dropWhile_cons, if_neg (by rw [ht c List.mem_cons_self]; decide)]
  rw [trim, hself s h, hself s.reverse fun c hc => h c (List.mem_reverse.mp hc), List.reverse_reverse]

theorem isTrimmed_of_isDigit {c : Char} (h : c.isDigit = true) : isTrimmed c = false := by
  obtain ⟨h48, h57⟩ := isDigit_iff.mp h
  rw [isTrimmed, decide_eq_false_iff_not]
  intro hmem
  simp only [List.mem_cons, List.not_mem_nil, or_false] at hmem
  omega

theorem bigIntOfText_of_isDecimal {s : Text} (h : isDecimal s = true) :
    bigIntOfText s = some (Json.digitsValue s : Int) := by
  have hdigit : ∀ c ∈ s, c.isDigit = true := by
    rw [isDecimal, Bool.and_eq_true] at h
    exact List.all_eq_true.mp h.2
  have htrim : trim s = s := trim_eq_self fun c hc => isTrimmed_of_isDigit (hdigit c hc)
  have hnot : ∀ c, c.isDigit = false → c ∉ s := by
    intro c hc hmem
    rw [hdigit c hmem] at hc
    cases hc
  unfold bigIntOfText
  rw [htrim]
  split
  · cases h
  -- a base is marked by a letter, a sign is no digit
  · exact absurd (by simp) (hnot 'x' (by decide))
  · exact absurd (by simp) (hnot 'X' (by decide))
  · exact absurd (by simp) (hnot 'o' (by decide))
  · exact absurd (by simp) (hnot 'O' (by decide))
  · exact absurd (by simp) (hnot 'b' (by decide))
  · exact absurd (by simp) (hnot 'B' (by decide))
  · exact absurd (by simp) (hnot '-' (by decide))
  · exact absurd (by simp) (hnot '+' (by decide))
  · rw [if_pos h]

theorem bigIntOfText_decimal (n : Nat) : bigIntOfText (Nat.toDigits 10 n) = some (n : Int) := by
  rw [bigIntOfText_of_isDecimal (isDecimal_decimal n), digitsValue_decimal]

/-! ## Hex -/

theorem foldlM_encode (bs : Bytes) (n : Nat) :
    (Hex.encode bs).foldlM (fun n c => do
      let d ← Json.hexValue c
      if d < 16 then some (16 * n + d) else none) n =
    some (n * 256 ^ bs.length + LittleEndian.decode bs.reverse) := by
  induction bs generalizing n with
  | nil =>
    change some n = some (n * 256 ^ 0 + 0)
    rw [pow_zero, mul_one, add_zero]
  | cons b bs ih =>
    have hb : b.toNat < 256 := b.toNat_lt
    have hhigh : Json.hexValue (Hex.digit (b.toNat / 16)) = some (b.toNat / 16) :=
      Hex.value_digit (by omega)
    have hlow : Json.hexValue (Hex.digit (b.toNat % 16)) = some (b.toNat % 16) :=
      Hex.value_digit (by omega)
    have hrest := ih (256 * n + b.toNat)
    have hstep : 16 * (16 * n + b.toNat / 16) + b.toNat % 16 = 256 * n + b.toNat := by omega
    change (Hex.digit (b.toNat / 16) :: Hex.digit (b.toNat % 16) :: Hex.encode bs).foldlM _ n = _
    rw [List.foldlM_cons, hhigh]
    simp only [Option.bind_eq_bind, Option.bind_some]
    rw [if_pos (by omega), Option.bind_some, List.foldlM_cons, hlow]
    simp only [Option.bind_eq_bind, Option.bind_some] at hrest ⊢
    rw [if_pos (by omega), Option.bind_some, hstep, hrest, List.reverse_cons,
      LittleEndian.decode_append, List.length_reverse, List.length_cons, pow_succ]
    simp only [LittleEndian.decode]
    congr 1
    ring

theorem isTrimmed_digit {v : Nat} (h : v < 16) : isTrimmed (Hex.digit v) = false := by
  interval_cases v <;> rfl

theorem mem_encode {bs : Bytes} {c : Char} (h : c ∈ Hex.encode bs) : ∃ v < 16, c = Hex.digit v := by
  obtain ⟨b, -, hc⟩ := List.mem_flatMap.mp h
  have hb : b.toNat < 256 := b.toNat_lt
  rcases List.mem_pair.mp hc with rfl | rfl
  · exact ⟨_, by omega, rfl⟩
  · exact ⟨_, by omega, rfl⟩

/-- Hex digits are not trimmed. -/
theorem trim_encode (bs : Bytes) : trim (Hex.encode bs) = Hex.encode bs := by
  refine trim_eq_self fun c hc => ?_
  obtain ⟨v, hv, rfl⟩ := mem_encode hc
  exact isTrimmed_digit hv

theorem bigIntOfText_hex {bs : Bytes} (h : bs ≠ []) :
    bigIntOfText ("0x".toList ++ Hex.encode bs) = some (LittleEndian.decode bs.reverse : Int) := by
  have htrim : trim ('0' :: 'x' :: Hex.encode bs) = '0' :: 'x' :: Hex.encode bs := by
    refine trim_eq_self fun c hc => ?_
    rcases List.mem_cons.mp hc with rfl | hc
    · rfl
    rcases List.mem_cons.mp hc with rfl | hc
    · rfl
    obtain ⟨v, hv, rfl⟩ := mem_encode hc
    exact isTrimmed_digit hv
  have hne : (Hex.encode bs).isEmpty = false := by
    cases bs with
    | nil => exact absurd rfl h
    | cons b bs => rfl
  have hvalue : valueInBase 16 (Hex.encode bs) = some (LittleEndian.decode bs.reverse) := by
    rw [valueInBase, hne, if_neg (by decide), foldlM_encode, zero_mul, zero_add]
  change bigIntOfText ('0' :: 'x' :: Hex.encode bs) = _
  unfold bigIntOfText
  rw [htrim]
  change (valueInBase 16 (Hex.encode bs)).map Int.ofNat = _
  rw [hvalue]
  rfl

/-! ## Leading and trailing zeros -/

/-- `n.toString(base)` of a `bigint`. -/
def bigIntText (base : Nat) : Int → Text
  | .ofNat n => Nat.toDigits base n
  | .negSucc n => '-' :: Nat.toDigits base (n + 1)

/-- `s.padStart(k, c)`. -/
def padStart (k : Nat) (c : Char) (s : Text) : Text := List.replicate (k - s.length) c ++ s

/-- `s.padEnd(k, c)`. -/
def padEnd (k : Nat) (c : Char) (s : Text) : Text := s ++ List.replicate (k - s.length) c

theorem digitsValue_append (a b : Text) :
    Json.digitsValue (a ++ b) = 10 ^ b.length * Json.digitsValue a + Json.digitsValue b := by
  have h := Nat.ofDigitChars_append (b := 10) (l := a) (m := b) 0
  rw [Nat.ofDigitChars_eq_ofDigitChars_zero (l := b)] at h
  exact h

theorem digitsValue_replicate (k : Nat) : Json.digitsValue (List.replicate k '0') = 0 :=
  (Nat.ofDigitChars_replicate_zero (b := 10) (n := k)).trans (Nat.mul_zero _)

theorem digitsValue_padStart (k : Nat) (s : Text) : Json.digitsValue (padStart k '0' s) = Json.digitsValue s := by
  rw [padStart, digitsValue_append, digitsValue_replicate, Nat.mul_zero, Nat.zero_add]

theorem digitsValue_padEnd (k : Nat) (s : Text) :
    Json.digitsValue (padEnd k '0' s) = 10 ^ (k - s.length) * Json.digitsValue s := by
  rw [padEnd, digitsValue_append, digitsValue_replicate, List.length_replicate, Nat.add_zero]

/-- Digits are worth nothing when they are all zero. -/
theorem digitsValue_pos_iff {s : Text} (h : ∀ c ∈ s, c.isDigit = true) :
    0 < Json.digitsValue s ↔ ∃ c ∈ s, c ≠ '0' := by
  induction s with
  | nil => simp [Json.digitsValue]
  | cons c s ih =>
    have hrest := ih fun d hd => h d (List.mem_cons_of_mem _ hd)
    have hc : 0 < Json.digitsValue [c] ↔ c ≠ '0' := by
      obtain ⟨h48, -⟩ := isDigit_iff.mp (h c List.mem_cons_self)
      have hvalue : Json.digitsValue [c] = c.toNat - 48 := by simp [Json.digitsValue, Json.digitValue]
      have hne : c ≠ '0' ↔ c.toNat ≠ 48 := (Char.toNat_inj (c := c) (d := '0')).not.symm
      rw [hvalue, hne]
      omega
    have happend := digitsValue_append [c] s
    rw [List.singleton_append] at happend
    rw [happend, List.exists_mem_cons_iff, ← hc, ← hrest]
    constructor
    · intro hpos
      by_contra hzero
      simp only [not_or, not_lt, Nat.le_zero] at hzero
      rw [hzero.1, hzero.2] at hpos
      omega
    · rintro (hpos | hpos)
      · have := Nat.mul_pos (Nat.pow_pos (n := s.length) (show 0 < 10 by decide)) hpos
        omega
      · omega

/-- The zeros that end a text of `k` characters are padded again. -/
theorem padEnd_rdropWhile {k : Nat} {s : Text} (h : s.length = k) :
    padEnd k '0' (s.rdropWhile (· == '0')) = s := by
  have hsplit := List.rdropWhile_append_rtakeWhile (p := (· == '0')) (l := s)
  have hzeros : s.rtakeWhile (· == '0') = List.replicate (s.rtakeWhile (· == '0')).length '0' := by
    refine List.eq_replicate_length.mpr fun c hc => ?_
    have hzero : (c == ('0' : Char)) = true := List.mem_rtakeWhile_imp (p := (· == '0')) hc
    exact eq_of_beq hzero
  have hlen : (s.rtakeWhile (· == '0')).length = k - (s.rdropWhile (· == '0')).length := by
    have hlen' := congrArg List.length hsplit
    rw [List.length_append, h] at hlen'
    omega
  rw [hlen] at hzeros
  rw [padEnd, ← hzeros]
  exact hsplit

/-- Padding to fewer characters first changes nothing. -/
theorem padEnd_padEnd {k j : Nat} (h : j ≤ k) (c : Char) (s : Text) : padEnd k c (padEnd j c s) = padEnd k c s := by
  rw [padEnd, padEnd, padEnd, List.append_assoc, ← List.replicate_add, List.length_append, List.length_replicate]
  congr 2
  omega

/-- The last `k` digits of a number in a base. -/
def lastDigits (base : Nat) : Nat → Nat → Text
  | 0, _ => []
  | k + 1, n => lastDigits base k (n / base) ++ [(n % base).digitChar]

theorem lastDigits_succ (base k n : Nat) :
    lastDigits base (k + 1) n = lastDigits base k (n / base) ++ [(n % base).digitChar] := rfl

theorem length_lastDigits (base k n : Nat) : (lastDigits base k n).length = k := by
  induction k generalizing n with
  | zero => rfl
  | succ k ih => rw [lastDigits_succ, List.length_append, ih, List.length_singleton]

theorem lastDigits_zero (base k : Nat) : lastDigits base k 0 = List.replicate k '0' := by
  induction k with
  | zero => rfl
  | succ k ih =>
    rw [lastDigits_succ, Nat.zero_div, Nat.zero_mod, ih, List.replicate_succ']
    rfl

/-- The digits of a number that has at most `k`, padded with zeros. -/
theorem padStart_toDigits {base k n : Nat} (hbase : 1 < base) (hk : 0 < k) (hn : n < base ^ k) :
    padStart k '0' (Nat.toDigits base n) = lastDigits base k n := by
  induction k generalizing n with
  | zero => omega
  | succ k ih =>
    by_cases hsmall : n < base
    · rw [Nat.toDigits_of_lt_base hsmall, lastDigits_succ, Nat.div_eq_of_lt hsmall, Nat.mod_eq_of_lt hsmall,
        lastDigits_zero, padStart, List.length_singleton, Nat.add_sub_cancel]
    · have hle : base ≤ n := not_lt.mp hsmall
      have hpos : 0 < k := by
        rcases Nat.eq_zero_or_pos k with hzero | hpos
        · rw [hzero, zero_add, pow_one] at hn
          omega
        · exact hpos
      have hdiv : n / base < base ^ k := Nat.div_lt_of_lt_mul (by rwa [← Nat.pow_succ'])
      have hlen : (Nat.toDigits base (n / base)).length + 1 = (Nat.toDigits base n).length := by
        rw [Nat.toDigits_of_base_le hbase hle, List.length_append, List.length_singleton]
      rw [lastDigits_succ, ← ih hpos hdiv, padStart, padStart, ← hlen, Nat.add_sub_add_right,
        Nat.toDigits_of_base_le hbase hle, List.append_assoc]

theorem digitChar_eq {v : Nat} (h : v < 16) : v.digitChar = Hex.digit v := by
  interval_cases v <;> rfl

/-- The hex text of the big-endian bytes of a number. -/
theorem encode_reverse_encode (k n : Nat) :
    Hex.encode (LittleEndian.encode k n).reverse = lastDigits 16 (2 * k) n := by
  induction k generalizing n with
  | zero => rfl
  | succ k ih =>
    have hbyte : (UInt8.ofNat (n % 256)).toNat = n % 256 := LittleEndian.toNat_ofNat_mod n
    have hhigh : n % 256 / 16 = n / 16 % 16 := by omega
    have hlow : n % 256 % 16 = n % 16 := by omega
    rw [LittleEndian.encode, List.reverse_cons, Hex.encode_append, ih, show 2 * (k + 1) = 2 * k + 1 + 1 by ring,
      lastDigits_succ, lastDigits_succ, Nat.div_div_eq_div_mul, List.append_assoc]
    change _ ++ Hex.encodeByte (UInt8.ofNat (n % 256)) = _
    rw [Hex.encodeByte, hbyte, hhigh, hlow, digitChar_eq (by omega), digitChar_eq (by omega)]
    rfl

/-- The bytes of the padded hex digits of a number. -/
theorem fromHex_padStart {k n : Nat} (hk : 0 < k) (hn : n < 256 ^ k) :
    fromHex (padStart (2 * k) '0' (Nat.toDigits 16 n)) = (LittleEndian.encode k n).reverse := by
  have hpow : n < 16 ^ (2 * k) := by
    rw [pow_mul]
    exact hn
  rw [padStart_toDigits (by decide) (by omega) hpow, ← encode_reverse_encode]
  exact fromHex_of_decode (Hex.decode_encode _)

end Writz.Node

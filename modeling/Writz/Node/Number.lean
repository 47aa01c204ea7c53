import Mathlib.Algebra.Order.Field.Power
import Mathlib.Algebra.Order.Field.Rat
import Mathlib.Data.Rat.Floor
import Mathlib.Tactic.Linarith
import Mathlib.Tactic.NormNum
import Writz.Util.Json

/-!
# Numbers, as the TypeScript code uses them

A number is a binary64 value: the exact result of an operation is rounded to the nearest one, ties to
the one with an even last bit. A `bigint` is an integer.
-/

namespace Writz.Node

/-- A number other than `NaN`. -/
inductive Number where
  | finite (value : Rat)
  | infinite (negative : Bool)
  deriving DecidableEq

namespace Number

def pow2 : Int → Rat
  | .ofNat n => 2 ^ n
  | .negSucc n => 1 / 2 ^ (n + 1)

def pow10 : Int → Rat
  | .ofNat n => 10 ^ n
  | .negSucc n => 1 / 10 ^ (n + 1)

/-- The exponent of the leading bit of a positive value. -/
def leadingBit (q : Rat) : Int :=
  let k : Int := Nat.log2 q.num.natAbs - Nat.log2 q.den
  if pow2 k ≤ q then k else k - 1

/-- The nearest integer, the even one of two. -/
def roundHalfEven (q : Rat) : Int :=
  let below := q.floor
  let rest := q - below
  if rest < 1 / 2 then below
  else if 1 / 2 < rest then below + 1
  else if below % 2 = 0 then below
  else below + 1

/-- The number nearest to a positive value, with 53 significant bits. -/
def ofPos (negative : Bool) (q : Rat) : Number :=
  let lastBit := max (leadingBit q - 52) (-1074)
  let rounded := roundHalfEven (q / pow2 lastBit) * pow2 lastBit
  if pow2 1024 ≤ rounded then .infinite negative
  else .finite (if negative then -rounded else rounded)

def ofRat (q : Rat) : Number :=
  if q = 0 then .finite 0 else if q < 0 then ofPos true (-q) else ofPos false q

/-- The number that a decimal spells. -/
def ofDecimal (mantissa exponent : Int) : Number := ofRat (mantissa * pow10 exponent)

/-- `a - b`; `none` for `NaN`. -/
def sub : Number → Number → Option Number
  | .finite a, .finite b => some (ofRat (a - b))
  | .finite _, .infinite negative => some (.infinite !negative)
  | .infinite negative, .finite _ => some (.infinite negative)
  | .infinite negative, .infinite negative' =>
    if negative = negative' then none else some (.infinite negative)

/-- `a > b`. -/
def exceeds : Number → Rat → Bool
  | .finite a, b => decide (b < a)
  | .infinite negative, _ => !negative

/-- A number that is a natural number. -/
def toNat? : Number → Option Nat
  | .finite q => if q.den = 1 ∧ 0 ≤ q.num then some q.num.toNat else none
  | .infinite _ => none

end Number

/-- `typeof v === "number"`. -/
def asNumber : Json → Option Number
  | .number mantissa exponent => some (.ofDecimal mantissa exponent)
  | _ => none

/-! ## Rounding -/

namespace Number

theorem pow2_eq (k : Int) : pow2 k = (2 : Rat) ^ k := by
  cases k with
  | ofNat n => exact (zpow_natCast 2 n).symm
  | negSucc n =>
    rw [zpow_negSucc, pow2, one_div]

theorem pow2_pos (k : Int) : 0 < pow2 k := by
  rw [pow2_eq]
  exact zpow_pos (by norm_num) k

theorem roundHalfEven_intCast (z : Int) : roundHalfEven (z : Rat) = z := by
  have hfloor : (z : Rat).floor = z := Rat.floor_intCast z
  unfold roundHalfEven
  dsimp only
  rw [hfloor, sub_self, if_pos (by norm_num)]

/-- Rounding does not cross an integer. -/
theorem le_roundHalfEven {q : Rat} {z : Int} (h : (z : Rat) ≤ q) : z ≤ roundHalfEven q := by
  have hfloor : z ≤ q.floor := Rat.le_floor_iff.mpr h
  unfold roundHalfEven
  dsimp only
  split_ifs <;> omega

theorem leadingBit_natCast {n : Nat} (h : 0 < n) : leadingBit (n : Rat) = Nat.log2 n := by
  have hle : (2 : Rat) ^ Nat.log2 n ≤ n := by
    exact_mod_cast Nat.log2_self_le (Nat.pos_iff_ne_zero.mp h)
  have hone : Nat.log2 1 = 0 := by decide
  unfold leadingBit
  simp only [Rat.num_natCast, Int.natAbs_natCast, Rat.den_natCast, hone, Nat.cast_zero, sub_zero]
  rw [if_pos]
  rw [pow2_eq, zpow_natCast]
  exact hle

/-- A value with at most 53 bits is not rounded. -/
theorem ofPos_natCast {n : Nat} (hpos : 0 < n) (h : n < 2 ^ 53) :
    ofPos false n = .finite n := by
  have hlog : Nat.log2 n ≤ 52 := by
    have := (Nat.log2_lt (Nat.pos_iff_ne_zero.mp hpos)).mpr h
    omega
  obtain ⟨d, hd⟩ := Nat.exists_eq_add_of_le hlog
  have hlast : max (leadingBit n - 52) (-1074) = -(d : Int) := by
    rw [leadingBit_natCast hpos]
    omega
  have hquotient : (n : Rat) / pow2 (-d) = ((n * 2 ^ d : Nat) : Int) := by
    rw [pow2_eq, zpow_neg, zpow_natCast, div_inv_eq_mul]
    push_cast
    rfl
  have hback : (((n * 2 ^ d : Nat) : Int) : Rat) * pow2 (-d) = n := by
    rw [← hquotient, div_mul_cancel₀ _ (pow2_pos _).ne']
  have hlt : ¬ pow2 1024 ≤ (n : Rat) := by
    rw [not_le, pow2_eq]
    calc (n : Rat) < ((2 ^ 53 : Nat) : Rat) := by exact_mod_cast h
      _ ≤ (2 : Rat) ^ 1024 := by
        rw [Nat.cast_pow, Nat.cast_ofNat]
        exact pow_le_pow_right₀ (by norm_num) (by norm_num)
      _ = (2 : Rat) ^ (1024 : Int) := (zpow_natCast 2 1024).symm
  unfold ofPos
  dsimp only
  rw [hlast, hquotient, roundHalfEven_intCast, hback, if_neg hlt]
  rfl

theorem ofRat_natCast {n : Nat} (h : n < 2 ^ 53) : ofRat n = .finite n := by
  unfold ofRat
  rcases Nat.eq_zero_or_pos n with rfl | hpos
  · rfl
  · have hne : (n : Rat) ≠ 0 := by exact_mod_cast hpos.ne'
    rw [if_neg hne, if_neg (not_lt.mpr (Nat.cast_nonneg n)), ofPos_natCast hpos h]

/-- What takes more than 53 bits is rounded, not to fewer. -/
theorem ofRat_large {n : Nat} (h : 2 ^ 53 ≤ n) :
    ofRat n = .infinite false ∨ ∃ q, ofRat n = .finite q ∧ 2 ^ 53 ≤ q := by
  have hpos : 0 < n := lt_of_lt_of_le (by norm_num) h
  have hne : (n : Rat) ≠ 0 := by exact_mod_cast hpos.ne'
  unfold ofRat
  rw [if_neg hne, if_neg (not_lt.mpr (Nat.cast_nonneg n))]
  have hlog : 53 ≤ Nat.log2 n := (Nat.le_log2 (Nat.pos_iff_ne_zero.mp hpos)).mpr h
  obtain ⟨d, hd⟩ := Nat.exists_eq_add_of_le hlog
  have hlast : max (leadingBit n - 52) (-1074) = ((d + 1 : Nat) : Int) := by
    rw [leadingBit_natCast hpos]
    omega
  have hquotient : (((2 ^ 52 : Nat) : Int) : Rat) ≤ (n : Rat) / pow2 ((d + 1 : Nat) : Int) := by
    rw [le_div_iff₀ (pow2_pos _), pow2_eq, zpow_natCast]
    have hself := Nat.log2_self_le (Nat.pos_iff_ne_zero.mp hpos)
    have hpow : 2 ^ 52 * 2 ^ (d + 1) ≤ n := by
      rw [← Nat.pow_add, show 52 + (d + 1) = Nat.log2 n by omega]
      exact hself
    exact_mod_cast hpow
  have hrounded := le_roundHalfEven hquotient
  have hge : (2 : Rat) ^ 53 ≤ roundHalfEven (n / pow2 ((d + 1 : Nat) : Int)) * pow2 ((d + 1 : Nat) : Int) := by
    have htwo : (2 : Rat) ≤ pow2 ((d + 1 : Nat) : Int) := by
      rw [pow2_eq, zpow_natCast, pow_succ]
      have := one_le_pow₀ (n := d) (show (1 : Rat) ≤ 2 by norm_num)
      linarith
    have hcast : (((2 ^ 52 : Nat) : Int) : Rat) ≤ roundHalfEven (n / pow2 ((d + 1 : Nat) : Int)) := by
      exact_mod_cast hrounded
    calc (2 : Rat) ^ 53 = (((2 ^ 52 : Nat) : Int) : Rat) * 2 := by norm_num
      _ ≤ _ := mul_le_mul hcast htwo (by norm_num) (le_trans (by norm_num) hcast)
  unfold ofPos
  dsimp only
  rw [hlast]
  by_cases hover : pow2 1024 ≤ roundHalfEven (n / pow2 ((d + 1 : Nat) : Int)) * pow2 ((d + 1 : Nat) : Int)
  · rw [if_pos hover]
    exact .inl rfl
  · rw [if_neg hover]
    exact .inr ⟨_, rfl, hge⟩

theorem exceeds_of_nonpos {q b : Rat} (hq : q ≤ 0) (hb : 0 ≤ b) : (ofRat q).exceeds b = false := by
  unfold ofRat
  split_ifs with hzero hneg
  · exact decide_eq_false (not_lt.mpr hb)
  · have hnonneg : 0 ≤ roundHalfEven (-q / pow2 (max (leadingBit (-q) - 52) (-1074))) := by
      refine le_roundHalfEven ?_
      rw [Int.cast_zero]
      exact div_nonneg (by linarith) (pow2_pos _).le
    have hcast : (0 : Rat) ≤ roundHalfEven (-q / pow2 (max (leadingBit (-q) - 52) (-1074))) := by
      exact_mod_cast hnonneg
    have hrounded := mul_nonneg hcast (pow2_pos (max (leadingBit (-q) - 52) (-1074))).le
    unfold ofPos
    dsimp only
    by_cases hover : pow2 1024 ≤ roundHalfEven (-q / pow2 (max (leadingBit (-q) - 52) (-1074)))
        * pow2 (max (leadingBit (-q) - 52) (-1074))
    · rw [if_pos hover]
      rfl
    · rw [if_neg hover]
      refine decide_eq_false (not_lt.mpr ?_)
      rw [if_pos rfl]
      linarith
  · exact absurd (lt_of_le_of_ne hq hzero) hneg

end Number

/-! ## Big integers -/

def isDecimal (s : List Char) : Bool := !s.isEmpty && s.all Char.isDigit

/-- The value of digits in a base, in either case. -/
def valueInBase (base : Nat) (s : List Char) : Option Nat :=
  if s.isEmpty then none
  else s.foldlM (fun n c => do
    let d ← Json.hexValue c
    if d < base then some (base * n + d) else none) 0

/-- White space and line ends, as `trim` takes them off. -/
def isTrimmed (c : Char) : Bool :=
  decide (c.toNat ∈ [0x09, 0x0a, 0x0b, 0x0c, 0x0d, 0x20, 0xa0, 0x1680, 0x2000, 0x2001, 0x2002, 0x2003,
    0x2004, 0x2005, 0x2006, 0x2007, 0x2008, 0x2009, 0x200a, 0x2028, 0x2029, 0x202f, 0x205f, 0x3000,
    0xfeff])

/-- `s.trim()`. -/
def trim (s : List Char) : List Char :=
  ((s.dropWhile isTrimmed).reverse.dropWhile isTrimmed).reverse

/-- `BigInt(s)` of a string; `none` where it throws. -/
def bigIntOfText (s : List Char) : Option Int :=
  match trim s with
  | [] => some 0
  | '0' :: 'x' :: ds | '0' :: 'X' :: ds => (valueInBase 16 ds).map Int.ofNat
  | '0' :: 'o' :: ds | '0' :: 'O' :: ds => (valueInBase 8 ds).map Int.ofNat
  | '0' :: 'b' :: ds | '0' :: 'B' :: ds => (valueInBase 2 ds).map Int.ofNat
  | '-' :: ds => if isDecimal ds then some (-Json.digitsValue ds) else none
  | '+' :: ds => if isDecimal ds then some (Json.digitsValue ds) else none
  | ds => if isDecimal ds then some (Json.digitsValue ds) else none

/-- `parseInt(s, 10)`, exact where the digits are; none for `NaN`. -/
def parseInt10 (s : List Char) : Option Int :=
  let digits (ds : List Char) : Option Int :=
    if (ds.takeWhile Char.isDigit).isEmpty then none else some (Json.digitsValue (ds.takeWhile Char.isDigit))
  match s.dropWhile isTrimmed with
  | '-' :: ds => (digits ds).map (- ·)
  | '+' :: ds => digits ds
  | ds => digits ds

/-- `BigInt(v)` of a JSON value; `none` where it throws. An array is read as the text of its one
element. -/
def bigIntOf : Json → Option Int
  | .string s => bigIntOfText s
  | .number mantissa exponent =>
    match Number.ofDecimal mantissa exponent with
    | .finite q => if q.den = 1 then some q.num else none
    | .infinite _ => none
  | .bool b => some (if b then 1 else 0)
  | .array [] => some 0
  | .array [.null] => some 0
  | .array [.bool _] => none
  | .array [v] => bigIntOf v
  | _ => none

end Writz.Node

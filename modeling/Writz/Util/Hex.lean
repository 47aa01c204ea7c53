import Mathlib.Data.List.Basic
import Mathlib.Tactic.IntervalCases

/-!
# Hexadecimal text

`encode` writes a byte string as lowercase hex digits, `decode` reads hex digits of either case.
-/

namespace Hex

/-- The sixteen digits. -/
def digits : List Char := "0123456789abcdef".toList

/-- The digit of a number below sixteen. -/
def digit (v : Nat) : Char := digits.getD v '0'

/-- The value of a digit, in either case. -/
def value (c : Char) : Option Nat := digits.idxOf? c.toLower

/-- The two digits of a byte. -/
def encodeByte (b : UInt8) : List Char := [digit (b.toNat / 16), digit (b.toNat % 16)]

/-- The digits of a byte string. -/
def encode (bs : List UInt8) : List Char := bs.flatMap encodeByte

/-- The byte string that an even number of digits spells. -/
def decode : List Char → Option (List UInt8)
  | [] => some []
  | [_] => none
  | a :: b :: rest =>
    match value a, value b, decode rest with
    | some x, some y, some bs => some (UInt8.ofNat (16 * x + y) :: bs)
    | _, _, _ => none

-- the equations of `decode`, before the proofs that rewrite with them
attribute [local simp] decode

theorem value_digit {v : Nat} (h : v < 16) : value (digit v) = some v := by
  interval_cases v <;> rfl

theorem digit_of_value {c : Char} {v : Nat} (h : value c = some v) : v < 16 ∧ digit v = c.toLower := by
  rw [value, List.idxOf?, List.findIdx?_eq_some_iff_getElem] at h
  obtain ⟨hlt, heq, -⟩ := h
  refine ⟨hlt, ?_⟩
  rw [digit, List.getD_eq_getElem?_getD, List.getElem?_eq_getElem hlt]
  exact eq_of_beq heq

theorem ofNat_halves (b : UInt8) : UInt8.ofNat (16 * (b.toNat / 16) + b.toNat % 16) = b := by
  rw [Nat.div_add_mod]
  simp

/-- Two digits are read as a byte. -/
theorem decode_cons_cons {a b : Char} {rest : List Char} {bs : List UInt8} :
    decode (a :: b :: rest) = some bs ↔ ∃ x y bs', value a = some x ∧ value b = some y ∧
      decode rest = some bs' ∧ UInt8.ofNat (16 * x + y) :: bs' = bs := by
  rw [decode]
  constructor
  · intro h
    split at h
    · next x y bs' hx hy hrest => exact ⟨x, y, bs', hx, hy, hrest, Option.some.inj h⟩
    · cases h
  · rintro ⟨x, y, bs', hx, hy, hrest, rfl⟩
    rw [hx, hy, hrest]

/-- Reading what was written. -/
theorem decode_encode (bs : List UInt8) : decode (encode bs) = some bs := by
  induction bs with
  | nil => rfl
  | cons b bs ih =>
    have hb : b.toNat < 256 := b.toNat_lt
    have hhigh : value (digit (b.toNat / 16)) = some (b.toNat / 16) := value_digit (by omega)
    have hlow : value (digit (b.toNat % 16)) = some (b.toNat % 16) := value_digit (by omega)
    change decode (digit (b.toNat / 16) :: digit (b.toNat % 16) :: encode bs) = _
    exact decode_cons_cons.mpr ⟨_, _, bs, hhigh, hlow, ih, by rw [ofNat_halves]⟩

@[simp] theorem length_encode (bs : List UInt8) : (encode bs).length = 2 * bs.length := by
  induction bs with
  | nil => rfl
  | cons b bs ih =>
    change (encode bs).length + 2 = _
    rw [ih, List.length_cons]
    omega

theorem encode_append (as bs : List UInt8) : encode (as ++ bs) = encode as ++ encode bs :=
  List.flatMap_append

/-- What holds of no digits, and of two digits before any it holds of, holds of all that is read. -/
theorem decode_induction {P : List Char → List UInt8 → Prop} (nil : P [] [])
    (cons : ∀ {a b rest x y bs}, value a = some x → value b = some y → P rest bs →
      P (a :: b :: rest) (UInt8.ofNat (16 * x + y) :: bs)) :
    ∀ {text : List Char} {bs : List UInt8}, decode text = some bs → P text bs
  | [], bs, h => by
    cases h
    exact nil
  | [_], bs, h => by cases h
  | a :: b :: rest, bs, h => by
    obtain ⟨x, y, bs', hx, hy, hrest, rfl⟩ := decode_cons_cons.mp h
    exact cons hx hy (decode_induction nil cons hrest)

/-- What is read is an even number of digits. -/
theorem digits_of_decode {text : List Char} {bs : List UInt8} (h : decode text = some bs) :
    text.length = 2 * bs.length ∧ ∀ c ∈ text, (value c).isSome := by
  refine decode_induction (P := fun text bs => text.length = 2 * bs.length ∧ ∀ c ∈ text, (value c).isSome)
    ⟨rfl, fun c hc => by cases hc⟩ ?_ h
  rintro a b rest x y bs hx hy ⟨hlen, hdigits⟩
  refine ⟨by simp only [List.length_cons]; omega, fun c hc => ?_⟩
  rcases List.mem_cons.mp hc with rfl | hc
  · rw [hx]
    rfl
  rcases List.mem_cons.mp hc with rfl | hc
  · rw [hy]
    rfl
  · exact hdigits c hc

/-- An even number of digits is read. -/
theorem exists_decode : ∀ {text : List Char}, text.length % 2 = 0 →
    (∀ c ∈ text, (value c).isSome) → ∃ bs, decode text = some bs
  | [], _, _ => ⟨[], rfl⟩
  | [_], h, _ => by cases h
  | a :: b :: rest, hlen, h => by
    have hlen' : rest.length % 2 = 0 := by
      simp only [List.length_cons] at hlen
      omega
    obtain ⟨x, hx⟩ := Option.isSome_iff_exists.mp (h a (by simp))
    obtain ⟨y, hy⟩ := Option.isSome_iff_exists.mp (h b (by simp))
    obtain ⟨bs, hbs⟩ := exists_decode hlen' fun c hc => h c (by simp [hc])
    exact ⟨_, decode_cons_cons.mpr ⟨x, y, bs, hx, hy, hbs, rfl⟩⟩

theorem encode_injective {as bs : List UInt8} (h : encode as = encode bs) : as = bs := by
  have hdecode := decode_encode as
  rw [h, decode_encode] at hdecode
  exact (Option.some.inj hdecode).symm

/-- Text that spells a byte string is, in lowercase, the digits written for it. -/
theorem encode_of_decode {text : List Char} {bs : List UInt8} (h : decode text = some bs) :
    text.map Char.toLower = encode bs := by
  refine decode_induction (P := fun text bs => text.map Char.toLower = encode bs) rfl ?_ h
  intro a b rest x y bs hx hy ih
  obtain ⟨hx16, hdx⟩ := digit_of_value hx
  obtain ⟨hy16, hdy⟩ := digit_of_value hy
  have hbyte : (UInt8.ofNat (16 * x + y)).toNat = 16 * x + y := by
    rw [UInt8.toNat_ofNat']
    omega
  rw [List.map_cons, List.map_cons, ih, ← hdx, ← hdy]
  change _ = encodeByte (UInt8.ofNat (16 * x + y)) ++ encode bs
  rw [encodeByte, hbyte, show (16 * x + y) / 16 = x by omega, show (16 * x + y) % 16 = y by omega]
  rfl

end Hex

import Mathlib.Data.Nat.Bitwise
import Mathlib.Tactic.Ring

/-!
# Little-endian byte strings

`encode k n` are the `k` little-endian bytes of `n`, `decode` is the number a byte string spells, and
`orShift` is the reader that ors shifted bytes together, which spells the same number.
-/

namespace LittleEndian

/-- The `k` low bytes of `n`, least significant first. -/
def encode : Nat → Nat → List UInt8
  | 0, _ => []
  | k + 1, n => UInt8.ofNat (n % 256) :: encode k (n / 256)

/-- The number a byte string spells, least significant byte first. -/
def decode : List UInt8 → Nat
  | [] => 0
  | b :: bs => b.toNat + 256 * decode bs

/-- The same number, read by shifting byte `i` by `8 * i` bits and oring it to the rest. -/
def orShift : Nat → List UInt8 → Nat
  | _, [] => 0
  | i, b :: bs => (b.toNat <<< (8 * i)) ||| orShift (i + 1) bs

attribute [local simp] encode decode orShift

@[simp] theorem length_encode (k : Nat) : ∀ n, (encode k n).length = k := by
  induction k with
  | zero => intro n; rfl
  | succ k ih => intro n; simp [ih]

theorem toNat_ofNat_mod (n : Nat) : (UInt8.ofNat (n % 256)).toNat = n % 256 := by
  simp

/-- Decoding the `k` bytes of `n` gives `n` back, up to the bytes that did not fit. -/
theorem decode_encode_mod (k : Nat) : ∀ n, decode (encode k n) = n % 256 ^ k := by
  induction k with
  | zero => intro n; simp [Nat.mod_one]
  | succ k ih =>
    intro n
    rw [encode, decode, ih, toNat_ofNat_mod, pow_succ, mul_comm (256 ^ k) 256, Nat.mod_mul]

theorem decode_encode {k n : Nat} (h : n < 256 ^ k) : decode (encode k n) = n := by
  rw [decode_encode_mod, Nat.mod_eq_of_lt h]

theorem decode_lt (bs : List UInt8) : decode bs < 256 ^ bs.length := by
  induction bs with
  | nil => simp
  | cons b bs ih =>
    have hb : b.toNat < 256 := b.toNat_lt
    simp only [decode, List.length_cons, pow_succ]
    omega

/-- Encoding the number a byte string spells gives the byte string back. -/
theorem encode_decode (bs : List UInt8) : encode bs.length (decode bs) = bs := by
  induction bs with
  | nil => rfl
  | cons b bs ih =>
    have hb : b.toNat < 256 := b.toNat_lt
    have hlow : (b.toNat + 256 * decode bs) % 256 = b.toNat := by omega
    have hhigh : (b.toNat + 256 * decode bs) / 256 = decode bs := by omega
    rw [decode, List.length_cons, encode, hlow, hhigh, ih, UInt8.ofNat_toNat]

/-- Byte strings of one length that spell the same number are the same. -/
theorem decode_injective {as bs : List UInt8} (hlen : as.length = bs.length)
    (h : decode as = decode bs) : as = bs := by
  rw [← encode_decode as, ← encode_decode bs, hlen, h]

theorem decode_append (as bs : List UInt8) :
    decode (as ++ bs) = decode as + 256 ^ as.length * decode bs := by
  induction as with
  | nil => simp
  | cons a as ih =>
    simp only [List.cons_append, decode, ih, List.length_cons, pow_succ]
    ring

/-- Reading by oring shifted bytes is reading the little-endian number, shifted. -/
theorem orShift_eq (bs : List UInt8) : ∀ i, orShift i bs = decode bs * 2 ^ (8 * i) := by
  induction bs with
  | nil => intro i; simp
  | cons b bs ih =>
    intro i
    have hb : b.toNat * 2 ^ (8 * i) < 2 ^ (8 * (i + 1)) := by
      have h8 : (2 : Nat) ^ (8 * (i + 1)) = 256 * 2 ^ (8 * i) := by
        rw [mul_add, pow_add]; ring
      rw [h8]
      exact Nat.mul_lt_mul_of_pos_right b.toNat_lt (Nat.two_pow_pos _)
    have hor := Nat.two_pow_add_eq_or_of_lt hb (decode bs)
    rw [orShift, ih, decode, Nat.shiftLeft_eq, Nat.or_comm, mul_comm (decode bs), ← hor]
    rw [mul_add 8 i 1, pow_add]
    ring

end LittleEndian

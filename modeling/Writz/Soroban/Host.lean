import Writz.Util.KeyedStore
import Writz.Util.LittleEndian
import Writz.Util.Sha256

/-!
# The Soroban host, as the contracts see it

Byte strings, addresses, the host's cryptographic functions and the integer arithmetic of the
contracts. `u32`, `u64`, `i128` and `U256` values are natural numbers or integers; where an operation
can leave the range of its type, the operation says what happens there: saturating operations go
through an `Arith`, checked ones through `checkedI128`, and plain ones, which trap because the
contracts are built with overflow checks, through `addU32` and `u256`.

Storage is a record of typed entries. An entry's time to live is not part of it: an entry past its
window is archived and restored unchanged before any call can read it.
-/

namespace Writz

/-- A Soroban `Bytes` value. -/
abbrev Bytes := List UInt8

/-- A Soroban `BytesN<n>` value: a byte string of exactly `n` bytes. -/
abbrev BytesN (n : Nat) := { b : Bytes // b.length = n }

/-- `n` zero bytes. -/
def zeros (n : Nat) : BytesN n := ⟨List.replicate n 0, List.length_replicate⟩

/-- A Stellar address, given by its strkey text. -/
structure Address where
  strkey : Bytes
  deriving DecidableEq

/-- The host's cryptographic functions. -/
structure Crypto where
  /-- `env.crypto().sha256`. -/
  sha256 : Bytes → BytesN 32
  /-- `env.crypto().secp256k1_recover`: the uncompressed key that made a signature over a digest,
  `none` where the host traps. -/
  secp256k1Recover : BytesN 32 → BytesN 64 → Nat → Option (BytesN 65)

/-- SHA-256 as the host computes it, to evaluate contract calls on concrete inputs. -/
def sha256 (b : Bytes) : BytesN 32 := ⟨Sha256.hash b, Sha256.length_hash b⟩

/-- The bytes of an ASCII text. -/
def ascii (s : String) : Bytes := s.toList.map fun c => UInt8.ofNat c.toNat

/-- The byte string of `len` bytes that a big-endian number spells. -/
def bytes (len n : Nat) : Bytes := (LittleEndian.encode len n).reverse

def bytesN (len n : Nat) : BytesN len := ⟨bytes len n, by simp [bytes]⟩

/-- The ledger a call runs in. -/
structure Ledger where
  sequence : Nat
  timestamp : Nat
  deriving DecidableEq

def U32_MAX : Nat := 4294967295
def U64_MAX : Nat := 18446744073709551615
def I128_MIN : Int := -170141183460469231731687303715884105728
def I128_MAX : Int := 170141183460469231731687303715884105727

/-- `u32::saturating_add`. -/
def saturatingAddU32 (a b : Nat) : Nat := min (a + b) U32_MAX

/-- `u64::saturating_add`. -/
def saturatingAddU64 (a b : Nat) : Nat := min (a + b) U64_MAX

/-! ## Saturating `i128` arithmetic -/

/-- How a saturating operation brings its exact result back into range. The laws are the ones the
bounds on `i128` have and that no bounds at all have too. -/
structure Arith where
  /-- The result kept of an exact result. -/
  clamp : Int → Int
  mono : ∀ x y, x ≤ y → clamp x ≤ clamp y
  clamp_zero : clamp 0 = 0
  clamp_one : clamp 1 = 1
  clamp_le : ∀ x, 0 ≤ x → clamp x ≤ x
  clamp_clamp : ∀ x, clamp (clamp x) = clamp x
  clamp_fixed : ∀ x y, 0 ≤ x → x ≤ y → clamp y = y → clamp x = x

namespace Arith

/-- The arithmetic of the contracts: a result outside `i128` becomes the nearest bound. -/
def i128 : Arith where
  clamp x := max I128_MIN (min x I128_MAX)
  mono x y h := by omega
  clamp_zero := by decide
  clamp_one := by decide
  clamp_le x h := by simp only [I128_MIN]; omega
  clamp_clamp x := by simp only [I128_MIN, I128_MAX]; omega
  clamp_fixed x y hx hxy hy := by simp only [I128_MIN, I128_MAX] at *; omega

/-- Exact integer arithmetic: nothing saturates. -/
def exact : Arith where
  clamp x := x
  mono _ _ h := h
  clamp_zero := rfl
  clamp_one := rfl
  clamp_le _ _ := le_rfl
  clamp_clamp _ := rfl
  clamp_fixed _ _ _ _ _ := rfl

variable (A : Arith)

/-- `i128::saturating_add`. -/
def add (x y : Int) : Int := A.clamp (x + y)
/-- `i128::saturating_sub`. -/
def sub (x y : Int) : Int := A.clamp (x - y)
/-- `i128::saturating_mul`. -/
def mul (x y : Int) : Int := A.clamp (x * y)

@[simp] theorem exact_add (x y : Int) : exact.add x y = x + y := rfl
@[simp] theorem exact_sub (x y : Int) : exact.sub x y = x - y := rfl
@[simp] theorem exact_mul (x y : Int) : exact.mul x y = x * y := rfl

theorem clamp_nonneg {x : Int} (h : 0 ≤ x) : 0 ≤ A.clamp x := by
  have := A.mono 0 x h
  rwa [A.clamp_zero] at this

theorem clamp_pos {x : Int} (h : 0 < x) : 0 < A.clamp x := by
  have := A.mono 1 x h
  rw [A.clamp_one] at this
  omega

/-- Taking away from a value in range stays exact. -/
theorem sub_eq {x y : Int} (hy : 0 ≤ y) (hyx : y ≤ x) (hx : A.clamp x = x) : A.sub x y = x - y :=
  A.clamp_fixed _ x (by omega) (by omega) hx

theorem add_nonneg {x y : Int} (hx : 0 ≤ x) (hy : 0 ≤ y) : 0 ≤ A.add x y :=
  A.clamp_nonneg (by omega)

theorem add_pos {x y : Int} (hx : 0 < x) (hy : 0 ≤ y) : 0 < A.add x y :=
  A.clamp_pos (by omega)

theorem sub_nonneg {x y : Int} (h : y ≤ x) : 0 ≤ A.sub x y :=
  A.clamp_nonneg (by omega)

theorem mul_nonneg {x y : Int} (hx : 0 ≤ x) (hy : 0 ≤ y) : 0 ≤ A.mul x y :=
  A.clamp_nonneg (Int.mul_nonneg hx hy)

theorem mul_le {x y : Int} (hx : 0 ≤ x) (hy : 0 ≤ y) : A.mul x y ≤ x * y :=
  A.clamp_le _ (Int.mul_nonneg hx hy)

theorem mul_mono {x y z : Int} (h : x ≤ y) (hz : 0 ≤ z) : A.mul x z ≤ A.mul y z :=
  A.mono _ _ (Int.mul_le_mul_of_nonneg_right h hz)

end Arith

/-! ## Checked arithmetic -/

/-- The result of a checked `i128` operation: `None` outside the range. -/
def checkedI128 (x : Int) : Option Int := if I128_MIN ≤ x ∧ x ≤ I128_MAX then some x else none

/-- A plain `u32` addition, `none` where it traps. -/
def addU32 (a b : Nat) : Option Nat := if a + b ≤ U32_MAX then some (a + b) else none

/-- The result of a `U256` operation, `none` where it traps. -/
def u256 (x : Nat) : Option Nat := if x < 2 ^ 256 then some x else none

/-! ## Early returns -/

/-- `if c { return Err(e) }`. -/
def failIf {ε : Type} (c : Prop) [Decidable c] (e : ε) : Except ε Unit :=
  if c then .error e else .ok ()

/-- `x.ok_or(e)?`. -/
def okOr {ε α : Type} (x : Option α) (e : ε) : Except ε α :=
  match x with
  | some a => .ok a
  | none => .error e

section

variable {ε α β : Type} {e : ε}

@[simp] theorem failIf_eq_ok {c : Prop} [Decidable c] {u : Unit} :
    failIf c e = .ok u ↔ ¬ c := by
  unfold failIf
  split_ifs with h <;> simp [h]

@[simp] theorem okOr_eq_ok {x : Option α} {a : α} : okOr x e = .ok a ↔ x = some a := by
  cases x <;> simp [okOr]

/-- A computation that succeeds has succeeded at each of its parts. -/
theorem bind_eq_ok {x : Except ε α} {f : α → Except ε β} {b : β} :
    (x >>= f) = .ok b ↔ ∃ a, x = .ok a ∧ f a = .ok b := by
  cases x with
  | error e => simp [Bind.bind, Except.bind]
  | ok a => simp [Bind.bind, Except.bind]

@[simp] theorem failIf_eq_error {c : Prop} [Decidable c] {e' : ε} :
    failIf c e = .error e' ↔ c ∧ e = e' := by
  unfold failIf
  split_ifs with h <;> simp [h]

@[simp] theorem okOr_eq_error {x : Option α} {e' : ε} :
    okOr x e = .error e' ↔ x = none ∧ e = e' := by
  cases x <;> simp [okOr]

/-- A computation that fails has failed at one of its parts, the earlier ones succeeding. -/
theorem bind_eq_error {x : Except ε α} {f : α → Except ε β} {e' : ε} :
    (x >>= f) = .error e' ↔ x = .error e' ∨ ∃ a, x = .ok a ∧ f a = .error e' := by
  cases x with
  | error e => simp [Bind.bind, Except.bind]
  | ok a => simp [Bind.bind, Except.bind]

theorem map_eq_ok {x : Except ε α} {f : α → β} {b : β} :
    x.map f = .ok b ↔ ∃ a, x = .ok a ∧ f a = b := by
  cases x with
  | error e => simp [Except.map]
  | ok a => simp [Except.map]

theorem map_eq_error {x : Except ε α} {f : α → β} {e' : ε} :
    x.map f = .error e' ↔ x = .error e' := by
  cases x with
  | error e => simp [Except.map]
  | ok a => simp [Except.map]

end

end Writz

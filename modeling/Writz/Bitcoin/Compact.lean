import Mathlib.Algebra.Group.Nat.Defs

/-!
# Compact targets

Bitcoin Core's `arith_uint256::SetCompact`: the 256-bit word that compact bits set, and the two flags
it reports.
-/

namespace Bitcoin

/-- What `SetCompact` leaves. -/
structure Compact where
  value : Nat
  negative : Bool
  overflow : Bool
  deriving DecidableEq

/-- The mantissa as `SetCompact` keeps it: its low bytes leave where the exponent is small. -/
def compactWord (nCompact : Nat) : Nat :=
  let nSize := nCompact >>> 24
  let nWord := nCompact &&& 0x007fffff
  if nSize ≤ 3 then nWord >>> (8 * (3 - nSize)) else nWord

/-- `arith_uint256::SetCompact`; a left shift drops what leaves the 256 bits. -/
def setCompact (nCompact : Nat) : Compact :=
  let nSize := nCompact >>> 24
  let nWord := compactWord nCompact
  { value := if nSize ≤ 3 then nWord else (nWord <<< (8 * (nSize - 3))) % 2 ^ 256
    negative := decide (nWord ≠ 0 ∧ nCompact &&& 0x00800000 ≠ 0)
    overflow := decide (nWord ≠ 0 ∧
      (nSize > 34 ∨ (nWord > 0xff ∧ nSize > 33) ∨ (nWord > 0xffff ∧ nSize > 32))) }

end Bitcoin

import Writz.Node.Digits

/-!
# Signatures from KMS

`keys.ts`: the DER signature that KMS returns, converted to the 64-byte compact form with low `s`.
-/

namespace Writz.BitcoinScript

open Node

/-- secp256k1 curve order. -/
def SECP256K1_N : Nat := 0xFFFFFFFFFFFFFFFFFFFFFFFFFFFFFFFEBAAEDCE6AF48A03BBFD25E8CD0364141
def SECP256K1_N_HALF : Nat := SECP256K1_N / 2

/-- `buf.subarray(start, end)`. -/
def subarray (buf : Bytes) (start stop : Nat) : Bytes := (buf.take stop).drop start

/-- Strips the 0x00 byte that pads an integer whose high bit is set. -/
def stripPadding (value : Bytes) : Bytes :=
  if value.length > 32 ∧ value[0]? = some 0x00 then value.drop 1 else value

structure DerInteger where
  value : Bytes
  /-- The offset of what follows; `none` for `NaN`. -/
  next : Option Nat
  deriving DecidableEq

/-- Reads a DER INTEGER at an offset. Without a length byte the value is empty and the next offset `NaN`. -/
def readInteger (buf : Bytes) (offset : Option Nat) : Result DerInteger := do
  throwIf (offset.bind (buf[·]?) ≠ some 0x02) "KMS signature: expected a DER INTEGER"
  let start := offset.map (· + 2)
  let stop := offset.bind fun offset => buf[offset + 1]?.map fun len => offset + 2 + len.toNat
  let value := match start, stop with
    | some start, some stop => subarray buf start stop
    | _, _ => []
  return { value := stripPadding value, next := stop }

def leftPad32 (buf : Bytes) : Result Bytes := do
  if buf.length = 32 then return buf
  throwIf (buf.length > 32) "integer too large for a 32-byte field"
  return List.replicate (32 - buf.length) 0 ++ buf

/-- Converts a DER-encoded `SEQUENCE { r INTEGER, s INTEGER }` into the 64-byte compact `r(32) || s(32)`
format, with `s` normalized to the low-S form. -/
def derEcdsaSignatureToCompactLowS (der : Bytes) : Result Bytes := do
  throwIf (der[0]? ≠ some 0x30) "KMS signature is not a DER SEQUENCE"
  let r ← readInteger der (some 2)
  let s ← readInteger der r.next
  let sBig ← okOr (bigIntOfText ("0x".toList ++ Hex.encode s.value)) "Cannot convert 0x to a BigInt".toList
  let sBig := if sBig > SECP256K1_N_HALF then SECP256K1_N - sBig else sBig
  let left ← leftPad32 r.value
  let right ← leftPad32 (fromHex (padStart 64 '0' (bigIntText 16 sBig)))
  return left ++ right

end Writz.BitcoinScript

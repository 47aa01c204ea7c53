import Writz.BitcoinSpv.Types
import Writz.BitcoinSpv.Header

/-!
# Proof of work

Compact targets, the work they stand for, and Bitcoin's retargeting. `U256` values are natural
numbers; on a target that a header's hash can be below, no operation here leaves their range.
-/

namespace Writz.Spv

/-- Blocks per difficulty period. -/
def RETARGET_INTERVAL : Nat := 2016

/-- Intended duration of a difficulty period, in seconds. -/
def TARGET_TIMESPAN : Int := 14 * 24 * 60 * 60

/-- A digest as the integer Bitcoin compares against a target. -/
def hashAsU256 (hash : BytesN 32) : Nat := LittleEndian.decode hash.1

/-- Decodes compact bits, as `arith_uint256::SetCompact` does. -/
def bitsToTarget (bits : Nat) : Except SPVError Nat :=
  let exponent := (bits >>> 24) &&& 0xff
  let mantissa := bits &&& 0x007fffff
  let signBitSet := bits &&& 0x00800000 ≠ 0
  if mantissa ≠ 0 ∧ signBitSet then
    .error .InvalidDifficultyBits
  else if mantissa ≠ 0 ∧ (exponent > 34 ∨ (mantissa > 0xff ∧ exponent > 33)
      ∨ (mantissa > 0xffff ∧ exponent > 32)) then
    .error .InvalidDifficultyBits
  else if mantissa = 0 then
    .ok 0
  else if exponent ≤ 3 then
    .ok (mantissa >>> (8 * (3 - exponent)))
  else
    .ok (mantissa <<< (8 * (exponent - 3)))

/-- `SHA256d(header) < target(header.bits)`. -/
def validateProofOfWork (C : Crypto) (header : BytesN 80) : Except SPVError Unit := do
  let target ← bitsToTarget (bitsOf header)
  let hashInt := hashAsU256 (hashHeader C header)
  if hashInt < target then .ok () else .error .InsufficientProofOfWork

/-- Work represented by a target. -/
def workFromTarget (target : Nat) : Nat := (2 ^ 256 - 1 - target) / (target + 1) + 1

/-- The same with the checks of the host's `U256` operations, which trap out of their range. -/
def checkedWorkFromTarget (target : Nat) : Option Nat := do
  let rest ← if target ≤ 2 ^ 256 - 1 then some (2 ^ 256 - 1 - target) else none
  let next ← u256 (target + 1)
  let quotient ← if next ≠ 0 then some (rest / next) else none
  u256 (quotient + 1)

/-- Encodes a target into compact bits, as `arith_uint256::GetCompact` does. -/
def targetToBits (target : Nat) : Nat :=
  if target = 0 then
    0
  else
    let size := (target.log2 + 1 + 7) / 8
    let compact :=
      if size ≤ 3 then target <<< (8 * (3 - size)) else target >>> (8 * (size - 3))
    if compact &&& 0x00800000 ≠ 0 then
      (compact >>> 8) ||| ((size + 1) <<< 24)
    else
      compact ||| (size <<< 24)

/-- `i64::clamp`. -/
def clampTimespan (t : Int) : Int := max (TARGET_TIMESPAN / 4) (min t (TARGET_TIMESPAN * 4))

/-- The target after a difficulty period of `timespan` seconds, capped at the limit. A product that
leaves 256 bits counts as above the limit. -/
def retarget (parentTarget timespan powLimit : Nat) : Nat :=
  match u256 (parentTarget * timespan) with
  | some v => if v / TARGET_TIMESPAN.toNat ≤ powLimit then v / TARGET_TIMESPAN.toNat else powLimit
  | none => powLimit

/-- The bits a header at `height` must carry given its parent. -/
def expectedBits (parent : HeaderEntry) (height powLimit : Nat) : Except SPVError Nat :=
  if height % RETARGET_INTERVAL ≠ 0 then
    .ok parent.bits
  else do
    let timespan := clampTimespan ((parent.time : Int) - parent.periodStartTime)
    let parentTarget ← bitsToTarget parent.bits
    .ok (targetToBits (retarget parentTarget timespan.toNat powLimit))

end Writz.Spv

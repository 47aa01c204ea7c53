import Writz.Soroban.Host

/-!
# Bitcoin transaction output scan

The output scanner of the deposit check. A reader stops either because the source returns `None` on
malformed or truncated input, or because a plain `u32` addition traps.
-/

namespace Writz

/-- Why a read does not produce a value. -/
inductive Stop where
  /-- The source returns `None`. -/
  | none
  /-- A `u32` addition overflows, which traps. -/
  | trap
  deriving DecidableEq

/-- The result of a read. -/
abbrev Read (α : Type) := Except Stop α

namespace BtcParser

/-- A plain `u32` addition. -/
def add (a b : Nat) : Read Nat := okOr (addU32 a b) .trap

/-- `u32::checked_add(..)?`. -/
def checkedAdd (a b : Nat) : Read Nat := okOr (addU32 a b) .none

/-- The byte at `offset`, or `None` if out of range. -/
def getByte (data : Bytes) (offset : Nat) : Read Nat :=
  match data[offset]? with
  | some b => .ok b.toNat
  | .none => .error .none

/-- A Bitcoin variable-length integer at `offset`: its value and its byte count. 4- and 8-byte
integers are not accepted. -/
def readVarint (data : Bytes) (offset : Nat) : Read (Nat × Nat) := do
  let first ← getByte data offset
  if first ≤ 0xfc then
    .ok (first, 1)
  else if first = 0xfd then do
    let lo ← getByte data (← add offset 1)
    let hi ← getByte data (← add offset 2)
    .ok ((hi <<< 8) ||| lo, 3)
  else
    .error .none

/-- The loop of `read_u64_le`: `left` bytes to go, byte `i` next. -/
def readU64LeLoop (data : Bytes) (offset : Nat) : Nat → Nat → Nat → Read Nat
  | 0, _, val => .ok val
  | left + 1, i, val => do
    let b ← getByte data (← add offset i)
    readU64LeLoop data offset left (i + 1) (val ||| b <<< (i * 8))

/-- An 8-byte little-endian `u64` at `offset`. -/
def readU64Le (data : Bytes) (offset : Nat) : Read Nat := readU64LeLoop data offset 8 0 0

/-- The input loop: previous output (36 bytes), scriptSig and sequence (4 bytes) of each of
`inputCount` inputs, from `pos`. -/
def skipInputs (rawTx : Bytes) : Nat → Nat → Read Nat
  | 0, pos => .ok pos
  | inputCount + 1, pos => do
    failIf (rawTx.length < (← add pos 36)) .none
    let pos := pos + 36
    let (scriptLen, sz) ← readVarint rawTx pos
    let pos ← add pos sz
    let pos ← checkedAdd pos scriptLen
    failIf (rawTx.length < (← add pos 4)) .none
    skipInputs rawTx inputCount (pos + 4)

/-- The output loop: the value of the first of `outputCount` outputs, from `pos`, whose
scriptPubKey is `expectedSpk`. -/
def scanOutputs (rawTx expectedSpk : Bytes) : Nat → Nat → Read Nat
  | 0, _ => .error .none
  | outputCount + 1, pos => do
    failIf (rawTx.length < (← add pos 8)) .none
    let value ← readU64Le rawTx pos
    let pos := pos + 8
    let (spkLen, sz) ← readVarint rawTx pos
    let pos ← add pos sz
    let spkEnd ← checkedAdd pos spkLen
    failIf (rawTx.length < spkEnd) .none
    let spkSlice := (rawTx.drop pos).take spkLen
    if spkSlice = expectedSpk then
      .ok value
    else
      scanOutputs rawTx expectedSpk outputCount spkEnd

/-- Skips a SegWit marker and flag at `pos`, if they are there. -/
def skipSegwitMarker (rawTx : Bytes) (pos : Nat) : Read Nat := do
  if (← getByte rawTx pos) = 0x00 then
    if (← getByte rawTx (pos + 1)) = 0x01 then .ok (pos + 2) else .ok pos
  else
    .ok pos

/-- The satoshi value of the first output of `rawTx` whose scriptPubKey is `expectedSpk`. -/
def findP2wshOutput (rawTx expectedSpk : Bytes) : Read Nat := do
  failIf (rawTx.length < 5) .none
  let pos ← skipSegwitMarker rawTx 4
  let (inputCount, sz) ← readVarint rawTx pos
  let pos ← add pos sz
  let pos ← skipInputs rawTx inputCount pos
  let (outputCount, sz) ← readVarint rawTx pos
  let pos ← add pos sz
  scanOutputs rawTx expectedSpk outputCount pos

end BtcParser

end Writz

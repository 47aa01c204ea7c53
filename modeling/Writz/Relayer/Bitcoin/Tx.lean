import Writz.Node.Buffer

/-!
# Bitcoin transactions, as the relayer reads them

`bitcoin/tx.ts`: the non-witness serialization and the outputs of a raw transaction.
-/

namespace Writz.Relayer

open Node

def outOfRange {α : Type} : Node.Result α := .error "ERR_OUT_OF_RANGE".toList

/-- `buf.readUInt16LE(offset)` and its like for `k` bytes. -/
def readUIntLE (k : Nat) (buf : Bytes) (offset : Nat) : Node.Result Nat :=
  if offset + k ≤ buf.length then .ok (LittleEndian.decode ((buf.drop offset).take k)) else outOfRange

/-- `sliceExact`. -/
def sliceExact (buf : Bytes) (start len : Nat) : Node.Result Bytes :=
  if start + len ≤ buf.length then .ok ((buf.drop start).take len) else outOfRange

/-- Reads a Bitcoin variable-length integer: its value and its size. -/
def readVarInt (buf : Bytes) (offset : Nat) : Node.Result (Nat × Nat) :=
  match buf[offset]? with
  | none => outOfRange
  | some first =>
    if first < 0xfd then .ok (first.toNat, 1)
    else if first = 0xfd then do
      let value ← readUIntLE 2 buf (offset + 1)
      .ok (value, 3)
    else if first = 0xfe then do
      let value ← readUIntLE 4 buf (offset + 1)
      .ok (value, 5)
    else do
      let lo ← readUIntLE 4 buf (offset + 1)
      let hi ← readUIntLE 4 buf (offset + 5)
      throwIf (0 < hi) "varint exceeds Number.MAX_SAFE_INTEGER"
      .ok (lo, 9)

/-! ## The non-witness serialization -/

/-- Whether the raw transaction has a SegWit marker. -/
def isSegwit (rawHex : Text) : Bool :=
  let buf := fromHex rawHex
  decide (6 < buf.length) && decide (buf[4]? = some 0x00) && decide (buf[5]? = some 0x01)

/-- Copies `count` inputs to `out`. -/
def copyInputs (buf : Bytes) : Nat → Nat → Bytes → Node.Result (Nat × Bytes)
  | 0, i, out => .ok (i, out)
  | count + 1, i, out => do
    let prevout ← sliceExact buf i 36
    let out := out ++ prevout
    let i := i + 36
    let (scriptLen, scriptLenSize) ← readVarInt buf i
    let scriptSig ← sliceExact buf i (scriptLenSize + scriptLen)
    let out := out ++ scriptSig
    let i := i + (scriptLenSize + scriptLen)
    let sequence ← sliceExact buf i 4
    copyInputs buf count (i + 4) (out ++ sequence)

/-- Copies `count` outputs to `out`. -/
def copyOutputs (buf : Bytes) : Nat → Nat → Bytes → Node.Result (Nat × Bytes)
  | 0, i, out => .ok (i, out)
  | count + 1, i, out => do
    let value ← sliceExact buf i 8
    let out := out ++ value
    let i := i + 8
    let (scriptLen, scriptLenSize) ← readVarInt buf i
    let scriptPubKey ← sliceExact buf i (scriptLenSize + scriptLen)
    copyOutputs buf count (i + (scriptLenSize + scriptLen)) (out ++ scriptPubKey)

/-- The offset after `stackItems` items, which may be past the end. -/
def skipItems (buf : Bytes) : Nat → Nat → Node.Result Nat
  | 0, i => .ok i
  | stackItems + 1, i => do
    let (itemLen, itemLenSize) ← readVarInt buf i
    skipItems buf stackItems (i + (itemLenSize + itemLen))

/-- The offset after `count` witness stacks, which may be past the end. -/
def skipWitnesses (buf : Bytes) : Nat → Nat → Node.Result Nat
  | 0, i => .ok i
  | count + 1, i => do
    let (stackItems, stackItemsSize) ← readVarInt buf i
    let i ← skipItems buf stackItems (i + stackItemsSize)
    skipWitnesses buf count i

/-- The non-witness serialization of a raw transaction. -/
def stripWitness (rawHex : Text) : Node.Result Text := do
  if !isSegwit rawHex then
    .ok rawHex
  else
    let buf := fromHex rawHex
    let version ← sliceExact buf 0 4
    let i := 6
    let (inputCount, inputCountLen) ← readVarInt buf i
    let inputCountBytes ← sliceExact buf i inputCountLen
    let (i, out) ← copyInputs buf inputCount (i + inputCountLen) (version ++ inputCountBytes)
    let (outputCount, outputCountLen) ← readVarInt buf i
    let outputCountBytes ← sliceExact buf i outputCountLen
    let (i, out) ← copyOutputs buf outputCount (i + outputCountLen) (out ++ outputCountBytes)
    let i ← skipWitnesses buf inputCount i
    let locktime ← sliceExact buf i 4
    .ok (Hex.encode (out ++ locktime))

/-! ## Outputs -/

/-- The offset after `count` inputs. -/
def skipInputs (buf : Bytes) : Nat → Nat → Node.Result Nat
  | 0, i => .ok i
  | count + 1, i => do
    let i := i + 36
    let (scriptLen, scriptLenSize) ← readVarInt buf i
    skipInputs buf count (i + scriptLenSize + scriptLen + 4)

structure ParsedOutput where
  valueSat : Nat
  /-- In hex. -/
  scriptPubKey : Text

/-- The output at `offset`, and the offset after it. -/
def parseOutputAt (buf : Bytes) (i : Nat) : Node.Result (ParsedOutput × Nat) := do
  let valueSat ← readUIntLE 8 buf i
  throwIf (2 ^ 53 - 1 < valueSat) "value exceeds Number.MAX_SAFE_INTEGER"
  let i := i + 8
  let (scriptLen, scriptLenSize) ← readVarInt buf i
  let script ← sliceExact buf (i + scriptLenSize) scriptLen
  .ok ({ valueSat, scriptPubKey := Hex.encode script }, i + scriptLenSize + scriptLen)

/-- The output `k` outputs after `offset`. -/
def parseOutputs (buf : Bytes) : Nat → Nat → Node.Result ParsedOutput
  | 0, i => do
    let (output, _) ← parseOutputAt buf i
    .ok output
  | k + 1, i => do
    let (_, i) ← parseOutputAt buf i
    parseOutputs buf k i

/-- Parses the output at `outputIndex` of a raw transaction. -/
def parseOutput (rawHex : Text) (outputIndex : Nat) : Node.Result ParsedOutput := do
  let buf := fromHex rawHex
  let segwit : Bool := decide (buf[4]? = some 0x00) && decide (buf[5]? = some 0x01)
  let i := if segwit then 6 else 4
  let (inputCount, inputCountLen) ← readVarInt buf i
  let i ← skipInputs buf inputCount (i + inputCountLen)
  let (outputCount, outputCountLen) ← readVarInt buf i
  throwIf (outputCount ≤ outputIndex) "outputIndex >= outputCount"
  parseOutputs buf outputIndex (i + outputCountLen)

end Writz.Relayer

import Writz.Bitcoin.Interpreter

/-!
# Spending P2WSH outputs

The witness of an input, the rule for a P2WSH output, and the height from which a transaction may be
mined.
-/

namespace Bitcoin

/-! ## Witnesses -/

/-- The serialization of a witness. -/
def writeWitness (items : List (List UInt8)) : List UInt8 :=
  compactSize items.length ++ items.flatMap fun item => compactSize item.length ++ item

/-- The serialization with the marker, the flag and a witness for each input. -/
def Tx.serializeSegwit (tx : Tx) (witnesses : List (List (List UInt8))) : List UInt8 :=
  LittleEndian.encode 4 tx.version.toNat ++ [0x00, 0x01]
    ++ compactSize tx.inputs.length ++ tx.inputs.flatMap TxIn.serialize
    ++ compactSize tx.outputs.length ++ tx.outputs.flatMap TxOut.serialize
    ++ witnesses.flatMap writeWitness ++ LittleEndian.encode 4 tx.lockTime.toNat

/-- The first `n` items of a serialized witness, and the rest. -/
def readItems : Nat → List UInt8 → Option (List (List UInt8) × List UInt8)
  | 0, bs => some ([], bs)
  | n + 1, bs => do
    let (len, bs) ← readCompactSize bs
    let (item, bs) ← readBytes len bs
    let (items, bs) ← readItems n bs
    some (item :: items, bs)

/-- A serialized witness, with nothing after it. -/
def readWitness (bs : List UInt8) : Option (List (List UInt8)) := do
  let (n, bs) ← readCompactSize bs
  let (items, rest) ← readItems n bs
  if rest = [] then some items else none

theorem readItems_write {items : List (List UInt8)} (h : ∀ item ∈ items, item.length < 2 ^ 64)
    (rest : List UInt8) :
    readItems items.length ((items.flatMap fun item => compactSize item.length ++ item) ++ rest)
      = some (items, rest) := by
  induction items with
  | nil => rfl
  | cons item items ih =>
    rw [List.flatMap_cons, List.append_assoc, List.append_assoc, List.length_cons, readItems,
      readCompactSize_append (h item List.mem_cons_self)]
    simp only [Option.bind_eq_bind, Option.bind_some]
    rw [readBytes_append rfl]
    simp only [Option.bind_some]
    rw [ih fun item' h' => h item' (List.mem_cons_of_mem _ h')]
    rfl

/-- A witness is read back from its serialization. -/
theorem readWitness_write {items : List (List UInt8)} (hcount : items.length < 2 ^ 64)
    (h : ∀ item ∈ items, item.length < 2 ^ 64) : readWitness (writeWitness items) = some items := by
  have hitems := readItems_write h []
  rw [List.append_nil] at hitems
  rw [readWitness, writeWitness, readCompactSize_append hcount]
  simp only [Option.bind_eq_bind, Option.bind_some, hitems]
  rfl

/-! ## Spending -/

/-- Whether a signature is one of a key over an input of a transaction, given the script it is for;
`none` where its encoding fails the script. -/
abbrev SigCheck := Tx → Nat → List UInt8 → List UInt8 → List UInt8 → Option Bool

/-- What a witness script can ask about an input of a transaction. -/
def Env.ofInput (check : SigCheck) (tx : Tx) (i : Nat) (input : TxIn) (script : List UInt8) : Env where
  checkSig := check tx i script
  lockTime := tx.lockTime.toNat
  sequence := input.sequence.toNat

/-- Whether the witness of an input spends the P2WSH output with a script hash. -/
def spendsP2WSH (sha256 : List UInt8 → List UInt8) (check : SigCheck) (tx : Tx) (i : Nat)
    (scriptHash : List UInt8) (witness : List (List UInt8)) : Bool :=
  match tx.inputs[i]?, witness.reverse with
  | some input, script :: rest =>
    decide (sha256 script = scriptHash) &&
      acceptsWitness (Env.ofInput check tx i input script) script rest.reverse
  | _, _ => false

theorem spendsP2WSH_append {sha256 : List UInt8 → List UInt8} {check : SigCheck} {tx : Tx} {i : Nat}
    {input : TxIn} {scriptHash script : List UInt8} (stack : List (List UInt8))
    (hi : tx.inputs[i]? = some input) :
    spendsP2WSH sha256 check tx i scriptHash (stack ++ [script]) = true ↔
      sha256 script = scriptHash ∧
        acceptsWitness (Env.ofInput check tx i input script) script stack = true := by
  have hrev : (stack ++ [script]).reverse = script :: stack.reverse := by simp
  unfold spendsP2WSH
  rw [hi, hrev]
  simp

/-- Whether a transaction may be in a block of a given height, by its height lock time. -/
def finalAtHeight (tx : Tx) (height : Nat) : Bool :=
  decide (tx.lockTime.toNat = 0)
    || (decide ((tx.lockTime.toNat : Int) < LOCKTIME_THRESHOLD) && decide (tx.lockTime.toNat < height))
    || tx.inputs.all fun i => i.sequence.toNat == SEQUENCE_FINAL

end Bitcoin

import Writz.Node.Psbt

/-!
# Spending a lock, in TypeScript

`bitcoin-script`'s `spend.ts`: the transactions of the two paths, and their witnesses.
-/

namespace Writz.BitcoinScript

open Node

/-- Sequence value that enables nLockTime checking. -/
def SEQUENCE_LOCKTIME_ENABLED : Nat := 0xfffffffe

/-- Parameters shared by both builders. -/
structure SpendParams where
  /-- The txid being spent, in display order. -/
  txidHex : Text
  vout : Nat
  amountSat : Int
  scriptPubKey : Bytes
  redeemScript : Bytes
  recipientAddress : Text
  feeSat : Int
  network : Network

/-- The input both builders add. -/
def SpendParams.input (params : SpendParams) (sequence : Nat) : NewInput where
  hash := params.txidHex
  index := params.vout
  witnessUtxo := { script := params.scriptPubKey, value := params.amountSat }
  witnessScript := params.redeemScript
  sequence := sequence

/-! ## Witness serialization -/

/-- A CompactSize of at most three bytes; `writeUInt16LE` throws on a longer length. -/
def encodeVarInt (n : Nat) : Node.Result Bytes :=
  if n < 0xfd then
    .ok [UInt8.ofNat n]
  else do
    let bs ← okOr (writeUIntLE 2 n) "ERR_OUT_OF_RANGE".toList
    .ok (0xfd :: bs)

/-- The items behind their lengths. -/
def serializeItems : List Bytes → Node.Result Bytes
  | [] => .ok []
  | item :: items => do
    let size ← encodeVarInt item.length
    let rest ← serializeItems items
    .ok (size ++ item ++ rest)

def serializeWitness (items : List Bytes) : Node.Result Bytes := do
  let count ← encodeVarInt items.length
  let rest ← serializeItems items
  .ok (count ++ rest)

/-! ## Path A -/

/-- Builds the unsigned PSBT of the co-signed release. -/
def buildReleaseTransaction (P : PsbtLib) (params : SpendParams) : Node.Result P.Psbt := do
  let psbt := P.new params.network
  let psbt ← P.addInput psbt (params.input 0xfffffffe)
  P.addOutput psbt params.recipientAddress (params.amountSat - params.feeSat)

/-- `input.partialSig.find((ps) => ps.pubkey.equals(pubkey))`. -/
def findSig (sigs : List PartialSig) (pubkey : Bytes) : Option PartialSig :=
  sigs.find? fun ps => ps.pubkey == pubkey

def finalizeA (input : PsbtInput) (userPubkey protocolPubkey : Bytes) : Node.Result Bytes := do
  let sigs := input.partialSig.getD []
  throwIf (sigs = []) "no partial signatures on input"
  let witnessScript ← okOr input.witnessScript "witnessScript not set on input".toList
  let userEntry ← okOr (findSig sigs userPubkey)
    "user signature not found in PSBT partialSig".toList
  let protocolEntry ← okOr (findSig sigs protocolPubkey)
    "protocol signature not found in PSBT partialSig".toList
  serializeWitness [userEntry.signature, protocolEntry.signature, [0x01], witnessScript]

/-- Finalizes the Path A PSBT after both parties have signed. -/
def finalizePathA (P : PsbtLib) (psbt : P.Psbt) (inputIndex : Nat)
    (userPubkey protocolPubkey : Bytes) : Node.Result P.Psbt :=
  P.finalizeInput psbt inputIndex fun input => do
    let witness ← finalizeA input userPubkey protocolPubkey
    .ok { finalScriptSig := none, finalScriptWitness := some witness }

/-! ## Path B -/

/-- Builds the unsigned PSBT of the emergency recovery. -/
def buildEmergencyTransaction (P : PsbtLib) (params : SpendParams) (timelockHeight : Nat) :
    Node.Result P.Psbt := do
  let psbt := P.new params.network
  let psbt ← P.setLocktime psbt timelockHeight
  let psbt ← P.addInput psbt (params.input SEQUENCE_LOCKTIME_ENABLED)
  P.addOutput psbt params.recipientAddress (params.amountSat - params.feeSat)

def finalizeB (input : PsbtInput) (userPubkey : Bytes) : Node.Result Bytes := do
  let sigs := input.partialSig.getD []
  throwIf (sigs = []) "no partial signatures on input"
  let witnessScript ← okOr input.witnessScript "witnessScript not set on input".toList
  let userEntry ← okOr (findSig sigs userPubkey)
    "user signature not found in PSBT partialSig".toList
  serializeWitness [userEntry.signature, [], witnessScript]

/-- Finalizes the Path B PSBT after the user has signed. -/
def finalizePathB (P : PsbtLib) (psbt : P.Psbt) (inputIndex : Nat) (userPubkey : Bytes) :
    Node.Result P.Psbt :=
  P.finalizeInput psbt inputIndex fun input => do
    let witness ← finalizeB input userPubkey
    .ok { finalScriptSig := none, finalScriptWitness := some witness }

end Writz.BitcoinScript

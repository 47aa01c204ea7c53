import Writz.Node.BitcoinJs

/-!
# PSBTs, as the TypeScript code uses them

The `Psbt` class of bitcoinjs-lib is a parameter: an abstract type with the methods the code calls, and
the data (BIP 174) they act on. `FollowsBip174` says what the code relies on.
-/

namespace Writz.Node

/-- The output an input spends. -/
structure WitnessUtxo where
  script : Bytes
  value : Int
  deriving DecidableEq

/-- A signature of one key. -/
structure PartialSig where
  pubkey : Bytes
  signature : Bytes
  deriving DecidableEq

/-- The fields of a PSBT input that the code reads or sets. -/
structure PsbtInput where
  witnessUtxo : Option WitnessUtxo
  witnessScript : Option Bytes
  partialSig : Option (List PartialSig)
  finalScriptWitness : Option Bytes

/-- The data of a PSBT. -/
structure PsbtData where
  unsignedTx : Bitcoin.Tx
  inputs : List PsbtInput

/-- The argument of `addInput`. -/
structure NewInput where
  /-- The txid, in display order. -/
  hash : Text
  index : Nat
  witnessUtxo : WitnessUtxo
  witnessScript : Bytes
  sequence : Nat

/-- What a finalizer returns. -/
structure FinalScripts where
  finalScriptSig : Option Bytes
  finalScriptWitness : Option Bytes

/-- The `Psbt` class. -/
structure PsbtLib where
  Psbt : Type
  data : Psbt → PsbtData
  network : Psbt → Network
  /-- `new Psbt({ network })`. -/
  new : Network → Psbt
  setLocktime : Psbt → Nat → Result Psbt
  addInput : Psbt → NewInput → Result Psbt
  /-- `addOutput({ address, value })`. -/
  addOutput : Psbt → Text → Int → Result Psbt
  finalizeInput : Psbt → Nat → (PsbtInput → Result FinalScripts) → Result Psbt
  /-- `bitcoin.address.toOutputScript`, of a valid address. -/
  toOutputScript : Text → Network → Option Bytes

/-- Most satoshis an output can hold. -/
def SATOSHI_MAX : Int := 2100000000000000

/-- The transaction input that `addInput` adds, of a txid in display order. -/
def NewInput.txIn (arg : NewInput) (txid : Bytes) (h : txid.length = 32) : Bitcoin.TxIn where
  prevTxid := txid.reverse
  prevTxid_length := by rw [List.length_reverse, h]
  prevIndex := UInt32.ofNat arg.index
  scriptSig := []
  sequence := UInt32.ofNat arg.sequence

/-- The PSBT input that `addInput` adds. -/
def NewInput.psbtInput (arg : NewInput) : PsbtInput where
  witnessUtxo := some arg.witnessUtxo
  witnessScript := some arg.witnessScript
  partialSig := none
  finalScriptWitness := none

/-- What the methods do where they do not throw, and where they do not. -/
structure PsbtLib.FollowsBip174 (P : PsbtLib) : Prop where
  new : ∀ network, P.network (P.new network) = network ∧ P.data (P.new network) =
    { unsignedTx := { version := 2, inputs := [], outputs := [], lockTime := 0 }, inputs := [] }
  setLocktime : ∀ psbt n, (P.data psbt).inputs = [] → n ≤ U32_MAX →
    ∃ psbt', P.setLocktime psbt n = .ok psbt' ∧ P.network psbt' = P.network psbt ∧
      P.data psbt' = { P.data psbt with
        unsignedTx := { (P.data psbt).unsignedTx with lockTime := UInt32.ofNat n } }
  addInput : ∀ psbt arg txid, (P.data psbt).inputs = [] → Hex.decode arg.hash = some txid →
    ∀ h : txid.length = 32, arg.index ≤ U32_MAX → arg.sequence ≤ U32_MAX →
      ∃ psbt', P.addInput psbt arg = .ok psbt' ∧ P.network psbt' = P.network psbt ∧
        P.data psbt' =
          { unsignedTx := { (P.data psbt).unsignedTx with
              inputs := (P.data psbt).unsignedTx.inputs ++ [arg.txIn txid h] }
            inputs := (P.data psbt).inputs ++ [arg.psbtInput] }
  addOutput : ∀ psbt address value script, P.toOutputScript address (P.network psbt) = some script →
    0 ≤ value → value ≤ SATOSHI_MAX →
      ∃ psbt', P.addOutput psbt address value = .ok psbt' ∧ P.network psbt' = P.network psbt ∧
        P.data psbt' = { P.data psbt with
          unsignedTx := { (P.data psbt).unsignedTx with
            outputs := (P.data psbt).unsignedTx.outputs
              ++ [{ value := UInt64.ofNat value.toNat, scriptPubkey := script }] } }
  /-- Finalizing sets the final scripts and clears the fields that only signers need. -/
  finalizeInput : ∀ psbt i f input script witness, (P.data psbt).inputs[i]? = some input →
    input.witnessScript = some script →
    f input = .ok { finalScriptSig := none, finalScriptWitness := some witness } →
      ∃ psbt', P.finalizeInput psbt i f = .ok psbt' ∧ P.network psbt' = P.network psbt ∧
        P.data psbt' = { P.data psbt with
          inputs := (P.data psbt).inputs.set i
            { witnessUtxo := input.witnessUtxo, witnessScript := none, partialSig := none
              finalScriptWitness := some witness } }

end Writz.Node

import Writz.Node.Digits
import Writz.Node.Number
import Writz.Relayer.Bitcoin.Esplora
import Writz.Relayer.Bitcoin.Tx

/-!
# SPV proof assembly

`bitcoin/spv.ts`: the answers of Esplora for a transaction, as the arguments of `verify_transaction`.
-/

namespace Writz.Relayer.SpvProof

open Node

structure TxStatus where
  confirmed : Bool
  blockHeight : Option Nat
  deriving DecidableEq

structure TxInfo where
  txid : Text
  status : TxStatus
  deriving DecidableEq

structure MerkleProofResponse where
  blockHeight : Nat
  /-- Sibling hashes in display byte order, leaf to root. -/
  merkle : List Text
  pos : Nat
  deriving DecidableEq

/-- What the client's requests return or throw, while a proof is built. -/
structure EsploraClient where
  getTxInfo : Text → Except EsploraFailure TxInfo
  getTipHeight : Except EsploraFailure Nat
  /-- The bytes of the transaction. -/
  getRawTx : Text → Except EsploraFailure Bytes
  getMerkleProof : Text → Except EsploraFailure MerkleProofResponse
  getBlockHashAtHeight : Nat → Except EsploraFailure Text
  getBlockHeader : Text → Except EsploraFailure Text

inductive ProofFailure where
  /-- An `Error` or a `RangeError`, with its message. -/
  | error (message : Text)
  /-- `UnconfirmedTxError`. -/
  | unconfirmed (txid : Text)
  /-- `InsufficientConfirmationsError`. -/
  | insufficientConfirmations (txid : Text) (requested : Nat) (available : Int)
  /-- What the request for a path threw. -/
  | esplora (path : Text) (e : EsploraFailure)
  deriving DecidableEq

/-- The message of the error. -/
def ProofFailure.message : ProofFailure → Text
  | .error message => message
  | .unconfirmed txid => "Transaction ".toList ++ txid ++ " is not yet confirmed".toList
  | .insufficientConfirmations txid requested available =>
    "Requested ".toList ++ Nat.toDigits 10 requested ++ " confirmations for ".toList ++ txid
      ++ ", but only ".toList ++ bigIntText 10 available ++ " available".toList
  | .esplora path (.status status body) =>
    "Esplora ".toList ++ Nat.toDigits 10 status ++ " at ".toList ++ path ++ ": ".toList ++ body.take 120
  | .esplora _ .network => "fetch failed".toList
  | .esplora _ .timeout => "This operation was aborted".toList
  | .esplora _ (.other message) => message

/-- What `.` matches in a regular expression. -/
def isDot (c : Char) : Bool := decide (c.toNat ∉ [0x0a, 0x0d, 0x2028, 0x2029])

/-- `hex.match(/../g)`; none for no match. -/
def matchPairs : Text → List Text
  | a :: b :: rest => if isDot a && isDot b then [a, b] :: matchPairs rest else matchPairs (b :: rest)
  | _ => []

/-- Reverses the byte order of a hash in hex. -/
def toInternalByteOrder (hex : Text) : Except ProofFailure Text := do
  failIf (hex.length % 2 ≠ 0)
    (.error ("toInternalByteOrder: odd-length hex input (".toList ++ Nat.toDigits 10 hex.length ++ " chars): ".toList ++ hex))
  let bytes := matchPairs hex
  .ok (if bytes = [] then hex else bytes.reverse.flatten)

structure SPVProofBundle where
  txid : Text
  rawTxNoWitness : Text
  blockHash : Text
  txIndex : Nat
  merkleProof : List Text
  headers : List Text
  blockHeight : Nat
  confirmations : Nat
  bitcoinTipHeight : Option Nat
  deriving DecidableEq

/-- The answer to the request for a path. -/
def asked {α : Type} (path : Text) (r : Except EsploraFailure α) : Except ProofFailure α :=
  r.mapError (.esplora path)

/-- The path of a transaction. -/
def txPath (txid : Text) : Text := "/tx/".toList ++ txid

/-- Applies a request to every element, in order. -/
def requestAll {α β : Type} (f : α → Except ProofFailure β) : List α → Except ProofFailure (List β)
  | [] => .ok []
  | a :: as => do
    let b ← f a
    let bs ← requestAll f as
    .ok (b :: bs)

/-- Assembles the proof of a transaction. -/
def buildSPVProof (txid : Text) (confirmations : Nat) (esplora : EsploraClient) :
    Except ProofFailure SPVProofBundle := do
  failIf (confirmations < 1) (.error "confirmations must be ≥ 1".toList)
  let txInfo ← asked (txPath txid) (esplora.getTxInfo txid)
  match txInfo.status.confirmed, txInfo.status.blockHeight with
  | true, some blockHeight => do
    let tipHeight ← asked "/blocks/tip/height".toList esplora.getTipHeight
    let available : Int := tipHeight - blockHeight + 1
    failIf (available < confirmations) (.insufficientConfirmations txid confirmations available)
    let rawTxFull ← asked (txPath txid ++ "/raw".toList) (esplora.getRawTx txid)
    let rawTxNoWitness ← (stripWitness (Hex.encode rawTxFull)).mapError ProofFailure.error
    let merkleProofData ← asked (txPath txid ++ "/merkle-proof".toList) (esplora.getMerkleProof txid)
    let headerHeights := List.range' blockHeight confirmations
    let blockHashes ← requestAll
      (fun h => asked ("/block-height/".toList ++ Nat.toDigits 10 h) (esplora.getBlockHashAtHeight h)) headerHeights
    let headerHexes ← requestAll
      (fun hash => asked ("/block/".toList ++ trim hash ++ "/header".toList) (esplora.getBlockHeader (trim hash)))
      blockHashes
    let blockHash ← toInternalByteOrder (trim (blockHashes.headD []))
    let merkleProof ← requestAll toInternalByteOrder merkleProofData.merkle
    .ok
      { txid
        rawTxNoWitness
        blockHash
        txIndex := merkleProofData.pos
        merkleProof
        headers := headerHexes.map trim
        blockHeight
        confirmations
        bitcoinTipHeight := some tipHeight }
  | _, _ => .error (.unconfirmed txid)

end Writz.Relayer.SpvProof

import Writz.Relayer.Process
import Writz.Relayer.Bitcoin.Tx
import Writz.BitcoinScript.Script
import Writz.BitcoinScript.Spend

/-!
# Co-signing a release

`repay-watcher/handler.ts`: loads the position, builds the Path A release PSBT, signs it with the
protocol's key and publishes it.
-/

namespace Writz.Relayer

open Node BitcoinScript

/-- The protocol's signer, and what else the handler uses of its libraries. -/
structure HandlerDeps where
  B : BitcoinJs
  P : PsbtLib
  publicKey : Bytes
  /-- `psbt.signInputAsync(0, signer)`. -/
  signInput : P.Psbt → Node.Result P.Psbt
  /-- `psbt.toBuffer()`. -/
  toBuffer : P.Psbt → Bytes
  /-- The address of `bitcoin.payments.p2wpkh({ pubkey, network })`. -/
  p2wpkh : Bytes → Network → Node.Result (Option Text)
  network : Network
  releaseFeeSat : Int

/-- Reverses a hex string's byte order (internal to display). -/
def reverseHex (txid : Bytes) : Text := Hex.encode txid.reverse

/-- The first of the outputs from `i` on with a script, `tries` of them at most. -/
def findOutputFrom (rawTxHex scriptPubKeyHex : Text) : Nat → Nat → Option Nat
  | 0, _ => none
  | tries + 1, i =>
    match parseOutput rawTxHex i with
    | .error _ => none
    | .ok out =>
      if toLowerCase out.scriptPubKey = toLowerCase scriptPubKeyHex then some i
      else findOutputFrom rawTxHex scriptPubKeyHex tries (i + 1)

/-- Finds the output index with a script in a raw transaction, bounded at 64 outputs. -/
def findOutputIndex (rawTxHex scriptPubKeyHex : Text) : Node.Result Nat :=
  okOr (findOutputFrom rawTxHex scriptPubKeyHex 64 0)
    ("no output matching scriptPubKey ".toList ++ scriptPubKeyHex ++ " found".toList)

/-- `pubkeyToP2WPKHAddress`. -/
def pubkeyToP2WPKHAddress (deps : HandlerDeps) (pubkey : Bytes) : Node.Result Text := do
  let address ← deps.p2wpkh pubkey deps.network
  okOr address "failed to derive P2WPKH address".toList

/-- `Number(x)` of a `u64`. -/
def numberOfU64 (x : Nat) : Int :=
  match Number.ofRat x with
  | .finite q => q.num
  | .infinite _ => 0

def keyMismatch (txidDisplay : Text) : Text :=
  "derived scriptPubKey for txid ".toList ++ txidDisplay
    ++ " does not match the on-chain position - ".toList
    ++ "refusing to co-sign (possible protocol key mismatch)".toList

/-- The unsigned release of a position, from its raw transaction. -/
def buildRelease (deps : HandlerDeps) (txidDisplay : Text) (position : Lend.Position)
    (deposit : DepositAddress) (rawTxFull : Text) : Node.Result deps.P.Psbt := do
  let vout ← findOutputIndex rawTxFull (Hex.encode position.p2wshScriptPubkey)
  let recipientAddress ← pubkeyToP2WPKHAddress deps position.userPubkey.1
  buildReleaseTransaction deps.P
    { txidHex := txidDisplay
      vout
      amountSat := numberOfU64 position.btcSatoshis
      scriptPubKey := deposit.scriptPubKey
      redeemScript := deposit.redeemScript
      recipientAddress
      feeSat := deps.releaseFeeSat
      network := deps.network }

variable (O : Environment)

/-- Uses the protocol's key: a request, kept in mind whether or not it is answered. -/
def cosign (txid : Bytes) (deed : Deed) : Async Unit := do
  Program.modify fun m =>
    { m with cosigned := { request := m.requests, txid, deed } :: m.cosigned }
  let _ ← request O

/-- Signs a release and publishes it. -/
def signAndPublish (deps : HandlerDeps) (txidInternal : Bytes) (psbt : deps.P.Psbt) : Async Unit := do
  cosign O txidInternal .sign
  let psbt ← ofResult (deps.signInput psbt)
  -- built and simulated, then sent
  let _ ← request O
  cosign O txidInternal (.publish (deps.toBuffer psbt))

/-- Handles a `repay_full` event for the given txid (internal byte order, as stored on-chain). -/
def handleRepayFull (deps : HandlerDeps) (txidInternal : Bytes) : Async Unit := do
  let position ← getPosition O txidInternal
  match position with
  | none =>
    fail ("repay_full event for unknown position ".toList ++ Hex.encode txidInternal)
  | some position => do
    let alreadyPublished ← getReleasePsbt O txidInternal
    if alreadyPublished.isSome then
      pure ()
    else do
      let txidDisplay := reverseHex txidInternal
      let deposit ← ofResult (deriveDepositAddress deps.B
        { protocolPubkey := deps.publicKey
          userPubkey := position.userPubkey.1
          timelockHeight := position.timelockHeight } deps.network)
      Program.throwIf (deposit.scriptPubKey ≠ position.p2wshScriptPubkey)
        (.error (keyMismatch txidDisplay))
      let k ← request O
      let psbt ← ofResult (buildRelease deps txidDisplay position deposit (O.rawTx k txidDisplay))
      signAndPublish O deps txidInternal psbt

/-- Whether the contract already holds the release for this position. -/
def isReleasePublished (txidInternal : Bytes) : Async Bool := do
  let result ← getReleasePsbt O txidInternal
  pure result.isSome

end Writz.Relayer

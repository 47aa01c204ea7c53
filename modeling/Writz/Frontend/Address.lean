import Writz.Node.BitcoinJs

/-!
# The deposit address, in the app

The app's copy of the redeem script, and the address it derives.
-/

namespace Writz.Frontend

open Node

/-- The message of a timelock that is too low. -/
def timelockMessage (timelockHeight : Nat) : String :=
  "timelockHeight must be ≥ 100,000 (got " ++ toString timelockHeight ++ ")"

/-- Builds the P2WSH redeem script. -/
def buildRedeemScript (B : BitcoinJs) (protocolPubkey userPubkey : Bytes) (timelockHeight : Nat) :
    Node.Result Bytes := do
  throwIf (protocolPubkey.length ≠ 33) "protocolPubkey must be a 33-byte compressed public key"
  throwIf (userPubkey.length ≠ 33) "userPubkey must be a 33-byte compressed public key"
  throwIf (timelockHeight < 100000) (timelockMessage timelockHeight)
  B.compile
    [.op Bitcoin.OP_IF,
     .push protocolPubkey,
     .op Bitcoin.OP_CHECKSIGVERIFY,
     .push userPubkey,
     .op Bitcoin.OP_CHECKSIG,
     .op Bitcoin.OP_ELSE,
     .push (B.numberEncode timelockHeight),
     .op Bitcoin.OP_CHECKLOCKTIMEVERIFY,
     .op Bitcoin.OP_DROP,
     .push userPubkey,
     .op Bitcoin.OP_CHECKSIG,
     .op Bitcoin.OP_ENDIF]

structure P2WSHAddress where
  address : Text
  scriptPubKey : Bytes
  redeemScript : Bytes

/-- Derives the P2WSH deposit address, on the configured network. -/
def deriveP2WSH (B : BitcoinJs) (network : Network) (protocolPubkeyHex userPubkeyHex : Text)
    (timelockHeight : Nat) : Node.Result P2WSHAddress := do
  let protocolPubkey := fromHex protocolPubkeyHex
  let userPubkey := fromHex userPubkeyHex
  let redeemScript ← buildRedeemScript B protocolPubkey userPubkey timelockHeight
  let payment ← B.p2wsh redeemScript network
  match payment.address, payment.output with
  | some address, some output => .ok { address, scriptPubKey := output, redeemScript }
  | _, _ => .error "Failed to derive P2WSH address".toList

end Writz.Frontend

import Writz.Node.BitcoinJs

/-!
# The redeem script, in TypeScript

`bitcoin-script`'s `script.ts` and `address.ts`.
-/

namespace Writz.BitcoinScript

open Node

def MIN_TIMELOCK_HEIGHT : Nat := 100000

/-- Builds the P2WSH redeem script. -/
def buildRedeemScript (B : BitcoinJs) (protocolPubkey userPubkey : Bytes) (timelockHeight : Nat) :
    Node.Result Bytes := do
  throwIf (protocolPubkey.length ≠ 33) "protocolPubkey must be 33-byte compressed"
  throwIf (userPubkey.length ≠ 33) "userPubkey must be 33-byte compressed"
  throwIf (timelockHeight < MIN_TIMELOCK_HEIGHT) "timelockHeight must be ≥ 100000"
  B.compile
    [.op Bitcoin.OP_IF,
      .push protocolPubkey,
      .op Bitcoin.OP_CHECKSIGVERIFY,
      .push userPubkey,
      .op Bitcoin.OP_CHECKSIG,
     .op Bitcoin.OP_ELSE,
      .push (B.numberEncode timelockHeight),
      .op Bitcoin.OP_CHECKLOCKTIMEVERIFY,
      .op Bitcoin.OP_DROP,
      .push userPubkey,
      .op Bitcoin.OP_CHECKSIG,
     .op Bitcoin.OP_ENDIF]

/-- All parameters that identify a deposit address. -/
structure LockingParams where
  protocolPubkey : Bytes
  userPubkey : Bytes
  timelockHeight : Nat

/-- The result of deriving a deposit address. -/
structure DepositAddress where
  address : Text
  scriptPubKey : Bytes
  redeemScript : Bytes

/-- Derives the P2WSH deposit address. -/
def deriveDepositAddress (B : BitcoinJs) (params : LockingParams) (network : Network) :
    Node.Result DepositAddress := do
  let redeemScript ← buildRedeemScript B params.protocolPubkey params.userPubkey
    params.timelockHeight
  let payment ← B.p2wsh redeemScript network
  match payment.address, payment.output with
  | some address, some output => .ok { address, scriptPubKey := output, redeemScript }
  | _, _ => .error "failed to derive P2WSH address".toList

end Writz.BitcoinScript

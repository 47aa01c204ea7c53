import Writz.Node.Buffer
import Writz.Node.Number
import Writz.Relayer.RpcCursor

/-!
# CCTP messages

`cctp/message.ts`: decoding a burn message, and the one route the relay pays gas for, from Stellar to
Base Sepolia. Integers are big-endian.
-/

namespace Writz.Relayer.Cctp

open Node

/-- Circle's domain for Stellar. -/
def STELLAR_DOMAIN : Nat := 27
/-- Circle's domain for Base (and Base Sepolia). -/
def BASE_DOMAIN : Nat := 6
def MESSAGE_VERSION : Nat := 1
def BURN_MESSAGE_VERSION : Nat := 1
/-- The only message recipient the relay accepts. -/
def BASE_SEPOLIA_TOKEN_MESSENGER : Text := "0x8FE6B999Dc680CcFDD5Bf7EB0974218be2542DAA".toList

def HEADER_BYTES : Nat := 148
def BODY_BYTES : Nat := 228

structure CctpBurnBody where
  version : Nat
  burnToken : Text
  mintRecipient : Text
  /-- USDC base units, as a decimal string. -/
  amount : Text
  messageSender : Text
  maxFee : Text
  feeExecuted : Text
  expirationBlock : Text
  hookData : Text
  deriving DecidableEq

structure CctpBurnMessage where
  version : Nat
  sourceDomain : Nat
  destinationDomain : Nat
  /-- 0x-prefixed bytes32. -/
  nonce : Text
  sender : Text
  recipient : Text
  destinationCaller : Text
  minFinalityThreshold : Nat
  finalityThresholdExecuted : Nat
  body : CctpBurnBody
  deriving DecidableEq

/-- `s.replace(/^0x/, "")`. -/
def strip0x (s : Text) : Text := if s.take 2 = "0x".toList then s.drop 2 else s

/-- What the code here throws. -/
inductive MessageError where
  /-- A `MessageRefusedError`, with its message. -/
  | refused (message : Text)
  /-- The `RangeError` of a read past the end of a buffer. -/
  | outOfRange
  /-- The `SyntaxError` of a text that `BigInt` does not read. -/
  | notAnInteger
  deriving DecidableEq

/-- `if (c) throw new MessageRefusedError(message)`. -/
def refuseIf (c : Prop) [Decidable c] (message : String) : Except MessageError Unit :=
  failIf c (.refused message.toList)

def hexToBytes (hex : Text) : Except MessageError Bytes := do
  let clean := strip0x hex
  refuseIf (clean.length % 2 ≠ 0 ∨ ¬ clean.all fun c => (Hex.value c).isSome)
    "the transfer message is not valid hex"
  .ok (fromHex clean)

def readUInt32BE (buf : Bytes) (offset : Nat) : Except MessageError Nat :=
  if buf.length < offset + 4 then .error .outOfRange
  else .ok (LittleEndian.decode ((buf.drop offset).take 4).reverse)

def b32 (buf : Bytes) (offset : Nat) : Text := "0x".toList ++ Hex.encode ((buf.drop offset).take 32)

def u256 (buf : Bytes) (offset : Nat) : Except MessageError Text :=
  match bigIntOfText (b32 buf offset) with
  | none => .error .notAnInteger
  | some n => .ok (textOfBigInt n)

/-- The body of a message, which `decodeBurnMessage` reads with the header. -/
def decodeBurnBody (body : Bytes) : Except MessageError CctpBurnBody := do
  let version ← readUInt32BE body 0
  let amount ← u256 body 68
  let maxFee ← u256 body 132
  let feeExecuted ← u256 body 164
  let expirationBlock ← u256 body 196
  .ok
    { version
      burnToken := b32 body 4
      mintRecipient := b32 body 36
      amount
      messageSender := b32 body 100
      maxFee
      feeExecuted
      expirationBlock
      hookData := "0x".toList ++ Hex.encode (body.drop BODY_BYTES) }

/-- Decodes a V2 burn message. -/
def decodeBurnMessage (messageHex : Text) : Except MessageError CctpBurnMessage := do
  let m ← hexToBytes messageHex
  refuseIf (m.length < HEADER_BYTES + BODY_BYTES)
    "the transfer message is too short to be a CCTP V2 burn"
  let version ← readUInt32BE m 0
  let sourceDomain ← readUInt32BE m 4
  let destinationDomain ← readUInt32BE m 8
  let minFinalityThreshold ← readUInt32BE m 140
  let finalityThresholdExecuted ← readUInt32BE m 144
  let body ← decodeBurnBody (m.drop HEADER_BYTES)
  .ok
    { version
      sourceDomain
      destinationDomain
      nonce := b32 m 12
      sender := b32 m 44
      recipient := b32 m 76
      destinationCaller := b32 m 108
      minFinalityThreshold
      finalityThresholdExecuted
      body }

/-- An EVM address left-padded to 32 bytes, as CCTP carries it. -/
def addressToBytes32 (address : Text) : Text :=
  "0x".toList ++ List.replicate 24 '0' ++ strip0x (toLowerCase address)

/-- An EVM address in a bytes32, if the top 12 bytes are zero. -/
def bytes32ToAddress (value : Text) : Option Text :=
  let hex := strip0x (toLowerCase value)
  if hex.length ≠ 64 ∨ hex.take 24 ≠ List.replicate 24 '0' then none
  else some ("0x".toList ++ hex.drop 24)

def ZERO_BYTES32 : Text := "0x".toList ++ List.replicate 64 '0'

structure RelayableBurn where
  message : CctpBurnMessage
  /-- The Base Sepolia address the USDC is minted to. -/
  mintRecipient : Text
  deriving DecidableEq

/-- Accepts only a Stellar to Base Sepolia USDC burn that anyone may complete, with no hook. -/
def assertRelayable (messageHex : Text) : Except MessageError RelayableBurn := do
  let message ← decodeBurnMessage messageHex
  refuseIf (message.version ≠ MESSAGE_VERSION ∨ message.body.version ≠ BURN_MESSAGE_VERSION)
    "the transfer is not a CCTP V2 burn"
  refuseIf (message.sourceDomain ≠ STELLAR_DOMAIN) "the transfer was not sent from Stellar"
  refuseIf (message.destinationDomain ≠ BASE_DOMAIN) "the transfer is not addressed to Base Sepolia"
  refuseIf (message.recipient ≠ addressToBytes32 BASE_SEPOLIA_TOKEN_MESSENGER)
    "the transfer is not a USDC mint through Circle's TokenMessenger"
  refuseIf (message.destinationCaller ≠ ZERO_BYTES32)
    "the transfer names its own caller on Base Sepolia, so the relay cannot complete it"
  refuseIf (message.body.hookData ≠ "0x".toList)
    "the transfer carries a hook, which the relay does not run"
  match bytes32ToAddress message.body.mintRecipient with
  | none => .error (.refused "the transfer's recipient is not a Base Sepolia address".toList)
  | some mintRecipient => do
    refuseIf (mintRecipient = "0x".toList ++ List.replicate 40 '0')
      "the transfer's recipient is not a Base Sepolia address"
    match bigIntOfText message.body.amount with
    | none => .error .notAnInteger
    | some amount => do
      refuseIf (amount ≤ 0) "the transfer's amount is zero"
      .ok { message, mintRecipient }

end Writz.Relayer.Cctp

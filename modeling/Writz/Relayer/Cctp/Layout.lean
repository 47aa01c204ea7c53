import Writz.Relayer.Cctp.Message

/-!
# The layout of a burn message

Circle's MessageV2 with a BurnMessageV2 as its body, and the messages the relay is meant to complete.
-/

namespace Writz.Relayer.Cctp

open Node

abbrev U32 := Fin (256 ^ 4)
abbrev U256 := Fin (256 ^ 32)

structure BurnMessageV2 where
  version : U32
  burnToken : BytesN 32
  mintRecipient : BytesN 32
  amount : U256
  messageSender : BytesN 32
  maxFee : U256
  feeExecuted : U256
  expirationBlock : U256
  hookData : Bytes

structure MessageV2 where
  version : U32
  sourceDomain : U32
  destinationDomain : U32
  nonce : BytesN 32
  sender : BytesN 32
  recipient : BytesN 32
  destinationCaller : BytesN 32
  minFinalityThreshold : U32
  finalityThresholdExecuted : U32
  messageBody : BurnMessageV2

def BurnMessageV2.encode (b : BurnMessageV2) : Bytes :=
  bytes 4 b.version ++ (b.burnToken.1 ++ (b.mintRecipient.1 ++ (bytes 32 b.amount ++
    (b.messageSender.1 ++ (bytes 32 b.maxFee ++ (bytes 32 b.feeExecuted ++
    (bytes 32 b.expirationBlock ++ b.hookData)))))))

def MessageV2.encode (m : MessageV2) : Bytes :=
  bytes 4 m.version ++ (bytes 4 m.sourceDomain ++ (bytes 4 m.destinationDomain ++ (m.nonce.1 ++
    (m.sender.1 ++ (m.recipient.1 ++ (m.destinationCaller.1 ++ (bytes 4 m.minFinalityThreshold ++
    (bytes 4 m.finalityThresholdExecuted ++ m.messageBody.encode))))))))

/-- `text` is hex of `bs`, in either case, with or without 0x. -/
def Spells (text : Text) (bs : Bytes) : Prop :=
  Hex.decode text = some bs ∨ ∃ ds, text = '0' :: 'x' :: ds ∧ Hex.decode ds = some bs

/-- An address left-padded to 32 bytes. -/
def padded (address : Bytes) : Bytes := List.replicate 12 0 ++ address

/-- A burn on Stellar that anyone may complete on Base Sepolia, with no hook. -/
structure MessageV2.Relayable (m : MessageV2) : Prop where
  version : m.version.val = 1
  bodyVersion : m.messageBody.version.val = 1
  sourceDomain : m.sourceDomain.val = 27
  destinationDomain : m.destinationDomain.val = 6
  recipient : ∃ address, Spells BASE_SEPOLIA_TOKEN_MESSENGER address ∧ m.recipient.1 = padded address
  destinationCaller : m.destinationCaller.1 = List.replicate 32 0
  hookData : m.messageBody.hookData = []
  mintRecipient : ∃ address, m.messageBody.mintRecipient.1 = padded address ∧
    address ≠ List.replicate 20 0
  amount : m.messageBody.amount.val ≠ 0

/-- Every decoded field is the encoded one. -/
structure Decodes (burn : RelayableBurn) (m : MessageV2) : Prop where
  version : burn.message.version = m.version.val
  sourceDomain : burn.message.sourceDomain = m.sourceDomain.val
  destinationDomain : burn.message.destinationDomain = m.destinationDomain.val
  nonce : Spells burn.message.nonce m.nonce.1
  sender : Spells burn.message.sender m.sender.1
  recipient : Spells burn.message.recipient m.recipient.1
  destinationCaller : Spells burn.message.destinationCaller m.destinationCaller.1
  minFinalityThreshold : burn.message.minFinalityThreshold = m.minFinalityThreshold.val
  finalityThresholdExecuted :
    burn.message.finalityThresholdExecuted = m.finalityThresholdExecuted.val
  bodyVersion : burn.message.body.version = m.messageBody.version.val
  burnToken : Spells burn.message.body.burnToken m.messageBody.burnToken.1
  mintRecipient : Spells burn.message.body.mintRecipient m.messageBody.mintRecipient.1
  amount : bigIntOfText burn.message.body.amount = some m.messageBody.amount.val
  messageSender : Spells burn.message.body.messageSender m.messageBody.messageSender.1
  maxFee : bigIntOfText burn.message.body.maxFee = some m.messageBody.maxFee.val
  feeExecuted : bigIntOfText burn.message.body.feeExecuted = some m.messageBody.feeExecuted.val
  expirationBlock :
    bigIntOfText burn.message.body.expirationBlock = some m.messageBody.expirationBlock.val
  hookData : Spells burn.message.body.hookData m.messageBody.hookData
  mintTo : ∃ address, Spells burn.mintRecipient address ∧
    m.messageBody.mintRecipient.1 = padded address

end Writz.Relayer.Cctp

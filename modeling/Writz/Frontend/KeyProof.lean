import Writz.Node.Buffer

/-!
# Key proofs, in the app

The message `keyProof.ts` asks the wallet to sign, and its framing.
-/

namespace Writz.Frontend

open Node

def depositKeyMessage (contractId depositor txidDisplayHex : Text) : Text :=
  "Writz deposit\ncontract:".toList ++ contractId ++ "\ndepositor:".toList ++ depositor
    ++ "\ntxid:".toList ++ toLowerCase txidDisplayHex

def MAGIC : Text := "Bitcoin Signed Message:\n".toList

def varint (n : Nat) : Option Bytes :=
  if n < 0xfd then some [UInt8.ofNat n]
  else (writeUIntLE 2 n).map (0xfd :: ·)

/-- The BIP-137 framing, before hashing; `none` where building it throws. -/
def signedMessageFrame (message : Text) : Option Bytes := do
  let m := utf8 message
  let magicSize ← varint MAGIC.length
  let size ← varint m.length
  some (magicSize ++ utf8 MAGIC ++ size ++ m)

/-- `sha256(sha256(signedMessageFrame(message)))`, what the embedded key's `signBitcoinMessage`
signs. -/
def messageHash (C : Crypto) (message : Text) : Option (BytesN 32) := do
  let frame ← signedMessageFrame message
  some (C.sha256 (C.sha256 frame).1)

end Writz.Frontend

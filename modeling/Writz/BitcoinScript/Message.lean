import Writz.Node.Buffer

/-!
# Bitcoin signed messages, on the wallet side

The framing, hashing and recovery of `bitcoin-script`'s `message.ts`.
-/

namespace Writz.BitcoinScript

open Node

def MAGIC : Text := "Bitcoin Signed Message:\n".toList

def varint (n : Nat) : Option Bytes :=
  if n < 0xfd then some [UInt8.ofNat n]
  else if n ≤ 0xffff then (writeUIntLE 2 n).map (0xfd :: ·)
  else (writeUIntLE 4 n).map (0xfe :: ·)

/-- `bitcoin.crypto.hash256`. -/
def hash256 (C : Crypto) (b : Bytes) : BytesN 32 := C.sha256 (C.sha256 b).1

/-- The digest a wallet signs; `none` where building it throws. -/
def bitcoinMessageHash (C : Crypto) (message : Text) : Option (BytesN 32) := do
  let m := utf8 message
  let magic := utf8 MAGIC
  let magicSize ← varint magic.length
  let size ← varint m.length
  some (hash256 C (magicSize ++ magic ++ size ++ m))

/-- `ecc.recover(hash, rs, recoveryId, true)`: the compressed key, `none` where it returns null or
throws. -/
abbrev EccRecover := BytesN 32 → BytesN 64 → Nat → Option Bytes

/-- The compressed key that made a BIP-137 signature over `message`. -/
def recoverBitcoinMessagePubkey (C : Crypto) (recover : EccRecover) (message : Text)
    (sig : Bytes) : Option Bytes :=
  if h : sig.length ≠ 65 then
    none
  else
    let header := (sig.headD 0).toNat
    if header < 31 ∨ header > 42 then
      none
    else do
      let recoveryId := (header - 27) &&& 3
      let hash ← bitcoinMessageHash C message
      recover hash ⟨sig.drop 1, by rw [List.length_drop]; omega⟩ recoveryId

def verifyBitcoinMessage (C : Crypto) (recover : EccRecover) (message : Text) (sig pubkey : Bytes) :
    Bool :=
  match recoverBitcoinMessagePubkey C recover message sig with
  | none => false
  | some recovered => pubkey.length == 33 && recovered == pubkey

end Writz.BitcoinScript

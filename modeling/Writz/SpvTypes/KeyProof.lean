import Writz.Soroban.Host
import Writz.Util.LittleEndian

/-!
# Key proofs

The message a depositor signs with the Bitcoin key a deposit names, and the recovery of its signer.
-/

namespace Writz

def MAGIC : Bytes := ascii "Bitcoin Signed Message:\n"
def HEX : Bytes := ascii "0123456789abcdef"

/-- The bytes `push_varint` appends: a Bitcoin CompactSize length. -/
def pushVarint (n : Nat) : Bytes :=
  if n < 0xfd then [UInt8.ofNat n]
  else if n ≤ 0xffff then [0xfd] ++ LittleEndian.encode 2 n
  else [0xfe] ++ LittleEndian.encode 4 n

/-- The two lowercase hex digits of a byte. -/
def hexOfByte (byte : UInt8) : Bytes :=
  [HEX.getD (byte >>> 4).toNat 0, HEX.getD (byte &&& 0x0f).toNat 0]

/-- The text the depositor signs. The txid is shown in display order, the reverse of the internal
order. -/
def depositMessage (contract depositor : Address) (txid : BytesN 32) : Bytes :=
  ascii "Writz deposit\ncontract:" ++ contract.strkey
    ++ ascii "\ndepositor:" ++ depositor.strkey
    ++ ascii "\ntxid:" ++ txid.1.reverse.flatMap hexOfByte

/-- SHA-256d of the BIP-137 framing of `msg`. -/
def signedMessageDigest (C : Crypto) (msg : Bytes) : BytesN 32 :=
  let framed := pushVarint MAGIC.length ++ MAGIC ++ pushVarint msg.length ++ msg
  C.sha256 (C.sha256 framed).1

/-- The `r || s` part of a 65-byte BIP-137 signature. -/
def rsOf (signature : BytesN 65) : BytesN 64 :=
  ⟨signature.1.drop 1, by rw [List.length_drop, signature.2]⟩

/-- The compressed form of a recovered (uncompressed) key. -/
def compress (recovered : BytesN 65) : Bytes :=
  (if recovered.1.getD 64 0 &&& 1 == 0 then 0x02 else 0x03) :: (recovered.1.drop 1).take 32

/-- Whether `signature` over `msg` was made by the compressed key `pubkey`; `none` where the host's
recovery traps on a malformed signature. -/
def signedBy (C : Crypto) (msg : Bytes) (signature : BytesN 65) (pubkey : BytesN 33) :
    Option Bool :=
  let header := (signature.1.headD 0).toNat
  if ¬ (31 ≤ header ∧ header ≤ 42) then
    some false
  else
    let recoveryId := (header - 27) &&& 3
    let digest := signedMessageDigest C msg
    match C.secp256k1Recover digest (rsOf signature) recoveryId with
    | none => none
    | some recovered => some (compress recovered == pubkey.1)

end Writz

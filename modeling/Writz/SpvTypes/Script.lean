import Writz.Soroban.Host
import Writz.Util.LittleEndian

/-!
# The Writz redeem script

The on-chain encoder of the locking script, its scriptPubKey, and the bounds on its timelock.
-/

namespace Writz

/-- A deposit's escape hatch must unlock at least this many blocks after its confirmation. -/
def MIN_TIMELOCK_MARGIN_BLOCKS : Nat := 1008

/-- And at most this many blocks after it. -/
def MAX_TIMELOCK_MARGIN_BLOCKS : Nat := 105000

/-- True when `timelockHeight` lies within the allowed window above the confirming block. -/
def timelockInBounds (timelockHeight confirmedHeight : Nat) : Bool :=
  let earliest := saturatingAddU32 confirmedHeight MIN_TIMELOCK_MARGIN_BLOCKS
  let latest := saturatingAddU32 confirmedHeight MAX_TIMELOCK_MARGIN_BLOCKS
  decide (earliest ≤ timelockHeight) && decide (timelockHeight ≤ latest)

def OP_IF : UInt8 := 0x63
def OP_ELSE : UInt8 := 0x67
def OP_ENDIF : UInt8 := 0x68
def OP_DROP : UInt8 := 0x75
def OP_CHECKSIG : UInt8 := 0xac
def OP_CHECKSIGVERIFY : UInt8 := 0xad
def OP_CHECKLOCKTIMEVERIFY : UInt8 := 0xb1
def PUSH_33_BYTES : UInt8 := 0x21

/-- True for a compressed secp256k1 public key encoding; only the prefix is checked. -/
def isCompressedPubkey (key : BytesN 33) : Bool :=
  let pref := key.1.headD 0
  pref == 0x02 || pref == 0x03

/-- `while len > 1 && le[len - 1] == 0 { len -= 1 }`. -/
def trimmedLen (le : Bytes) : Nat → Nat
  | 0 => 0
  | 1 => 1
  | len + 2 => if le.getD (len + 1) 0 = 0 then trimmedLen le (len + 1) else len + 2

/-- The bytes `push_script_number` appends: a minimally encoded script number push, with a zero pad
byte when the top bit would read as a sign bit. -/
def pushScriptNumber (n : Nat) : Bytes :=
  let le := LittleEndian.encode 4 n
  let len := trimmedLen le le.length
  let needsPad := le.getD (len - 1) 0 &&& 0x80 != 0
  [UInt8.ofNat (len + needsPad.toNat)] ++ le.take len ++ (if needsPad then [0x00] else [])

/-- The Writz redeem (witness) script. -/
def redeemScript (protocolPubkey userPubkey : BytesN 33) (timelockHeight : Nat) : Bytes :=
  [OP_IF]
    ++ [PUSH_33_BYTES] ++ protocolPubkey.1 ++ [OP_CHECKSIGVERIFY]
    ++ [PUSH_33_BYTES] ++ userPubkey.1 ++ [OP_CHECKSIG]
    ++ [OP_ELSE]
    ++ pushScriptNumber timelockHeight ++ [OP_CHECKLOCKTIMEVERIFY] ++ [OP_DROP]
    ++ [PUSH_33_BYTES] ++ userPubkey.1 ++ [OP_CHECKSIG]
    ++ [OP_ENDIF]

/-- The 34-byte P2WSH scriptPubKey a Writz deposit output must carry. -/
def p2wshScriptPubkey (C : Crypto) (protocolPubkey userPubkey : BytesN 33) (timelockHeight : Nat) :
    Bytes :=
  [0x00] ++ [0x20] ++ (C.sha256 (redeemScript protocolPubkey userPubkey timelockHeight)).1

end Writz

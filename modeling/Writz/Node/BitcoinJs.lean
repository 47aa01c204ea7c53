import Writz.Node.Buffer
import Writz.Bitcoin.Script
import Writz.Bitcoin.ScriptNum

/-!
# bitcoinjs-lib, as the TypeScript code uses it

The functions of the library are parameters; `FollowsRules` says what the code relies on.
-/

namespace Writz.Node

open Bitcoin (Element)

/-- `bitcoin.networks.Network`. -/
inductive Network where
  | bitcoin | testnet
  deriving DecidableEq

/-- What the code reads of a `Payment`. -/
structure Payment where
  address : Option Text
  output : Option Bytes

/-- The script functions of bitcoinjs-lib. -/
structure BitcoinJs where
  /-- `bitcoin.script.compile`, of opcodes and buffers. -/
  compile : List Element → Result Bytes
  /-- `bitcoin.script.number.encode`, on a number that is not negative. -/
  numberEncode : Nat → Bytes
  /-- `bitcoin.payments.p2wsh({ redeem: { output, network }, network })`. -/
  p2wsh : Bytes → Network → Result Payment

/-- Bitcoin's rules: minimal pushes, minimal script numbers, and the P2WSH output of a script within
the limits. -/
structure BitcoinJs.FollowsRules (B : BitcoinJs) (C : Crypto) : Prop where
  compile : ∀ chunks, (∀ data, Element.push data ∈ chunks → data.length < 2 ^ 32) →
    B.compile chunks = .ok (Bitcoin.compile chunks)
  numberEncode : ∀ n ≤ U32_MAX, Bitcoin.minimalNum (B.numberEncode n) = true ∧
    Bitcoin.scriptNum (B.numberEncode n) = n
  p2wsh : ∀ script network es, Bitcoin.parse script = some es → es ≠ [] → es.length ≤ 201 →
    script.length ≤ 3600 → ∃ address, B.p2wsh script network
      = .ok { address := some address, output := some ([0x00, 0x20] ++ (C.sha256 script).1) }

end Writz.Node

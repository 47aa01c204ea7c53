import Writz.Stack.System
import Writz.BitcoinSpv.Deployment
import Writz.Lend.Deployment

/-!
# Two pools over the small light client

The transaction of the mined block `b1` is a deposit of Alice's. She signs it over to two pools.
-/

namespace Writz.Stack.Demo

def firstPool : Address := Lend.Demo.contract
def secondPool : Address := ⟨ascii "CBTDRSPEDMBXLUN4TNYXCIXSUCHVCBUAXYY7HR2F4PZJWZWK4GZ5L6WT"⟩

/-- The deposit in `b1`, with Alice's signature for the first pool. -/
def firstDeposit : Lend.Demo.SignedDeposit where
  depositor := Lend.Demo.alice
  rawTx := Spv.Demo.b1Tx
  scriptPubkey := bytes 34 0x00207b6d4586f6435e1c8ce970e94adb597a31b014deff265ed0fc3332dd69d5f7c5
  timelockHeight := 860000
  userPubkey := bytesN 33 0x039997a497d964fc1a62885b05a51166a65a90df00492c8d7cf61d6accf54803be
  keySig := bytesN 65
    0x20e70bb35517a6400663094e714c68e1b67ab21d8ab32e814aae42377c38cad2eb6ff76cf8f92b04faa5cd130097f2927e676b92d8eb74e3aaa1b1f3a0c2ef5717
  digest := bytesN 32 0x5512687e832ffad221ec2bf70b41329e5f59e424edee5bdf9512e46e531066ee
  recovered := bytesN 65
    0x049997a497d964fc1a62885b05a51166a65a90df00492c8d7cf61d6accf54803be229885d507c0ad853f9f0002564d821be71ced82038b789fad0c71e28a022575

/-- The same deposit, with Alice's signature for the second pool. -/
def secondDeposit : Lend.Demo.SignedDeposit :=
  { firstDeposit with
    keySig := bytesN 65
      0x204d561e2c2ac4cb47cdb4a876c5076684add384d2c2d27d5f178ba2d485d07d006693e3860b604cb0828d718c2dd1379a1c1aaf4cb618248e5c127618ce93b464
    digest := bytesN 32 0xe07d174292f71e0891270ca469c906c034190895ea03aa0d9cb3b7391cd40260 }

/-- Nothing answers at an address without a contract. -/
def nothing : Lend.SpvClient Spv.Storage where
  verifyTransaction _ _ _ _ _ _ _ := none
  consumeDeposit _ _ _ _ := none
  getBestTip _ _ := none
  getHeader _ _ _ := none

def host : Host (Store Address Nat) where
  crypto := Lend.Demo.crypto [firstDeposit, secondDeposit]
  token := Lend.asset
  spvAddress := Lend.Demo.spvContract
  elsewhere := nothing

def start : State (Store Address Nat) where
  spv := Spv.Demo.start.storage
  lends := ∅
  token := Lend.Demo.balances
  ledger := Spv.Demo.start.ledger

theorem start_deployed : Deployed start := ⟨Spv.Demo.start_deployed, rfl⟩

/-- Everybody authorizes, and the oracle is silent. -/
def env : Lend.Env where
  auth _ := true
  lastprice _ := none
  decimals _ := none

def deploy (a : Address) : Label (Store Address Nat) :=
  .deploy a Lend.Demo.admin Lend.Demo.spvContract Lend.Demo.usdc Lend.Demo.oracle Lend.Demo.keeper
    Lend.Demo.relayer Lend.Demo.protocolPubkey 1 100000 3110400

/-- A deposit of the transaction in `b1` at a pool. -/
def depositAt (a : Address) (d : Lend.Demo.SignedDeposit) : Label (Store Address Nat) :=
  .lend a env
    (.deposit d.depositor (Spv.hashHeader Spv.Demo.crypto Spv.Demo.b1) [] 0 d.rawTx d.scriptPubkey
      d.timelockHeight d.userPubkey d.keySig)

/-- Both pools are deployed and registered, the block is submitted, and Alice deposits at the
first. -/
def firstSteps : List (Label (Store Address Nat)) :=
  [.spv Spv.Demo.auth (.setCheckpoint Spv.Demo.admin 806398 Spv.Demo.checkpointHash
      Spv.Demo.POW_LIMIT_BITS 1749000000 1748700000),
   deploy firstPool,
   deploy secondPool,
   .spv Spv.Demo.auth (.setConsumer Spv.Demo.admin firstPool true),
   .spv Spv.Demo.auth (.setConsumer Spv.Demo.admin secondPool true),
   .spv Spv.Demo.auth (.submitHeaders [Spv.Demo.b1]),
   depositAt firstPool firstDeposit]

/-- The first pool is removed from the registry, and Alice deposits the same transaction at the
second. -/
def secondSteps : List (Label (Store Address Nat)) :=
  [.spv Spv.Demo.auth (.setConsumer Spv.Demo.admin firstPool false),
   depositAt secondPool secondDeposit]

end Writz.Stack.Demo

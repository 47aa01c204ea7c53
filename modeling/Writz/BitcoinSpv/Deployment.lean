import Writz.BitcoinSpv.System

/-!
# A small light client

A signet deployment to replay runs on: SHA-256 is computed, and the headers carry their proof of work.
The checkpoint is the last but one block of its difficulty period. Two branches leave it, the first
with a last interval of over a week, the second with one of half a week, so the retarget leaves the
second with the higher difficulty.
-/

namespace Writz.Spv

/-- What a replay from a deployment ends in is reachable. -/
theorem reachable_of_replay {C : Crypto} {s₀ : State} (h0 : Deployed s₀) (as : List Label)
    {P : State → Prop} [DecidablePred P]
    (h : ((system C).replay s₀ as).any (fun s => decide (P s)) = true) :
    ∃ s, Runs.Reachable (system C) s ∧ P s := by
  obtain ⟨s, hs, hP⟩ := (Option.any_eq_true _ _).mp h
  exact ⟨s, Runs.Via.replay (.init h0) hs, of_decide_eq_true hP⟩

namespace Demo

def admin : Address := ⟨ascii "GCGGS5XFWVAQIFN55EEL2TPOCXP3CZ5JZBZ7YS5YVAPW6KVUJCURQBJ7"⟩

/-- SHA-256; nothing here recovers keys. -/
def crypto : Crypto where
  sha256 := sha256
  secp256k1Recover _ _ _ := none

/-- Signet's proof-of-work limit. -/
def POW_LIMIT_BITS : Nat := 0x1e0377ae

def start : State where
  storage :=
    { config := some
        { admin, powLimitBits := POW_LIMIT_BITS, submitter := none
          headerTtlLedgers := MAX_ENTRY_TTL_LEDGERS
          consumedTtlLedgers := MAX_ENTRY_TTL_LEDGERS }
      checkpoint := none
      bestTip := none
      headers := ∅
      canonical := ∅
      consumers := ∅
      consumed := ∅ }
  ledger := { sequence := 1000, timestamp := 1750000000 }

theorem start_deployed : Deployed start :=
  ⟨admin, POW_LIMIT_BITS, MAX_ENTRY_TTL_LEDGERS, MAX_ENTRY_TTL_LEDGERS, rfl⟩

/-! ## Headers -/

def checkpointHash : BytesN 32 :=
  bytesN 32 0xda95094db04d023735efa1f187218b68d90fea9ff2142c2dadba0cf47b010000

/-- The first branch, up to the end of the period. -/
def a1 : BytesN 80 := bytesN 80
  0x00000020da95094db04d023735efa1f187218b68d90fea9ff2142c2dadba0cf47b01000005c3585f459b48a92dbd65e5693398fdf91cc0cfd09dc6eb78d759063d20364080944668ae77031e53e96000
/-- The first block after the retarget. -/
def a2 : BytesN 80 := bytesN 80
  0x00000020207d915c21f300f99c6e38339e3de9aa63aa48329596ba995814ff5c83010000d5c7d5bc64f8f7a1892975562c4a0cf0f7dfc79655fc955aced75431628332ebd8964668cc2a021e9ebb7700
/-- Its child. -/
def a3 : BytesN 80 := bytesN 80
  0x0000002006f9b5a5276be2f77c8b6fc0ec52e169e39791bc8b31d94e2915f0390c0000006825a7fef4f70829408ca54039f1d81b2c6d7aa3ed5b051bc02c66f8bf94bcf730994668cc2a021ecf5baa00
/-- Its grandchild. -/
def a4 : BytesN 80 := bytesN 80
  0x0000002074bb5e58b5fa537933e43544efcc3beb7647c7d33ea61541b865fa380e0200000984488fb68f91560c3649d89f6f457679c635f93a6a4c19344fef2586850944889b4668cc2a021e7a1d5600
/-- The second branch, up to the end of the period. -/
def b1 : BytesN 80 := bytesN 80
  0x00000020da95094db04d023735efa1f187218b68d90fea9ff2142c2dadba0cf47b01000076fc040a317d465bef28cdf7af2a0c09b765dad4e6513937e6bd02f0056a73a498a13f68ae77031ee470e700
/-- The first block after the retarget. -/
def b2 : BytesN 80 := bytesN 80
  0x0000002076159dc63a134431a23cc0ab590976175c8b46b640a525bfb1e68912680200005abe4abe5f731174b414b7d7289d38d4beb59186f139784b2bc53b35c101e83ff0a33f68ebdd001e6fd9e200

/-- The only transaction of `b1`. -/
def b1Tx : Bytes := bytes 94
  0x020000000136b8e2a71833180c89fab7290016cfd1237210ecd1a90a4535ec2816afb83b700000000000ffffffff0100e1f505000000002200207b6d4586f6435e1c8ce970e94adb597a31b014deff265ed0fc3332dd69d5f7c500000000

/-- A transaction nobody mined. -/
def forgedTx : Bytes := bytes 11 0x0200000000666f72676564

/-- The sibling its proof gives. -/
def forgedSibling : BytesN 32 :=
  bytesN 32 0x7d10de8554ed5ca40f9d0f0e0f4375b5b338af3fb96d33c9b2f53b5289b8f4fe

/-- A transaction of 64 bytes: the forged transaction's hash and the sibling. -/
def nodeSizedTx : Bytes := bytes 64
  0x480cfea1c6bd3f29670c99fe38255d247bb2841946cdcf908fb631fb4672ffb37d10de8554ed5ca40f9d0f0e0f4375b5b338af3fb96d33c9b2f53b5289b8f4fe

/-- A child of the checkpoint with that transaction alone. -/
def c1 : BytesN 80 := bytesN 80
  0x00000020da95094db04d023735efa1f187218b68d90fea9ff2142c2dadba0cf47b010000866542d36da2316cb6fcebe8636d466bd780d6359141cd33533fe11e994d56a6c4a23f68ae77031ea5cb5a00

/-! ## Steps -/

/-- Everybody authorizes. -/
def auth : Auth := fun _ => true

/-- The admin sets the trust root. -/
def setRoot : Label :=
  .invoke auth (.setCheckpoint admin 806398 checkpointHash POW_LIMIT_BITS 1749000000 1748700000)

def submit (headers : List (BytesN 80)) : Label := .invoke auth (.submitHeaders headers)

/-- The light client once its trust root is set. -/
def rooted : State where
  storage :=
    { start.storage with
      checkpoint := some
        { height := 806398, blockHash := checkpointHash, bits := POW_LIMIT_BITS, time := 1749000000
          periodStartTime := 1748700000, setAtLedger := 1000 }
      headers := (∅ : Store (BytesN 32) HeaderEntry).insert checkpointHash
        { prev := bytesN 32 0, merkleRoot := bytesN 32 0, height := 806398, bits := POW_LIMIT_BITS
          time := 1749000000, periodStartTime := 1748700000, chainwork := 0 }
      canonical := (∅ : Store Nat (BytesN 32)).insert 806398 checkpointHash
      bestTip := some { hash := checkpointHash, height := 806398, chainwork := 0 } }
  ledger := start.ledger

theorem setRoot_rooted : (system crypto).step start setRoot = some rooted := rfl

theorem rooted_stored {a : BytesN 32} {e : HeaderEntry}
    (h : rooted.storage.headers.lookup a = some e) :
    a = checkpointHash ∧ e.height = 806398 ∧ e.chainwork = 0 := by
  unfold rooted at h
  dsimp only at h
  rw [Store.lookup_insert_eq_ite] at h
  split_ifs at h with ha
  · cases h
    exact ⟨ha, rfl, rfl⟩
  · simp at h

end Demo

end Writz.Spv

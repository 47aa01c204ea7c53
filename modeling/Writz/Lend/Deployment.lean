import Writz.Lend.System
import Writz.Lend.Asset

/-!
# Deployments

How runs of a deployed instance are replayed, and a small deployment to replay them on: SHA-256 is
computed, the deposits are signed with secp256k1 keys and their recovered keys are listed.
-/

namespace Writz.Lend

section

variable {τ ρ : Type}

/-- The state a deployment starts in. -/
def launch (storage : Storage) (token : τ) (spv : ρ) (ledger : Ledger) : World τ ρ :=
  { storage with token := token, spv := spv, ledger := ledger }

/-- What a replay from a deployment ends in is reachable. -/
theorem reachable_of_replay {A : Arith} {H : Host τ ρ} {w₀ : World τ ρ} (h0 : Deployed w₀)
    (as : List (Label τ ρ)) {α : Type} {f : World τ ρ → α} {a : α}
    (h : ((system A H).replay w₀ as).map f = some a) :
    ∃ w, Runs.Reachable (system A H) w ∧ f w = a := by
  obtain ⟨w, hw, ha⟩ := Option.map_eq_some_iff.mp h
  exact ⟨w, Runs.Via.replay (.init h0) hw, ha⟩

/-- What a replay from a deployment records is a run. -/
theorem run_of_record {A : Arith} {H : Host τ ρ} {w₀ : World τ ρ} (h0 : Deployed w₀)
    (as : List (Label τ ρ)) {p : List (Runs.Transition (World τ ρ) (Label τ ρ)) × World τ ρ → Bool}
    (h : ((system A H).record w₀ as).any p = true) :
    ∃ tr w, Runs.Run (system A H) tr w ∧ p (tr, w) = true := by
  obtain ⟨⟨tr, w⟩, hr, hp⟩ := (Option.any_eq_true _ _).mp h
  exact ⟨tr, w, Runs.Run.record (r := ([], w₀)) (.init h0) hr, hp⟩

end

/-! ## A small deployment -/

namespace Demo

def contract : Address := ⟨ascii "CAKWN5TSQ6AWWCVFGPPHO2RTNOD7R7IMMIIHZMXV7MTELEXBLQHYR7FE"⟩
def spvContract : Address := ⟨ascii "CD6BCMKEFHRIJ5VCK5RQYVCS7IFSKVJHX724LRB6FKHVKAHBAHEXVDRZ"⟩
def usdc : Address := ⟨ascii "CCRUMROOWNNRDZFIVKPDT7J3A37GU3GV6UBI567BYU7Y4KIDVK4WMPW2"⟩
def oracle : Address := ⟨ascii "CCJAFL3M5ES3E2XGWJNN77YLE4CRI7QZL6RY3VMK43WMLDWSMN2R647I"⟩
def admin : Address := ⟨ascii "GCGGS5XFWVAQIFN55EEL2TPOCXP3CZ5JZBZ7YS5YVAPW6KVUJCURQBJ7"⟩
def keeper : Address := ⟨ascii "GAAKVCKCKJNXMPF6OLSKB673WAT3SCO5QKM6TRWILQUNHVBNFTBIWIFU"⟩
def relayer : Address := ⟨ascii "GAPQ7K3VNIAQPJOSS5L66IE3ABXW4FOZHAFYGXQM3BNJAZ7KEX5RXJPD"⟩
def lender : Address := ⟨ascii "GCHEFHTVGFG5RTC5E7UNT75LFVEREKLVEXX436UTUDIEP3BXICA6SKDV"⟩
def alice : Address := ⟨ascii "GAV5QBWJP4HABLY2D7BTFD5HMOUSNFZDZDNY7LCPSOXXDWYYNVXJBKNV"⟩
def bob : Address := ⟨ascii "GCA3MN6Y7TJMNWTDLHTJMMITUELQ3Z4V4S3SLOCNDYFUZ7M6YWGOTE64"⟩

def protocolPubkey : BytesN 33 :=
  bytesN 33 0x03038ba11398fe8a7febcc735f154e33991073d875677013f26f1746e79b63b4fa

/-- A deposit transaction with the depositor's signature over the deposit message, and what the
host's recovery answers for that signature. -/
structure SignedDeposit where
  depositor : Address
  rawTx : Bytes
  scriptPubkey : Bytes
  timelockHeight : Nat
  userPubkey : BytesN 33
  keySig : BytesN 65
  digest : BytesN 32
  recovered : BytesN 65

/-- One bitcoin of Alice's, locked to height 952560. -/
def aliceDeposit : SignedDeposit where
  depositor := alice
  rawTx := bytes 94
    0x020000000136b8e2a71833180c89fab7290016cfd1237210ecd1a90a4535ec2816afb83b700000000000ffffffff0100e1f50500000000220020e05c4842dab02ee68c8dd35cc83ed7582ec7ebdb1c6fa126542f6da1ed45818a00000000
  scriptPubkey := bytes 34 0x0020e05c4842dab02ee68c8dd35cc83ed7582ec7ebdb1c6fa126542f6da1ed45818a
  timelockHeight := 952560
  userPubkey := bytesN 33 0x039997a497d964fc1a62885b05a51166a65a90df00492c8d7cf61d6accf54803be
  keySig := bytesN 65
    0x1f3d9a1baffa99fe7fd88250e9417c19e0f6b148215364618023fcfbe06f8ec6d5095a7c1344016b72d2bddf9a35667fb90493154f67a738d4903661a4504b514d
  digest := bytesN 32 0xbcb8417bd491c4c100a00c4feef7493578ea50530aa2122aa08b4a7bdc89d3fd
  recovered := bytesN 65
    0x049997a497d964fc1a62885b05a51166a65a90df00492c8d7cf61d6accf54803be229885d507c0ad853f9f0002564d821be71ced82038b789fad0c71e28a022575

/-- One bitcoin of Bob's, locked to height 952560. -/
def bobDeposit : SignedDeposit where
  depositor := bob
  rawTx := bytes 94
    0x02000000017c773094c2bfed95dbf3627c9b8004c39dcc2d77f15599339d6342007586ade00000000000ffffffff0100e1f50500000000220020df0f8d87a69351a7e6162274dd38c626384c338049b1a2083ec8fc577c88e0dd00000000
  scriptPubkey := bytes 34 0x0020df0f8d87a69351a7e6162274dd38c626384c338049b1a2083ec8fc577c88e0dd
  timelockHeight := 952560
  userPubkey := bytesN 33 0x024edfcf9dfe6c0b5c83d1ab3f78d1b39a46ebac6798e08e19761f5ed89ec83c10
  keySig := bytesN 65
    0x1f3e423bc370178e7380e1c68436feaee8ffa9c85e7ba4ba70819c0cf77fdc85011ffe6a69d5750f04fd128c468b42db891873d3c26adb5ce6ba845dee5e26f214
  digest := bytesN 32 0x998362ab608bfc4214dce7e27db060e23ddd4ab47cd5e21bac96f605381eb963
  recovered := bytesN 65
    0x044edfcf9dfe6c0b5c83d1ab3f78d1b39a46ebac6798e08e19761f5ed89ec83c108172c4776865f02047b39cd704135c00c1b00085e0d1b9255405ac7079fa50a2

/-- The recovery id in a signature's header byte. -/
def recoveryIdOf (keySig : BytesN 65) : Nat := ((keySig.1.headD 0).toNat - 27) &&& 3

/-- SHA-256, and secp256k1 recovery of the listed signatures. -/
def crypto (ds : List SignedDeposit) : Crypto where
  sha256 := sha256
  secp256k1Recover digest rs recoveryId :=
    (ds.find? fun d => decide (d.digest = digest ∧ rsOf d.keySig = rs
      ∧ recoveryIdOf d.keySig = recoveryId)).map SignedDeposit.recovered

def blockHash : BytesN 32 := ⟨List.replicate 32 1, rfl⟩
def tipHash : BytesN 32 := ⟨List.replicate 32 2, rfl⟩

/-- A light client that has confirmed the listed transactions at `height`, under a tip nine blocks
further with header time `time`. Its state is the list of consumed deposits. -/
def spv (txs : List Bytes) (height time : Nat) : SpvClient (List (BytesN 32)) where
  verifyTransaction _ _ block _ _ rawTx _ :=
    if block = blockHash ∧ rawTx ∈ txs then
      some
        { txid := sha256 (sha256 rawTx).1
          blockHash
          blockHeight := height
          confirmations := 10 }
    else
      none
  consumeDeposit consumed _ _ txid := if txid ∈ consumed then none else some (txid :: consumed)
  getBestTip _ _ := some (some { hash := tipHash, height := height + 9, chainwork := 1000 })
  getHeader _ _ hash :=
    some
      (if hash = tipHash then
        some
          { prev := blockHash
            merkleRoot := blockHash
            height := height + 9
            bits := 0x1d00ffff
            time
            periodStartTime := time
            chainwork := 1000 }
      else
        none)

def START : Nat := 1750000000

def host (ds : List SignedDeposit) (height : Nat) : Host (Store Address Nat) (List (BytesN 32)) where
  self := contract
  crypto := crypto ds
  token := asset
  spv := spv (ds.map SignedDeposit.rawTx) height START

/-- Everybody authorizes, and the oracle quotes 100000 USD at `now`. -/
def env (now : Nat) : Env where
  auth _ := true
  lastprice _ := some (some { price := 10000000000000000000, timestamp := now })
  decimals _ := some 14

/-- The ledger `n` five-second closes after the start. -/
def ledger (n : Nat) : Ledger := { sequence := 1000 + n, timestamp := START + 5 * n }

/-- Balances before anything happens. -/
def balances : Store Address Nat := (((∅ : Store Address Nat).insert lender 1000).insert alice 1000).insert bob 1000

def storage : Storage :=
  { config := some
      { admin, spvContract, usdcToken := usdc, oracle, keeper, relayer, protocolPubkey,
        minDepositSatoshis := 100000
        minCollateralRatioBp := 15000
        liquidationThresholdBp := 12000
        liquidationBonusBp := 1000
        minConfirmations := 6
        keeperStaleAfterSecs := 86400
        paused := false
        maxTotalBorrowed := 500000000000
        entryTtlLedgers := 3110400
        borrowTimelockMarginBlocks := DEFAULT_BORROW_TIMELOCK_MARGIN_BLOCKS
        maxTipAgeSecs := DEFAULT_MAX_TIP_AGE_SECS }
    protocol := none
    positions := ∅
    supplyBalances := ∅
    releasePsbts := ∅
    events := [] }

/-- The states and the steps of the deployment. -/
abbrev State : Type := World (Store Address Nat) (List (BytesN 32))
abbrev Step : Type := Label (Store Address Nat) (List (BytesN 32))

def world : State := launch storage balances [] (ledger 0)

theorem world_deployed : Deployed world :=
  ⟨admin, spvContract, usdc, oracle, keeper, relayer, protocolPubkey, 6, 100000, 3110400, rfl⟩

/-- The deposit call for a signed deposit. -/
def depositCall (d : SignedDeposit) : Call :=
  .deposit d.depositor blockHash [] 0 d.rawTx d.scriptPubkey d.timelockHeight d.userPubkey d.keySig

/-- The transaction a signed deposit was made in. -/
def txidOf (d : SignedDeposit) : BytesN 32 := sha256 (sha256 d.rawTx).1

end Demo

end Writz.Lend

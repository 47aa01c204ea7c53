import Writz.Relayer.Faucet.System

/-!
# A faucet with one coin

The payments its key can sign here, and the requests of two users.
-/

namespace Writz.Relayer

open Node
open BitcoinScript (P2wpkhUtxo P2wpkhPayment Payer)

/-! ## Deciding what a run trusts -/

section Decidable

variable {P : Payer} [DecidablePred P.Signs] (s : Faucet)

instance (t : Int) (listing : List AddressUtxo) : Decidable (s.Lists P t listing) :=
  decidable_of_iff
    ((listing.map fun u => outpoint u.utxo).Nodup ∧
      (∀ e ∈ s.accepted, e.2 + RESERVATION_TTL_MS < t → ∀ b ∈ s.broadcasts, b.payment.txid = e.1 →
        ∀ u ∈ listing, outpoint u.utxo ∉ outpoints b.payment) ∧
      ∀ u ∈ listing, P.Signs u.txid → s.Accepted u.txid)
    ⟨fun h => ⟨h.1, h.2.1, h.2.2⟩, fun h => ⟨h.distinct, h.reflects, h.accepted⟩⟩

instance (a : FaucetLabel) : Decidable (s.Trusts P a) :=
  match a with
  | .clock t => inferInstanceAs (Decidable (s.now ≤ t))
  | .listed (.ok listing) => inferInstanceAs (Decidable (∀ t ∈ s.requestedAt, s.Lists P t listing))
  | .statusListed i (.ok listing) =>
    inferInstanceAs (Decidable (∀ call ∈ s.statuses[i]?, s.Lists P call.requestedAt listing))
  | .answered (.ok _) _ => inferInstanceAs (Decidable (∀ b ∈ s.pending, s.Accepted b.payment.txid))
  | .answered (.error e) _ =>
    inferInstanceAs (Decidable (isRejection e = true → ∀ b ∈ s.pending, ¬s.Accepted b.payment.txid))
  | .accept txid => inferInstanceAs (Decidable (s.MayAccept txid))
  | .restart => inferInstanceAs (Decidable False)
  | .claim .. | .verified .. | .enter _ | .listed (.error _) | .estimated _ | .status
  | .statusListed _ (.error _) => inferInstanceAs (Decidable True)

instance (a : FaucetLabel) : Decidable (s.Covers a) :=
  match a with
  | .listed (.ok listing) =>
    inferInstanceAs (Decidable (∀ u ∈ listing, s.Spent (outpoint u.utxo) → s.coins.isReserved u.utxo = true))
  | .clock _ | .claim .. | .verified .. | .enter _ | .listed (.error _) | .estimated _ | .answered ..
  | .status | .statusListed .. | .accept _ | .restart => inferInstanceAs (Decidable True)

end Decidable

/-! ## The faucet -/

namespace Faucet.Demo

def ALICE : Text := "tb1qmvlsp4pf7fc48q7vt9p93mq36m09ye5hpdz6rn".toList
def BOB : Text := "tb1qdmm5875nd4709xuh7f65k9d46laea9ql7s0h59".toList

def coin : AddressUtxo where
  txid := "0101010101010101010101010101010101010101010101010101010101010101".toList
  vout := 0
  value := 100000
  confirmed := true

def aliceTxid : Text :=
  "5a35b132b8c6cfa36168fa25d4efaa20c237a6cd177301ba4e73ca7fa513201d".toList
def bobTxid : Text :=
  "2636cb5919bd1428fb9b8ca6081357bd93968281d48d7e026da46cfc71bb6f1c".toList
def aliceAgainTxid : Text :=
  "e05ea2e8b3f85e181d7f11229640920664ca833be4874e3f2934ce6092c92dbe".toList
def bobConflictTxid : Text :=
  "d0b2b94bfbd2b1be84acfbc3e908b68241b6e56606a3e56c5d1dd99dd869dc75".toList

/-- The change of the first payment. -/
def change : AddressUtxo where
  txid := aliceTxid
  vout := 1
  value := 79718
  confirmed := false

/-- A payment of 20000 sats with one input and change, as the faucet's key signs it. -/
def transactionHex (outpoint program change signature : String) : Text :=
  ("02000000000101" ++ outpoint ++ "00ffffffff02204e000000000000160014" ++ program ++ change ++
    "160014a3c6b1ee4a49d9f2af3b3802974744fba924164a02" ++ signature ++
    "2102989c0b76cb563971fdc9bef31ec06c3560f3249d6ee9e5d83c57625596e05f6f00000000").toList

def aliceProgram : String := "db3f00d429f2715383cc594258ec11d6de526697"
def bobProgram : String := "6ef743fa936d7cf29b97f2754b15b5d7fb9e941f"
def coinOutpoint : String :=
  "010101010101010101010101010101010101010101010101010101010101010100000000"
def changeOutpoint : String :=
  "1d2013a57fca734eba017317cda637c220aaefd425fa6861a3cfc6b832b1355a01000000"

structure Signed where
  inputs : List P2wpkhUtxo
  recipient : Text
  changeSat : Int
  txid : Text
  txHex : Text

/-- The payments of the coin and of its change. -/
def signed : List Signed :=
  [ { inputs := [coin.utxo], recipient := ALICE, changeSat := 79718, txid := aliceTxid
      txHex := transactionHex coinOutpoint aliceProgram "6637010000000000"
        ("47304402202de256cdbc3bbbb20a151e669612e2154dd7da61ec62d029eed85c795f10979302202c" ++
         "c6ec352cabb747cc9b83fad1b62907ee53c08b05d4c2f049aa23eafd65510401") }
  , { inputs := [change.utxo], recipient := BOB, changeSat := 59436, txid := bobTxid
      txHex := transactionHex changeOutpoint bobProgram "2ce8000000000000"
        ("48304502210083dfa54b6faed2199fe55ab73a80621fbf330f93f75d56846266432bfafc53190220" ++
         "081bba35610401417403b5ea5c5cc968cc7f1020dd29967320d3da1b7be9cbe101") }
  , { inputs := [change.utxo], recipient := ALICE, changeSat := 59436, txid := aliceAgainTxid
      txHex := transactionHex changeOutpoint aliceProgram "2ce8000000000000"
        ("483045022100d30761b97a7095a2ed4da82f01b2bd92f7a1e0f88ffa918a96dad3b71ed78ad90220" ++
         "658c86e9b94411d910706dad15fc5673cba7ca1a2306e3c48d833eef60d8544a01") }
  , { inputs := [coin.utxo], recipient := BOB, changeSat := 79577, txid := bobConflictTxid
      txHex := transactionHex coinOutpoint bobProgram "d936010000000000"
        ("483045022100c0469c1f7fad6946a6be5a0954a62f5204f2dad5851324209f219f411a4da6220220" ++
         "295f5d7f60535d885522a3c45dced46b864cb0a1bd9d3a0c7d9301c6ba92f0d501") } ]

def payer : Payer where
  outputScript recipient :=
    if recipient = ALICE then some ([0, 20] ++ [219, 63, 0, 212, 41, 242, 113, 83, 131, 204, 89, 66, 88, 236, 17, 214, 222, 82, 102, 151])
    else if recipient = BOB then some ([0, 20] ++ [110, 247, 67, 250, 147, 109, 124, 242, 155, 151, 242, 117, 75, 21, 181, 215, 251, 158, 148, 31])
    else none
  changeScript := [0, 20] ++ [163, 198, 177, 238, 74, 73, 217, 242, 175, 59, 56, 2, 151, 71, 68, 251, 169, 36, 22, 74]
  sign inputs recipient amountSat changeSat :=
    (signed.find? fun p =>
      decide (p.inputs = inputs) && decide (p.recipient = recipient) && decide (amountSat = 20000)
        && decide (p.changeSat = changeSat)).map fun p => (p.txHex, p.txid)

theorem mem_signed {inputs : List P2wpkhUtxo} {recipient txHex txid : Text} {amountSat : Nat} {changeSat : Int}
    (h : payer.sign inputs recipient amountSat changeSat = some (txHex, txid)) :
    ∃ p ∈ signed, p.inputs = inputs ∧ p.txid = txid := by
  obtain ⟨p, hp, heq⟩ := Option.map_eq_some_iff.mp h
  have hfound := List.find?_some hp
  simp only [Bool.and_eq_true, decide_eq_true_eq] at hfound
  obtain ⟨rfl, rfl⟩ := Prod.mk.inj heq
  exact ⟨p, List.mem_of_find?_eq_some hp, hfound.1.1.1, rfl⟩

theorem signs_iff {txid : Text} : payer.Signs txid ↔ txid ∈ signed.map Signed.txid := by
  constructor
  · rintro ⟨inputs, recipient, amountSat, changeSat, txHex, h⟩
    obtain ⟨p, hp, -, htxid⟩ := mem_signed h
    exact List.mem_map.mpr ⟨p, hp, htxid⟩
  · intro h
    obtain ⟨p, hp, rfl⟩ := List.mem_map.mp h
    have htable : ∀ p ∈ signed,
        (payer.sign p.inputs p.recipient 20000 p.changeSat).map Prod.snd = some p.txid := by
      decide +kernel
    obtain ⟨⟨txHex, txid⟩, hsign, htxid⟩ := Option.map_eq_some_iff.mp (htable p hp)
    exact ⟨_, _, _, _, txHex, hsign.trans (congrArg (fun x => some (txHex, x)) htxid)⟩

instance : DecidablePred payer.Signs := fun _ => decidable_of_iff _ signs_iff.symm

theorem payer_commits : payer.Commits := by
  intro inputs recipient amountSat changeSat txHex inputs' recipient' amountSat' changeSat' txHex' txid h h'
  obtain ⟨p, hp, rfl, hp'⟩ := mem_signed h
  obtain ⟨q, hq, rfl, hq'⟩ := mem_signed h'
  have htable : ∀ p ∈ signed, ∀ q ∈ signed, p.txid = q.txid →
      (p.inputs.map fun u => (u.txid, u.vout)) = q.inputs.map fun u => (u.txid, u.vout) := by
    decide +kernel
  exact htable p hp q hq (hp'.trans hq'.symm)

def deps : FaucetDeps where
  address := "tb1q50rtrmj2f8vl9tem8qpfw36ylw5jg9j20l03x8".toList
  payer := payer
  esplora := { retries := 2, fallback := true }
  settings :=
    { amountSat := 20000, dailyCap := 300, ipClaimsPerWindow := 20, ipWindowMs := 3600000
      minFeeRate := 2, maxFeeRate := 25 }

/-! ## Its users -/

def aliceLogin : Login where
  stellarAddress := "GAAAAAAAAAAAAAAAAAAAAAAAAAAAAAAAAAAAAAAAAAAAAAAAAAAAAAAL".toList
  userKey := "f1c12b6df1828eeb4cba2b7fa13a339a9df2fde557eb685f7476e185e87a6e13".toList

def bobLogin : Login where
  stellarAddress := "GAAAAAAAAAAAAAAAAAAAAAAAAAAAAAAAAAAAAAAAAAAAAAAAAAAAAAAM".toList
  userKey := "a650d9981553ffefbb9a0f3922f74bc55a1dd981bf5d841c4cb200b6f63ed60a".toList

/-- The hash of `1.1.1.1`. -/
def ipHash : Text :=
  "021711a886f4e07686f563a79293eeed26fe1fc858374e23d2f235ed23ad66cc".toList

/-- A claim up to its listing, and the listing. -/
def claims (address : Text) (login : Login) (listing : List AddressUtxo) (estimate : Rat) : List FaucetLabel :=
  [.claim address login.stellarAddress ipHash, .verified 0 (some login), .enter true, .listed (.ok listing),
    .estimated (.ok (some estimate))]

/-- The network accepts a payment, and the broadcast is answered. -/
def paid (txid : Text) : List FaucetLabel := [.accept txid, .answered (.ok txid) true]

/-- Both hosts time out. -/
def timesOut : List FaucetLabel :=
  [.answered (.error .timeout) true, .answered (.error .timeout) true]

/-- 15 June 2025, in milliseconds. -/
def openedAt : Int := 1750000000000

def opened : Faucet where
  now := openedAt
  store := []
  coins := { reserved := [], pendingChange := [] }
  balanceCache := none
  verifying := []
  queue := []
  sending := none
  statuses := []
  sent := []
  accepted := []

theorem opened_init : (faucet deps).init opened := ⟨rfl, rfl, rfl, rfl, rfl, rfl, rfl, rfl⟩

/-- Two users are paid, the second with unlisted change, while the listing lags. -/
def bothPaid : List FaucetLabel :=
  claims ALICE aliceLogin [coin] (6 / 5) ++ paid aliceTxid ++
    (claims BOB bobLogin [coin] (6 / 5) ++ paid bobTxid)

/-- Alice's payment is accepted though its broadcast times out, and she claims again. -/
def paidAgain : List FaucetLabel :=
  claims ALICE aliceLogin [coin] (6 / 5) ++ (.accept aliceTxid :: timesOut) ++
    (claims ALICE aliceLogin [change] (6 / 5) ++ paid aliceAgainTxid)

/-- The broadcast of Alice's payment times out and is accepted late; Bob's claim then finds its coin
listed, and no longer reserved. -/
def spentAgain : List FaucetLabel :=
  claims ALICE aliceLogin [coin] (6 / 5) ++ timesOut ++
    [.clock (openedAt + RESERVATION_TTL_MS - 1), .accept aliceTxid,
      .clock (openedAt + RESERVATION_TTL_MS + 1)] ++
    (claims BOB bobLogin [coin] 3 ++ paid bobConflictTxid)

end Faucet.Demo

end Writz.Relayer

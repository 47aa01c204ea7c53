import Writz.BitcoinScript.Proofs.Spend
import Writz.Relayer.Proofs.History
import Writz.Relayer.System

/-!
# A relayer of the small deployment

The deployment's events, each in a ledger of its own, served to a relayer while the chain stands still,
with their XDR.
-/

namespace Writz.Relayer

open Node

/-! ## A chain that stands still -/

section Still

variable {τ ρ : Type} {H : Lend.Host τ ρ}

def History.still (H : Lend.Host τ ρ) (w : Lend.World τ ρ) (log : List ChainEvent)
    (hw : Runs.Reachable (Lend.system .i128 H) w) (hlog : log.map ChainEvent.event = w.events)
    (hid : ∀ e ∈ log, isValidCursor e.id = true ∧ e.ledger = ledgerOfCursor e.id)
    (hsorted : log.Pairwise fun e e' => textLt e.id e'.id = true) : History H where
  chain _ := { world := w, log }
  reachable := hw
  goes_on _ := .init rfl
  log_events _ := hlog
  log_grows _ := List.prefix_rfl
  id_valid _ := hid
  id_sorted _ := hsorted

/-- All events asked for, and the cursor of the tip where it is later. -/
def stillPage (log : List ChainEvent) (tip : Text) (request : EventsRequest) : EventsPage :=
  let cursor := match request with
    | .after c => if textLt c tip then tip else c
    | .startLedger _ => tip
  { events := log.filter fun e => request.covers e && !textLt cursor e.id, cursor }

theorem stillPage_cursor {log : List ChainEvent} {tip : Text} (request : EventsRequest) {e : ChainEvent}
    (he : textLt tip e.id = false) : textLt (stillPage log tip request).cursor e.id = false := by
  unfold stillPage
  cases request with
  | after c =>
    dsimp only
    split_ifs with hc
    · exact he
    · by_contra hlt
      have htip := textLt_of_not_lt (Bool.eq_false_of_not_eq_true hc) (Bool.eq_true_of_not_eq_false hlt)
      rw [he] at htip
      cases htip
  | startLedger ledger => exact he

theorem stillPage_tip {log : List ChainEvent} {tip : Text} {request : EventsRequest}
    (htip : ∀ e ∈ log, textLt tip e.id = false) (hempty : (stillPage log tip request).events = []) :
    ∀ e ∈ log, request.covers e = false := by
  intro e he
  have hnot : ¬ (request.covers e && !textLt (stillPage log tip request).cursor e.id) = true :=
    List.filter_eq_nil_iff.mp hempty e he
  rw [stillPage_cursor request (htip e he), Bool.not_false, Bool.and_true] at hnot
  exact Bool.eq_false_of_not_eq_true hnot

theorem stillPage_advances {log : List ChainEvent} {tip c : Text} :
    textLt (stillPage log tip (.after c)).cursor c = false := by
  change textLt (if textLt c tip then tip else c) c = false
  split_ifs with hc
  · by_contra hlt
    have hself := textLt_trans hc (Bool.eq_true_of_not_eq_false hlt)
    rw [textLt_irrefl] at hself
    cases hself
  · exact textLt_irrefl c

end Still

/-! ## The deployment -/

namespace Demo

open Lend.Demo (aliceDeposit)

abbrev host : Lend.Host (Store Address Nat) (List (BytesN 32)) := Lend.Demo.host [aliceDeposit] 900000

/-- The state after some steps of the deployment. -/
def worldAfter (steps : List Lend.Demo.Step) : Lend.Demo.State :=
  ((Lend.system .i128 host).replay Lend.Demo.world steps).getD Lend.Demo.world

theorem worldAfter_reachable (steps : List Lend.Demo.Step) :
    Runs.Reachable (Lend.system .i128 host) (worldAfter steps) := by
  unfold worldAfter
  cases hr : (Lend.system .i128 host).replay Lend.Demo.world steps with
  | none => exact .init Lend.Demo.world_deployed
  | some w => exact Runs.Via.replay (.init Lend.Demo.world_deployed) hr

/-- Alice has borrowed five stroops. -/
def openLoan : List Lend.Demo.Step := Lend.Demo.repaidLoan.take 3

def START_LEDGER : Nat := 1000

/-- The id of the first event of a ledger. -/
def idOf (ledger : Nat) : Text :=
  let toid := decimal (ledger * 2 ^ 32)
  List.replicate (19 - toid.length) '0' ++ toid ++ "-0000000001".toList

/-- An event of a ledger. -/
def eventAt (ledger : Nat) (event : Lend.Event) : ChainEvent :=
  { id := idOf ledger, ledger, txHash := List.replicate 64 '0', event }

/-- Events in ledgers of their own, from a ledger on. -/
def logFrom : Nat → List Lend.Event → List ChainEvent
  | _, [] => []
  | ledger, event :: events => eventAt ledger event :: logFrom (ledger + 1) events

theorem logFrom_events (ledger : Nat) (events : List Lend.Event) :
    (logFrom ledger events).map ChainEvent.event = events := by
  induction events generalizing ledger with
  | nil => rfl
  | cons event events ih => exact congrArg (event :: ·) (ih (ledger + 1))

def logAfter (steps : List Lend.Demo.Step) : List ChainEvent :=
  logFrom START_LEDGER (worldAfter steps).events

theorem logAfter_ledger {steps : List Lend.Demo.Step} {e : ChainEvent} (he : e ∈ logAfter steps) :
    START_LEDGER ≤ e.ledger := by
  unfold logAfter at he
  generalize START_LEDGER = ledger at he ⊢
  generalize (worldAfter steps).events = events at he
  induction events generalizing ledger with
  | nil => cases he
  | cons event events ih =>
    rcases List.mem_cons.mp he with rfl | he
    · exact le_rfl
    · exact (Nat.le_succ ledger).trans (ih (ledger + 1) he)

/-- Where the archives stop, after the events of the deployment. -/
def tip : Text := idOf 1010

/-- Whether a log has valid ids, in their order, up to the tip. -/
def wellFormed (log : List ChainEvent) : Bool :=
  log.all (fun e => isValidCursor e.id && decide (e.ledger = ledgerOfCursor e.id) && !textLt tip e.id)
    && decide (log.Pairwise fun e e' => textLt e.id e'.id = true)

/-! ## XDR -/

def base64Char (n : Nat) : Char :=
  if n < 26 then Char.ofNat (65 + n)
  else if n < 52 then Char.ofNat (71 + n)
  else if n < 62 then Char.ofNat (n - 4)
  else if n = 62 then '+'
  else '/'

/-- The base64 digits of three bytes. -/
def base64Digits (a b c : UInt8) : List Char :=
  let n := a.toNat * 65536 + b.toNat * 256 + c.toNat
  [base64Char (n / 262144), base64Char (n / 4096 % 64), base64Char (n / 64 % 64), base64Char (n % 64)]

def base64 : Bytes → Text
  | [] => []
  | [a] => (base64Digits a 0 0).take 2 ++ ['=', '=']
  | [a, b] => (base64Digits a b 0).take 3 ++ ['=']
  | a :: b :: c :: bs => base64Digits a b c ++ base64 bs

/-- A number, in big-endian bytes. -/
def xdrNat (size n : Nat) : Bytes := (LittleEndian.encode size n).reverse

/-- Bytes after their length, padded to words. -/
def xdrOpaque (bs : Bytes) : Bytes :=
  xdrNat 4 bs.length ++ bs ++ List.replicate ((4 - bs.length % 4) % 4) 0

/-- The values of `SCVal` that the events have. -/
def scvU32 (n : Nat) : Bytes := xdrNat 4 3 ++ xdrNat 4 n
def scvU64 (n : Nat) : Bytes := xdrNat 4 5 ++ xdrNat 8 n
def scvI128 (x : Int) : Bytes := xdrNat 4 10 ++ xdrNat 16 (x % 2 ^ 128).toNat
def scvBytes (bs : Bytes) : Bytes := xdrNat 4 13 ++ xdrOpaque bs
def scvSymbol (s : String) : Bytes := xdrNat 4 15 ++ xdrOpaque (ascii s)
def scvMap (entries : List (String × Bytes)) : Bytes :=
  xdrNat 4 17 ++ xdrNat 4 1 ++ xdrNat 4 entries.length
    ++ entries.flatMap fun (key, value) => scvSymbol key ++ value

/-- The key in a strkey: its base32 digits, less the version byte and the checksum. -/
def strkeyPayload (strkey : Bytes) : Bytes :=
  let n := strkey.foldl (fun n b => 32 * n + if b < 65 then b.toNat - 24 else b.toNat - 65) 0
  ((xdrNat 35 n).drop 1).take 32

/-- An account's address. -/
def scvAccount (a : Address) : Bytes :=
  xdrNat 4 18 ++ xdrNat 4 0 ++ xdrNat 4 0 ++ strkeyPayload a.strkey

/-- The second topic and the value of an archived event. -/
def scvOf : Lend.Event → Bytes × Bytes
  | .deposit txid btcSatoshis timelockHeight => (scvBytes txid.1,
      scvMap [("btc_satoshis", scvU64 btcSatoshis), ("timelock_height", scvU32 timelockHeight)])
  | .borrow txid borrower usdcAmount => (scvBytes txid.1,
      scvMap [("borrower", scvAccount borrower), ("usdc_amount", scvI128 usdcAmount)])
  | .repayFull txid repayer p2wshScriptPubkey => (scvBytes txid.1,
      scvMap [("p2wsh_script_pubkey", scvBytes p2wshScriptPubkey), ("repayer", scvAccount repayer)])
  | .repay txid usdcAmount => (scvBytes txid.1, scvMap [("usdc_amount", scvI128 usdcAmount)])
  | .liquidate txid keeper bonusPaid => (scvBytes txid.1,
      scvMap [("bonus_paid", scvI128 bonusPaid), ("keeper", scvAccount keeper)])
  | .supply supplier usdcAmount scaledAmount supplyIndex totalSupplyAssets
  | .withdraw supplier usdcAmount scaledAmount supplyIndex totalSupplyAssets => (scvAccount supplier,
      scvMap [("scaled_amount", scvI128 scaledAmount), ("supply_index", scvI128 supplyIndex),
        ("total_supply_assets", scvI128 totalSupplyAssets), ("usdc_amount", scvI128 usdcAmount)])
  | .pausedSet .. | .oracleSet .. | .entryTtlSet .. => ([], [])

def encodeRawXdr (event : Lend.Event) : Text :=
  let name := xdrNat 4 15 ++ xdrOpaque (utf8 (eventName event))
  let (subject, value) := scvOf event
  fields
    [field "topic" ('[' :: Json.quote (base64 name) ++ ',' :: Json.quote (base64 subject) ++ [']']),
      textField "value" (base64 value)]

/-- The events whose XDR is decoded. -/
def listed : List Lend.Event := (worldAfter Lend.Demo.repaidLoan).events

/-- `decodeRawXdr`, of their XDR. -/
def decodeRawXdr (rawXdr : Text) : Node.Result Columns :=
  match listed.find? fun event => decide (encodeRawXdr event = rawXdr) with
  | some event =>
    okOr ((eventColumns event).map fun (subject, data) => { name := eventName event, subject, data })
      "unknown event".toList
  | none => .error "XDR Read Error".toList

/-! ## The relayer -/

def contractId : Text := addressText Lend.Demo.contract

/-- The relayer while the chain stands still. -/
def outside (steps : List Lend.Demo.Step) (h : wellFormed (logAfter steps) = true) : Outside host where
  toHistory := .still host (worldAfter steps) (logAfter steps) (worldAfter_reachable steps)
    (logFrom_events _ _)
    (fun e he => by
      have hall := List.all_eq_true.mp (Bool.and_eq_true _ _ ▸ h).1 e he
      simp only [Bool.and_eq_true, decide_eq_true_iff] at hall
      exact hall.1)
    (of_decide_eq_true (Bool.and_eq_true _ _ ▸ h).2)
  contractId := contractId
  fails _ := none
  page _ := stillPage (logAfter steps) tip
  ledgerRange _ := (START_LEDGER, 1010)
  position _ key := (worldAfter steps).positions.lookup key
  releasePsbt _ key := (worldAfter steps).releasePsbts.lookup key
  scaledSupply _ lender := Lend.supplyBalanceOf (worldAfter steps) ⟨utf8 lender⟩
  totalScaledSupply _ := (Lend.getProtocol (worldAfter steps)).totalScaledSupply
  rawTx _ _ := Hex.encode aliceDeposit.rawTx
  encodeRawXdr := encodeRawXdr
  diskFails _ := none
  now k := 1750000000000 + k
  ordered :=
    { events := fun _ _ => rfl
      later := fun _ _ _ e he hnot => absurd he hnot }
  position_eq _ _ := rfl
  releasePsbt_eq _ _ := rfl
  scaledSupply_eq _ _ := rfl
  totalScaledSupply_eq _ := rfl

theorem outside_steady {steps : List Lend.Demo.Step} (h : wellFormed (logAfter steps) = true) :
    (outside steps h).Steady where
  tip _ request hempty := by
    refine stillPage_tip (fun e he => ?_) hempty
    have hall := List.all_eq_true.mp (Bool.and_eq_true _ _ ▸ h).1 e he
    simp only [Bool.and_eq_true, Bool.not_eq_true'] at hall
    exact hall.2
  advances _ _ _ := stillPage_advances
  latest _ _ e he hnot := absurd he hnot

/-- A relayer with nothing on disk. -/
def machine : Machine where
  requests := 0
  operations := 0
  archive := { file := none, wal := none }
  releases := .empty
  cosigned := []

def networkPassphrase : Text := "Test SDF Network ; September 2015".toList

/-- The text of an archive file of some events. -/
def fileOf (events : List ChainEvent) : Text :=
  let rows := events.filterMap fun event => decodeLendEvent encodeRawXdr event contractId
  match archiveLines rows (some tip) { contractId, networkPassphrase } with
  | .ok lines => ['\n'].intercalate lines
  | .error _ => []

/-- A position of the deployment, as the relayer names it. -/
def aliceTxid : Text := Hex.encode (Lend.Demo.txidOf aliceDeposit).1

/-- A watcher with a signer that refuses. -/
def handler : HandlerDeps where
  B := ScriptVector.lib
  P := SpendVector.lib
  publicKey := Lend.Demo.protocolPubkey.1
  signInput _ := .error "AccessDeniedException".toList
  toBuffer _ := []
  p2wpkh pubkey _ :=
    if pubkey = aliceDeposit.userPubkey.1 then
      .ok (some "tb1qxwu5ku9m6s60ptgpjftxn0klx35cx26c6h3ft2".toList)
    else
      .error "Expected property pubkey".toList
  network := .testnet
  releaseFeeSat := 500

def relayerDeps : RelayerDeps where
  handler := handler
  decode := decodeRawXdr
  networkPassphrase := networkPassphrase

/-- The rebuild from a file. -/
def fromFile (file : ParsedArchive) : RebuildDeps where
  deployLedger := 0
  archive := some file.source
  dryRun := false

/-- Whether a rebuild from a file succeeds, with a report and a state that meet `p`. -/
def rebuildsTo (O : Outside host) (text : Text) (p : RebuildReport → Machine → Bool) : Bool :=
  match parseArchive relayerDeps.decode text (relayerDeps.target O) with
  | .error _ => false
  | .ok file =>
    match rebuildLendState O (fromFile file) machine with
    | (.ok report, m') => p report m'
    | (.error _, _) => false

theorem of_rebuildsTo {O : Outside host} {text : Text} {p : RebuildReport → Machine → Bool}
    (h : rebuildsTo O text p = true) : ∃ file report m',
      parseArchive relayerDeps.decode text (relayerDeps.target O) = .ok file ∧
      rebuildLendState O (fromFile file) machine = (.ok report, m') ∧ p report m' = true := by
  unfold rebuildsTo at h
  rcases hparse : parseArchive relayerDeps.decode text (relayerDeps.target O) with _ | file
  · rw [hparse] at h
    cases h
  · rw [hparse] at h
    dsimp only at h
    rcases hr : rebuildLendState O (fromFile file) machine with ⟨_ | report, m'⟩
    · rw [hr] at h
      cases h
    · rw [hr] at h
      exact ⟨file, report, m', rfl, hr, h⟩

theorem openLoan_wellFormed : wellFormed (logAfter openLoan) = true := by decide +kernel

theorem repaidLoan_wellFormed : wellFormed (logAfter Lend.Demo.repaidLoan) = true := by decide +kernel

/-- The relayer while Alice's loan is open, and after it is repaid. -/
def openOutside : Outside host := outside openLoan openLoan_wellFormed

def repaidOutside : Outside host := outside Lend.Demo.repaidLoan repaidLoan_wellFormed

theorem openOutside_steady : openOutside.Steady := outside_steady openLoan_wellFormed

theorem repaidOutside_steady : repaidOutside.Steady := outside_steady repaidLoan_wellFormed

end Demo

end Writz.Relayer

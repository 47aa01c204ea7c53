import Writz.Node.Map
import Writz.Relayer.RpcCursor

/-!
# The index of position events

`lend/deposit-reads.ts`: the events of `writz-lend` that name a position, by its txid. A walk reads pages
of events until it is at the tip; each request it awaits is a stage of it.
-/

namespace Writz.Relayer.DepositReads

open Node

/-! ## Events -/

/-- The writz-lend events that name a position, by their first topic. -/
inductive PositionEventKind where
  | deposit | borrow | repay | repayFull | liquidate
  deriving DecidableEq

/-- `POSITION_EVENT_KINDS`. -/
def PositionEventKind.ofText (s : Text) : Option PositionEventKind :=
  if s = "deposit".toList then some .deposit
  else if s = "borrow".toList then some .borrow
  else if s = "repay".toList then some .repay
  else if s = "repay_full".toList then some .repayFull
  else if s = "liquidate".toList then some .liquidate
  else none

/-- What `scValToNative` gives, as far as the code tells it apart. -/
inductive Native where
  | text (s : Text)
  | bytes (bs : Bytes)
  | other
  deriving DecidableEq

/-- The data of an event; a field is `none` where it is missing. -/
inductive EventData where
  | missing
  /-- `null`, or no object. -/
  | scalar
  | fields (borrower repayer keeper : Option Native) (usdcAmount : Option Int)
  deriving DecidableEq

/-- An event of the contract, as RPC serves it, its topics and data decoded to native values. -/
structure RpcEvent where
  /-- RPC event id; the code does not read it. -/
  id : Text
  topic : List Native
  value : EventData
  txHash : Text
  ledger : Nat
  ledgerClosedAt : Text
  deriving DecidableEq

/-- What a position event says. -/
structure DecodedPositionEvent where
  kind : PositionEventKind
  /-- Bitcoin txid, internal byte order. -/
  txid : Text
  account : Option Text
  amount : Option Text
  deriving DecidableEq

/-- Decodes a position event; `none` for any other event or shape. -/
def decodePositionEvent (event : RpcEvent) : Option DecodedPositionEvent :=
  match event.topic with
  | .text kind :: .bytes txid :: _ =>
    match PositionEventKind.ofText kind with
    | none => none
    | some kind =>
      if txid.length ≠ 32 then none
      else
        let out := { kind, txid := Hex.encode txid, account := none, amount := none }
        match event.value with
        | .missing | .scalar => some out
        | .fields borrower repayer keeper usdcAmount =>
          let account := match borrower <|> repayer <|> keeper with
            | some (.text account) => some account
            | _ => none
          some { out with account, amount := usdcAmount.map textOfBigInt }
  | _ => none

/-- One position event and the Stellar transaction that emitted it. -/
structure PositionEventRecord extends DecodedPositionEvent where
  stellarTxHash : Text
  ledger : Nat
  ledgerClosedAt : Text
  deriving DecidableEq

/-! ## The index -/

def PAGE_LIMIT : Nat := 200
/-- Pages one refresh may walk. -/
def MAX_PAGES_PER_REFRESH : Nat := 20

structure PositionEventIndexOptions where
  freshForMs : Nat
  decode : RpcEvent → Option DecodedPositionEvent

/-- What a walk awaits. -/
inductive Stage where
  /-- `getEvents` from the cursor. -/
  | events (cursor : Text)
  /-- `getHealth`, after the cursor was rejected. -/
  | rejected (cursor : Text)
  /-- `getHealth`, without a cursor. -/
  | health
  /-- `getEvents` from the oldest retained ledger. -/
  | oldest (ledger : Nat)
  deriving DecidableEq

/-- A walk, in its page number `page`. -/
structure Walk where
  page : Nat
  stage : Stage
  deriving DecidableEq

structure PositionEventIndex where
  records : JsMap Text (List PositionEventRecord)
  cursor : Option Text
  /-- `none` for `-Infinity`. -/
  refreshedAt : Option Nat
  inflight : Option Walk
  /-- The forced callers that wait for the walk in flight. -/
  waiting : Nat
  deriving DecidableEq

/-- A page of events. -/
structure EventsPage where
  events : List RpcEvent
  cursor : Text
  latestLedger : Nat

namespace PositionEventIndex

def empty : PositionEventIndex where
  records := []
  cursor := none
  refreshedAt := none
  inflight := none
  waiting := 0

variable (options : PositionEventIndexOptions) (index : PositionEventIndex)

/-- The list of a position. -/
def recordsOf (txid : Text) : List PositionEventRecord := (index.records.get txid).getD []

/-- Every indexed event of the position. -/
def history (txidInternal : Text) : List PositionEventRecord := index.recordsOf (toLowerCase txidInternal)

/-- The first request of a page. -/
def stageOf : Stage :=
  match index.cursor with
  | some cursor => .events cursor
  | none => .health

/-- `this.inflight ??= this.walk()`. -/
def launch : PositionEventIndex :=
  { index with inflight := some { page := 0, stage := index.stageOf } }

/-- Concurrent callers share one walk, and a fresh one is reused. A forced caller that finds a walk in
flight runs one more after it. -/
def refresh (force : Bool) (now : Nat) : PositionEventIndex :=
  if !force && index.refreshedAt.any (fun t => decide (now < t + options.freshForMs)) then index
  else match index.inflight with
    | some _ => if force then { index with waiting := index.waiting + 1 } else index
    | none => index.launch

/-- The walk returns; the forced callers that wait for it start one more. -/
def returned (now : Nat) : PositionEventIndex :=
  let next := { index with refreshedAt := some now, inflight := none, waiting := 0 }
  if index.waiting > 0 then next.launch else next

/-- The walk throws, for all who wait for it. -/
def thrown : PositionEventIndex := { index with inflight := none, waiting := 0 }

/-- The loop goes on to the next page, or ends. -/
def nextPage (page : Nat) (now : Nat) : PositionEventIndex :=
  if page + 1 < MAX_PAGES_PER_REFRESH then
    { index with inflight := some { page := page + 1, stage := index.stageOf } }
  else index.returned now

/-- Adds an event to the list of its position, unless the list has one of its kind and transaction. -/
def addEvent (event : RpcEvent) : PositionEventIndex :=
  match options.decode event with
  | none => index
  | some decoded =>
    let list := index.recordsOf decoded.txid
    if list.any fun e => decide (e.kind = decoded.kind) && decide (e.stellarTxHash = event.txHash) then index
    else
      let record : PositionEventRecord :=
        { decoded with
          stellarTxHash := event.txHash
          ledger := event.ledger
          ledgerClosedAt := event.ledgerClosedAt }
      { index with records := index.records.set decoded.txid (list ++ [record]) }

/-- What a page changes, before the loop goes on. -/
def addPage (res : EventsPage) : PositionEventIndex :=
  { res.events.foldl (fun index event => index.addEvent options event) index with cursor := some res.cursor }

/-- A page has come. -/
def onPage (page : Nat) (res : EventsPage) (now : Nat) : PositionEventIndex :=
  let index := index.addPage options res
  if res.events.length < PAGE_LIMIT ∧ ledgerOfCursor res.cursor ≥ res.latestLedger then index.returned now
  else index.nextPage page now

/-- The ledgers RPC retains from have come. -/
def onHealth (walk : Walk) (oldestLedger now : Nat) : PositionEventIndex :=
  match walk.stage with
  | .rejected cursor =>
    if ledgerOfCursor cursor ≥ oldestLedger then index.thrown
    else { index with cursor := none }.nextPage walk.page now
  | _ => { index with inflight := some { walk with stage := .oldest oldestLedger } }

/-- A request fails. -/
def onFailure (walk : Walk) : PositionEventIndex :=
  match walk.stage with
  | .events cursor => { index with inflight := some { walk with stage := .rejected cursor } }
  | _ => index.thrown

end PositionEventIndex

end Writz.Relayer.DepositReads

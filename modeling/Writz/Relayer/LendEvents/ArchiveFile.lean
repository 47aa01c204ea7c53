import Writz.Relayer.LendEvents.Decode

/-!
# The archive as a portable file

`lend-events/archive-file.ts`: NDJSON, a header line and then one event a line. What is read here is
untrusted.
-/

namespace Writz.Relayer

open Node

def ARCHIVE_FORMAT : Text := "writz-lend-events".toList
def ARCHIVE_VERSION : Nat := 1

structure ArchiveHeader where
  networkPassphrase : Text
  contractId : Text
  /-- Ledgers of the first and last event, null when there are none. -/
  firstLedger : Option Number
  lastLedger : Option Number
  events : Number
  /-- Where the archive stopped reading; the rebuild continues after it. -/
  cursor : Text
  deriving DecidableEq

structure ArchiveTarget where
  contractId : Text
  networkPassphrase : Text

structure ParsedArchive where
  header : ArchiveHeader
  rows : List LendEventRow

def textField (key : String) (value : Text) : Text := field key (Json.quote value)

def ledgerText (row : Option LendEventRow) : Text := (row.map fun r => decimal r.ledger).getD "null".toList

/-- The file's lines, header first, without trailing newlines. -/
def archiveLines (rows : List LendEventRow) (cursor : Option Text) (target : ArchiveTarget) :
    Node.Result (List Text) := do
  let cursor ← okOr cursor
    "the archive has not read the chain yet, there is nothing to export".toList
  let header := fields
      [textField "format" ARCHIVE_FORMAT, field "version" (decimal ARCHIVE_VERSION),
        textField "networkPassphrase" target.networkPassphrase,
        textField "contractId" target.contractId, field "firstLedger" (ledgerText rows.head?),
        field "lastLedger" (ledgerText rows.getLast?), field "events" (decimal rows.length),
        textField "cursor" cursor]
  let lines := rows.map fun r => fields
      [textField "id" r.id, field "ledger" (decimal r.ledger), textField "txHash" r.txHash,
        textField "name" r.name, textField "subject" r.subject, textField "data" r.data,
        textField "rawXdr" r.rawXdr]
  .ok (header :: lines)

/-- Why a file is rejected, with what the message shows. -/
inductive ArchiveRejected where
  /-- "the file is empty" -/
  | empty
  /-- "line n is not a JSON object" -/
  | notObject (line : Nat)
  /-- "line 1 is not a writz-lend-events v1 header" -/
  | notHeader
  /-- "line n: key is missing or not a string" -/
  | notString (line : Nat) (key : Text)
  /-- "line 1: key is not a ledger" -/
  | notLedger (key : Text)
  | otherNetwork (networkPassphrase : Text)
  | otherContract (contractId : Text)
  /-- "line 1: cursor is not an RPC events cursor" -/
  | invalidCursor
  | invalidId (line : Nat) (id : Text)
  /-- "line n: event id is out of order or repeated" -/
  | outOfOrder (line : Nat) (id : Text)
  /-- "line n: event id is past the header's cursor" -/
  | pastCursor (line : Nat) (id : Text)
  | ledgerMismatch (line : Nat) (ledger : Option Json) (id : Text)
  /-- "line n: rawXdr does not decode (reason)" -/
  | undecodable (line : Nat) (reason : Text)
  /-- "line n: the columns of event id do not match its rawXdr" -/
  | columnsMismatch (line : Nat) (id : Text)
  | countMismatch (events : Number) (rows : Nat)
  /-- "the header's first or last ledger does not match the events" -/
  | endsMismatch

/-- The columns a stored `rawXdr` decodes to. -/
structure Columns where
  name : Text
  subject : Text
  data : Text
  deriving DecidableEq

/-- `DecodeRaw`. -/
abbrev DecodeRaw := Text → Node.Result Columns

/-- The members of a JSON object. -/
abbrev Members := List (Text × Json)

def parseLine (line : Text) (n : Nat) : Except ArchiveRejected Members :=
  match Json.parse line with
  | some (.object members) => .ok members
  | _ => .error (.notObject n)

def str (o : Members) (key : String) (n : Nat) : Except ArchiveRejected Text :=
  match Json.get o key.toList with
  | some (.string v) => .ok v
  | _ => .error (.notString n key.toList)

def ledgerOrNull (o : Members) (key : String) : Except ArchiveRejected (Option Number) :=
  match Json.get o key.toList with
  | some .null => .ok none
  | some v =>
    match asNumber v with
    | some x => do
      failIf (¬ ∃ n ∈ x.toNat?, 0 < n) (.notLedger key.toList)
      .ok (some x)
    | none => .error (.notLedger key.toList)
  | none => .error (.notLedger key.toList)

def isText (v : Option Json) (s : Text) : Bool :=
  match v with
  | some (.string s') => decide (s' = s)
  | _ => false

/-- Whether a value is a number that is `n`. -/
def isNat (v : Option Json) (n : Nat) : Bool :=
  match v.bind asNumber with
  | some x => decide (x = .finite n)
  | none => false

/-- The header of the first line. -/
def parseHeader (h : Members) (expected : ArchiveTarget) : Except ArchiveRejected ArchiveHeader := do
  failIf (isText (Json.get h "format".toList) ARCHIVE_FORMAT = false
    ∨ isNat (Json.get h "version".toList) ARCHIVE_VERSION = false) .notHeader
  let networkPassphrase ← str h "networkPassphrase" 1
  let contractId ← str h "contractId" 1
  let firstLedger ← ledgerOrNull h "firstLedger"
  let lastLedger ← ledgerOrNull h "lastLedger"
  let events := ((Json.get h "events".toList).bind asNumber).getD (.finite (-1))
  let cursor ← str h "cursor" 1
  failIf (networkPassphrase ≠ expected.networkPassphrase) (.otherNetwork networkPassphrase)
  failIf (contractId ≠ expected.contractId) (.otherContract contractId)
  failIf (isValidCursor cursor = false) .invalidCursor
  .ok { networkPassphrase, contractId, firstLedger, lastLedger, events, cursor }

/-- The event of line `n`, after the event `previous`. -/
def parseRow (decode : DecodeRaw) (header : ArchiveHeader) (previous line : Text) (n : Nat) :
    Except ArchiveRejected LendEventRow := do
  let o ← parseLine line n
  let id ← str o "id" n
  failIf (isValidCursor id = false) (.invalidId n id)
  failIf (textLt previous id = false) (.outOfOrder n id)
  failIf (textLt header.cursor id = true) (.pastCursor n id)
  let ledger := ledgerOfCursor id
  failIf (isNat (Json.get o "ledger".toList) ledger = false)
    (.ledgerMismatch n (Json.get o "ledger".toList) id)
  let txHash ← str o "txHash" n
  let name ← str o "name" n
  let subject ← str o "subject" n
  let data ← str o "data" n
  let rawXdr ← str o "rawXdr" n
  let row : LendEventRow :=
    { id, contractId := header.contractId, ledger, txHash, name, subject, data, rawXdr }
  let decoded ←
    match decode row.rawXdr with
    | .ok columns => .ok columns
    | .error reason => .error (.undecodable n reason)
  failIf (decoded.name ≠ row.name ∨ decoded.subject ≠ row.subject ∨ decoded.data ≠ row.data)
    (.columnsMismatch n id)
  .ok row

/-- The events from line `n` on. -/
def parseRows (decode : DecodeRaw) (header : ArchiveHeader) :
    Text → Nat → List Text → Except ArchiveRejected (List LendEventRow)
  | _, _, [] => .ok []
  | previous, n, line :: lines => do
    let row ← parseRow decode header previous line n
    let rows ← parseRows decode header row.id (n + 1) lines
    .ok (row :: rows)

/-- `s.split("\n")`. -/
def splitLines (s : Text) : List Text := s.splitOn '\n'

def ledgerNumber (row : Option LendEventRow) : Option Number := row.map fun r => .finite r.ledger

/-- Reads a file; each `rawXdr` must decode to the columns of its row. -/
def parseArchive (decode : DecodeRaw) (text : Text) (expected : ArchiveTarget) :
    Except ArchiveRejected ParsedArchive :=
  match (splitLines text).filter fun l => trim l ≠ [] with
  | [] => .error .empty
  | first :: lines => do
    let h ← parseLine first 1
    let header ← parseHeader h expected
    let rows ← parseRows decode header [] 2 lines
    failIf (Number.finite rows.length ≠ header.events) (.countMismatch header.events rows.length)
    failIf (ledgerNumber rows.head? ≠ header.firstLedger
      ∨ ledgerNumber rows.getLast? ≠ header.lastLedger) .endsMismatch
    .ok { header, rows }

end Writz.Relayer

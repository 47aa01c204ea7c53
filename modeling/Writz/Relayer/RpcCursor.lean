import Writz.Node.Buffer
import Writz.Node.Number

/-!
# RPC events cursors

`rpc-cursor.ts`: a cursor, or an event id, is a 19-digit number, whose high 32 bits are the ledger,
and a 10-digit index.
-/

namespace Writz.Relayer

open Node

/-- `CURSOR_FORMAT`: `^\d{19}-\d{10}$`. -/
def isValidCursor (cursor : Text) : Bool :=
  decide (cursor.length = 30) && (cursor.take 19).all Char.isDigit
    && decide (cursor[19]? = some '-') && (cursor.drop 20).all Char.isDigit

/-- The ledger a valid cursor points into. -/
def ledgerOfCursor (cursor : Text) : Nat := Json.digitsValue (cursor.take 19) / 2 ^ 32

/-- The digits of a natural number. -/
def decimal (n : Nat) : Text := Nat.toDigits 10 n

/-- `n.toString()` of a `bigint`. -/
def textOfBigInt : Int → Text
  | .ofNat n => decimal n
  | .negSucc n => '-' :: decimal (n + 1)

def invalidCursor (cursor : Text) : Text :=
  "Invalid Soroban RPC events cursor: \"".toList ++ cursor ++ "\". ".toList
    ++ "Expected <19-digit TOID>-<10-digit index>, e.g. \"0019652868403363840-0000000000\". ".toList
    ++ "To build one for a ledger, use cursorForLedger(ledger) from src/rpc-cursor.ts.".toList

/-- `assertValidCursor`. -/
def assertValidCursor (cursor : Text) : Node.Result Unit :=
  failIf (isValidCursor cursor = false) (invalidCursor cursor)

end Writz.Relayer

import Writz.Node.Grouping
import Writz.Util.Regex

/-!
# USDC amounts, as the app reads and writes them

`lib/loan/model.ts`: the amounts of the borrow and repay fields. `lib/earn/amount.ts`: the amounts of the Earn
flows.
-/

namespace Writz.Frontend.UsdcAmount

open Node RegularExpression

/-- USDC has 7 decimals, so the unit is the stroop. -/
def STROOP : Int := 10000000

/-! ## Regular expressions -/

/-- `\d`. -/
def digit : RegularExpression Char := anyOf ['0', '1', '2', '3', '4', '5', '6', '7', '8', '9']

/-- `^\d*\.?\d*$`. -/
def plainNumber : RegularExpression Char := digit.star * (optional (char '.') * digit.star)

/-- `^\d{1,3}(,\d{3})+(\.\d*)?$`. -/
def groupedNumber : RegularExpression Char :=
  (digit ^ 1 + (digit ^ 2 + digit ^ 3)) * (oneOrMore (char ',' * digit ^ 3) * optional (char '.' * digit.star))

/-! ## Strings -/

/-- `v.replace(c, d)` of one-character strings: the first one. -/
def replaceFirst (c d : Char) : Text → Text
  | [] => []
  | x :: v => if x = c then d :: v else x :: replaceFirst c d v

/-- `const [whole = "", frac = ""] = v.split(".")`. -/
def splitPoint (v : Text) : Text × Text :=
  match v.splitOn '.' with
  | whole :: frac :: _ => (whole, frac)
  | [whole] => (whole, [])
  | [] => ([], [])

/-- `BigInt(s)`. -/
def toBigInt (s : Text) : Result Int :=
  okOr (bigIntOfText s) ("Cannot convert ".toList ++ s ++ " to a BigInt".toList)

/-- The stroops of a whole part and at most seven decimals. -/
def stroopsOf (whole frac : Text) : Result Int := do
  let units ← toBigInt (if whole.isEmpty then "0".toList else whole)
  let rest ← toBigInt (padEnd 7 '0' frac)
  return units * STROOP + rest

/-! ## Borrowing and repaying -/

inductive UsdcParse where
  | ok (stroops : Int)
  | error (error : String)
  deriving DecidableEq

/-- Thousands commas are left out; of other commas the first is a decimal point. -/
def readCommas (v : Text) : Text :=
  if groupedNumber.rmatch v then v.filter (· ≠ ',') else replaceFirst ',' '.' v

/-- Strict USDC parsing: no exponents, thousands commas allowed, at most 7 decimals. -/
def parseUsdcAmount (input : Text) : Result UsdcParse := do
  let v := (trim input).filter (!isTrimmed ·)
  if v.isEmpty then
    return .error "Enter an amount."
  let v := readCommas v
  if ¬ plainNumber.rmatch v ∨ v = ".".toList then
    return .error "Enter a number, like 200."
  let (whole, frac) := splitPoint v
  if frac.length > 7 then
    return .error "USDC has at most 7 decimals."
  let stroops ← stroopsOf whole frac
  if stroops ≤ 0 then
    return .error "Enter an amount above 0."
  return .ok stroops

/-- Stroops to the grouped decimal a field accepts back, e.g. "1,402.67". -/
def toFieldValue (stroops : Int) : Text :=
  let cents := stroops.tdiv (STROOP.tdiv 100)
  toLocaleString (cents.tdiv 100) ++ ".".toList ++ padStart 2 '0' (bigIntText 10 (cents.tmod 100))

/-- Every stroop, trailing zeros past the cents dropped. -/
def toExactFieldValue (stroops : Int) : Text :=
  let frac := padEnd 2 '0' ((padStart 7 '0' (bigIntText 10 (stroops.tmod STROOP))).rdropWhile (· == '0'))
  toLocaleString (stroops.tdiv STROOP) ++ ".".toList ++ frac

/-! ## Earning -/

/-- Formats stroops as a human USDC amount, trailing zeros trimmed. -/
def fmtUsdc (stroops : Int) : Text :=
  let negative := stroops < 0
  let abs := if negative then -stroops else stroops
  let whole := toLocaleString (abs.tdiv STROOP)
  let frac := (padStart 7 '0' (bigIntText 10 (abs.tmod STROOP))).rdropWhile (· == '0')
  (if negative then "-".toList else []) ++ whole ++ (if frac.isEmpty then [] else ".".toList ++ frac)

/-- Parses a user-typed USDC amount into stroops, `none` when it is not a usable positive amount. -/
def toStroops (input : Text) : Result (Option Int) := do
  let trimmed := (trim input).filter (· ≠ ',')
  if ¬ plainNumber.rmatch trimmed ∨ trimmed = [] ∨ trimmed = ".".toList then
    return none
  let (whole, frac) := splitPoint trimmed
  if frac.length > 7 then
    return none
  let stroops ← stroopsOf whole frac
  return if stroops > 0 then some stroops else none

end Writz.Frontend.UsdcAmount

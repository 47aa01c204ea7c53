import Mathlib.Data.Rat.Defs

/-!
# JSON texts

The grammar of RFC 8259 on the characters of a text. A number is kept as the decimal it is written
as; an escaped surrogate without its other half is read as the replacement character.
-/

/-- A JSON value. -/
inductive Json where
  | null
  | bool (b : Bool)
  /-- The number `mantissa * 10 ^ exponent`. -/
  | number (mantissa exponent : Int)
  | string (s : List Char)
  | array (elements : List Json)
  | object (members : List (List Char × Json))

namespace Json

/-- The value of a member; the last of that name counts. -/
def get (members : List (List Char × Json)) (name : List Char) : Option Json :=
  (members.reverse.find? fun m => m.1 == name).map Prod.snd

/-! ## Reading -/

def isSpace (c : Char) : Bool := c == ' ' || c == '\t' || c == '\n' || c == '\r'

def skipSpace (s : List Char) : List Char := s.dropWhile isSpace

/-- The text after a word it starts with. -/
def expect : List Char → List Char → Option (List Char)
  | [], s => some s
  | c :: word, c' :: s => if c = c' then expect word s else none
  | _ :: _, [] => none

def digitValue (c : Char) : Nat := c.toNat - '0'.toNat

/-- The number a run of digits spells. -/
def digitsValue (ds : List Char) : Nat := ds.foldl (fun n c => 10 * n + digitValue c) 0

/-- The digits a text starts with. -/
def takeDigits (s : List Char) : List Char × List Char := s.span Char.isDigit

/-- The digits of an integer part: no leading zero before other digits. -/
def readInt (s : List Char) : Option (List Char × List Char) :=
  match takeDigits s with
  | ([], _) => none
  | ('0' :: _ :: _, _) => none
  | (ds, s) => some (ds, s)

/-- The digits of a fraction, if there is one. -/
def readFraction : List Char → Option (List Char × List Char)
  | '.' :: s =>
    match takeDigits s with
    | ([], _) => none
    | (ds, s) => some (ds, s)
  | s => some ([], s)

def isExponentSign (c : Char) : Bool := c == 'e' || c == 'E'

/-- An exponent, zero if there is none. -/
def readExponent : List Char → Option (Int × List Char)
  | c :: s =>
    if isExponentSign c then
      let (sign, s) : Int × List Char :=
        match s with
        | '-' :: s => (-1, s)
        | '+' :: s => (1, s)
        | s => (1, s)
      match takeDigits s with
      | ([], _) => none
      | (ds, s) => some (sign * digitsValue ds, s)
    else
      some (0, c :: s)
  | [] => some (0, [])

def readNumber (s : List Char) : Option (Json × List Char) := do
  let (sign, s) : Int × List Char :=
    match s with
    | '-' :: s => (-1, s)
    | s => (1, s)
  let (whole, s) ← readInt s
  let (fraction, s) ← readFraction s
  let (exponent, s) ← readExponent s
  some (.number (sign * digitsValue (whole ++ fraction)) (exponent - fraction.length), s)

def hexValue (c : Char) : Option Nat := "0123456789abcdef".toList.idxOf? c.toLower

/-- The code unit of four hex digits. -/
def readHex4 : List Char → Option (Nat × List Char)
  | a :: b :: c :: d :: s => do
    let a ← hexValue a
    let b ← hexValue b
    let c ← hexValue c
    let d ← hexValue d
    some (4096 * a + 256 * b + 16 * c + d, s)
  | _ => none

/-- The character of a code unit, `high` being a surrogate that waits for its other half. -/
def unitChar (n : Nat) : Char :=
  if 0xd800 ≤ n ∧ n < 0xe000 then '\uFFFD' else Char.ofNat n

/-- The character of an escaped code unit, together with the low surrogate after a high one. -/
def readUnicode (s : List Char) : Option (Char × List Char) := do
  let (high, s) ← readHex4 s
  if 0xd800 ≤ high ∧ high < 0xdc00 then
    match expect ['\\', 'u'] s with
    | none => some ('\uFFFD', s)
    | some s' => do
      let (low, s'') ← readHex4 s'
      if 0xdc00 ≤ low ∧ low < 0xe000 then
        some (Char.ofNat (0x10000 + 0x400 * (high - 0xd800) + (low - 0xdc00)), s'')
      else
        some ('\uFFFD', s)
  else
    some (unitChar high, s)

/-- The character after a backslash. -/
def readEscape : List Char → Option (Char × List Char)
  | '"' :: s => some ('"', s)
  | '\\' :: s => some ('\\', s)
  | '/' :: s => some ('/', s)
  | 'b' :: s => some ('\x08', s)
  | 'f' :: s => some ('\x0c', s)
  | 'n' :: s => some ('\n', s)
  | 'r' :: s => some ('\r', s)
  | 't' :: s => some ('\t', s)
  | 'u' :: s => readUnicode s
  | _ => none

/-- The characters up to the closing quote. -/
def readChars : Nat → List Char → Option (List Char × List Char)
  | 0, _ => none
  | _ + 1, [] => none
  | fuel + 1, c :: s =>
    if c = '"' then
      some ([], s)
    else if c = '\\' then do
      let (c, s) ← readEscape s
      let (cs, s) ← readChars fuel s
      some (c :: cs, s)
    else if c.toNat < 0x20 then
      none
    else do
      let (cs, s) ← readChars fuel s
      some (c :: cs, s)

def readString : List Char → Option (List Char × List Char)
  | '"' :: s => readChars (s.length + 1) s
  | _ => none

mutual

/-- A value at the start of a text, and the text after it. The fuel bounds the nesting and the
number of elements. -/
def readValue : Nat → List Char → Option (Json × List Char)
  | 0, _ => none
  | fuel + 1, s =>
    match s with
    | 'n' :: _ => (expect "null".toList s).map fun s => (.null, s)
    | 't' :: _ => (expect "true".toList s).map fun s => (.bool true, s)
    | 'f' :: _ => (expect "false".toList s).map fun s => (.bool false, s)
    | '"' :: _ => (readString s).map fun r => (.string r.1, r.2)
    | '[' :: s =>
      match skipSpace s with
      | ']' :: s => some (.array [], s)
      | s => (readElements fuel s).map fun r => (.array r.1, r.2)
    | '{' :: s =>
      match skipSpace s with
      | '}' :: s => some (.object [], s)
      | s => (readMembers fuel s).map fun r => (.object r.1, r.2)
    | s => readNumber s

/-- The elements of an array up to its closing bracket. -/
def readElements : Nat → List Char → Option (List Json × List Char)
  | 0, _ => none
  | fuel + 1, s =>
    match readValue fuel s with
    | none => none
    | some (v, s) =>
      match skipSpace s with
      | ']' :: s => some ([v], s)
      | ',' :: s => (readElements fuel (skipSpace s)).map fun r => (v :: r.1, r.2)
      | _ => none

/-- The members of an object up to its closing brace. -/
def readMembers : Nat → List Char → Option (List (List Char × Json) × List Char)
  | 0, _ => none
  | fuel + 1, s =>
    match readString s with
    | none => none
    | some (name, s) =>
      match skipSpace s with
      | ':' :: s =>
        match readValue fuel (skipSpace s) with
        | none => none
        | some (v, s) =>
          match skipSpace s with
          | '}' :: s => some ([(name, v)], s)
          | ',' :: s => (readMembers fuel (skipSpace s)).map fun r => ((name, v) :: r.1, r.2)
          | _ => none
      | _ => none

end

/-- The value a text spells, with nothing but white space around it. -/
def parse (s : List Char) : Option Json :=
  match readValue (s.length + 1) (skipSpace s) with
  | some (v, s) => if skipSpace s = [] then some v else none
  | none => none

/-! ## Writing -/

def hexDigit (n : Nat) : Char := "0123456789abcdef".toList.getD n '0'

/-- A character as it stands in a string. -/
def escape (c : Char) : List Char :=
  if c = '"' then ['\\', '"']
  else if c = '\\' then ['\\', '\\']
  else if c = '\x08' then ['\\', 'b']
  else if c = '\x0c' then ['\\', 'f']
  else if c = '\n' then ['\\', 'n']
  else if c = '\r' then ['\\', 'r']
  else if c = '\t' then ['\\', 't']
  else if c.toNat < 0x20 then ['\\', 'u', '0', '0', hexDigit (c.toNat / 16), hexDigit (c.toNat % 16)]
  else [c]

def quote (s : List Char) : List Char := '"' :: s.flatMap escape ++ ['"']

end Json

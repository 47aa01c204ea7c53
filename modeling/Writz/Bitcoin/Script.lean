import Writz.Bitcoin.Transaction

/-!
# Bitcoin scripts

Scripts as byte strings and as lists of elements: `parse` reads the elements, `compile` writes them
with minimal pushes.
-/

namespace Bitcoin

def OP_IF : UInt8 := 0x63
def OP_NOTIF : UInt8 := 0x64
def OP_ELSE : UInt8 := 0x67
def OP_ENDIF : UInt8 := 0x68
def OP_DROP : UInt8 := 0x75
def OP_CHECKSIG : UInt8 := 0xac
def OP_CHECKSIGVERIFY : UInt8 := 0xad
def OP_CHECKLOCKTIMEVERIFY : UInt8 := 0xb1

/-- An element of a script. -/
inductive Element where
  /-- An opcode that is not a push of data. -/
  | op (code : UInt8)
  /-- A push of data. -/
  | push (data : List UInt8)
  deriving DecidableEq

/-- The first bytes of a byte string, and the rest. -/
def readBytes (k : Nat) (bs : List UInt8) : Option (List UInt8 × List UInt8) :=
  if bs.length < k then none else some (bs.take k, bs.drop k)

/-- The data behind a length of `k` bytes. -/
def readPushdata (k : Nat) (bs : List UInt8) : Option (Element × List UInt8) := do
  let (len, bs) ← readLE k bs
  let (data, bs) ← readBytes len bs
  some (.push data, bs)

/-- The first element of a script, and the rest. -/
def readElement : List UInt8 → Option (Element × List UInt8)
  | [] => none
  | code :: bs =>
    if code.toNat ≤ 75 then
      (readBytes code.toNat bs).map fun (data, bs) => (.push data, bs)
    else if code = 0x4c then readPushdata 1 bs
    else if code = 0x4d then readPushdata 2 bs
    else if code = 0x4e then readPushdata 4 bs
    else some (.op code, bs)

/-- The elements of a script, at most `fuel` of them. -/
def parseUpTo : Nat → List UInt8 → Option (List Element)
  | _, [] => some []
  | 0, _ :: _ => none
  | fuel + 1, code :: bs => do
    let (e, rest) ← readElement (code :: bs)
    let es ← parseUpTo fuel rest
    some (e :: es)

/-- The elements of a script. -/
def parse (script : List UInt8) : Option (List Element) := parseUpTo script.length script

/-- The minimal push of a byte string. -/
def minimalPush (data : List UInt8) : List UInt8 :=
  match data with
  | [] => [0x00]
  | [b] =>
    if 1 ≤ b.toNat ∧ b.toNat ≤ 16 then [UInt8.ofNat (0x50 + b.toNat)]
    else if b = 0x81 then [0x4f]
    else [0x01, b]
  | _ =>
    if data.length ≤ 75 then UInt8.ofNat data.length :: data
    else if data.length ≤ 0xff then 0x4c :: (LittleEndian.encode 1 data.length ++ data)
    else if data.length ≤ 0xffff then 0x4d :: (LittleEndian.encode 2 data.length ++ data)
    else 0x4e :: (LittleEndian.encode 4 data.length ++ data)

/-- The bytes of an element. -/
def Element.bytes : Element → List UInt8
  | .op code => [code]
  | .push data => minimalPush data

/-- The script of a list of elements. -/
def compile (es : List Element) : List UInt8 := es.flatMap Element.bytes

theorem minimalPush_direct {data : List UInt8} (h2 : 2 ≤ data.length) (h75 : data.length ≤ 75) :
    minimalPush data = UInt8.ofNat data.length :: data := by
  match data, h2 with
  | a :: b :: bs, _ =>
    rw [minimalPush]
    · exact if_pos h75
    · simp
    · simp

/-! ## Reading what was written -/

theorem readBytes_append {k : Nat} {as : List UInt8} (h : as.length = k) (bs : List UInt8) :
    readBytes k (as ++ bs) = some (as, bs) := by
  rw [readBytes, if_neg (by rw [List.length_append]; omega), List.take_left' h, List.drop_left' h]

theorem readPushdata_append {k : Nat} {data : List UInt8} (h : data.length < 256 ^ k)
    (rest : List UInt8) :
    readPushdata k (LittleEndian.encode k data.length ++ (data ++ rest))
      = some (.push data, rest) := by
  rw [readPushdata, readLE_append h]
  simp only [Option.bind_eq_bind, Option.bind_some]
  rw [readBytes_append rfl]
  rfl

theorem readElement_op {code : UInt8} (h : 0x4e < code.toNat) (rest : List UInt8) :
    readElement (code :: rest) = some (.op code, rest) := by
  have hne : ∀ c : UInt8, c.toNat ≤ 0x4e → code ≠ c := by
    rintro c hc rfl
    omega
  rw [readElement, if_neg (by omega), if_neg (hne _ (by decide)), if_neg (hne _ (by decide)),
    if_neg (hne _ (by decide))]

/-- A push of up to 75 bytes by its length. -/
theorem readElement_direct {data : List UInt8} (h : data.length ≤ 75) (rest : List UInt8) :
    readElement (UInt8.ofNat data.length :: (data ++ rest)) = some (.push data, rest) := by
  have hlen : (UInt8.ofNat data.length).toNat = data.length := by
    rw [UInt8.toNat_ofNat']
    omega
  rw [readElement, hlen, if_pos h, readBytes_append rfl]
  rfl

/-- An element that is read as it is written: small numbers are opcodes of their own. -/
def Element.Canonical : Element → Prop
  | .op code => 0x4e < code.toNat
  | .push data => data = [] ∨ (2 ≤ data.length ∧ data.length < 2 ^ 32)

theorem readElement_bytes {e : Element} (h : e.Canonical) (rest : List UInt8) :
    readElement (e.bytes ++ rest) = some (e, rest) := by
  cases e with
  | op code => exact readElement_op h rest
  | push data =>
    rcases h with rfl | ⟨hlen, hlt⟩
    · exact readElement_direct (show ([] : List UInt8).length ≤ 75 by decide) rest
    · match data, hlen with
      | a :: b :: bs, _ =>
        rw [Element.bytes, minimalPush]
        split_ifs with h1 h2 h3
        · exact readElement_direct h1 rest
        · rw [List.cons_append, readElement, if_neg (by decide), if_pos rfl, List.append_assoc]
          exact readPushdata_append (by omega) rest
        · rw [List.cons_append, readElement, if_neg (by decide), if_neg (by decide), if_pos rfl,
            List.append_assoc]
          exact readPushdata_append (by omega) rest
        · rw [List.cons_append, readElement, if_neg (by decide), if_neg (by decide),
            if_neg (by decide), if_pos rfl, List.append_assoc]
          exact readPushdata_append (by omega) rest
        · simp
        · simp

/-! ## Scripts -/

theorem readBytes_length {k : Nat} {bs data rest : List UInt8}
    (h : readBytes k bs = some (data, rest)) : rest.length ≤ bs.length := by
  unfold readBytes at h
  split_ifs at h
  cases h
  simp

theorem readPushdata_length {k : Nat} {bs rest : List UInt8} {e : Element}
    (h : readPushdata k bs = some (e, rest)) : rest.length ≤ bs.length := by
  simp only [readPushdata, readLE, Option.bind_eq_bind, Option.bind_eq_some_iff] at h
  obtain ⟨⟨len, bs'⟩, hlen, ⟨data, rest'⟩, hdata, h⟩ := h
  split_ifs at hlen
  cases hlen
  cases h
  have hle := readBytes_length hdata
  rw [List.length_drop] at hle
  exact hle.trans (Nat.sub_le _ _)

/-- Reading an element takes at least a byte. -/
theorem readElement_length {bs rest : List UInt8} {e : Element}
    (h : readElement bs = some (e, rest)) : rest.length < bs.length := by
  cases bs with
  | nil => cases h
  | cons code bs =>
    rw [List.length_cons, Nat.lt_succ_iff]
    rw [readElement] at h
    split_ifs at h
    · obtain ⟨⟨data, rest'⟩, hdata, h⟩ := Option.map_eq_some_iff.mp h
      cases h
      exact readBytes_length hdata
    · exact readPushdata_length h
    · exact readPushdata_length h
    · exact readPushdata_length h
    · cases h
      exact le_rfl

/-- More fuel than bytes changes nothing. -/
theorem parseUpTo_eq {fuel fuel' : Nat} : ∀ {bs : List UInt8}, bs.length ≤ fuel →
    bs.length ≤ fuel' → parseUpTo fuel bs = parseUpTo fuel' bs := by
  induction fuel generalizing fuel' with
  | zero =>
    intro bs h _
    rw [List.eq_nil_of_length_eq_zero (Nat.le_zero.mp h)]
    cases fuel' <;> rfl
  | succ fuel ih =>
    intro bs h h'
    cases bs with
    | nil => cases fuel' <;> rfl
    | cons code bs =>
      cases fuel' with
      | zero => exact absurd h' (by simp)
      | succ fuel' =>
        rw [parseUpTo, parseUpTo]
        cases hread : readElement (code :: bs) with
        | none => rfl
        | some r =>
          obtain ⟨e, rest⟩ := r
          have hlen := readElement_length hread
          simp only [Option.bind_eq_bind, Option.bind_some]
          rw [@ih fuel' rest (by omega) (by omega)]

@[simp] theorem parse_nil : parse [] = some [] := rfl

/-- Parsing an element at a time. -/
theorem parse_of_read {bs rest : List UInt8} {e : Element}
    (h : readElement bs = some (e, rest)) : parse bs = (parse rest).map (e :: ·) := by
  have hlen := readElement_length h
  cases bs with
  | nil => cases h
  | cons code bs =>
    rw [List.length_cons] at hlen
    rw [parse, List.length_cons, parseUpTo, h]
    simp only [Option.bind_eq_bind, Option.bind_some]
    rw [parseUpTo_eq (show rest.length ≤ bs.length by omega) le_rfl, ← parse]
    cases parse rest <;> rfl

theorem parse_op {code : UInt8} (h : 0x4e < code.toNat) (rest : List UInt8) :
    parse (code :: rest) = (parse rest).map (.op code :: ·) := parse_of_read (readElement_op h rest)

theorem parse_direct {data : List UInt8} (h : data.length ≤ 75) (rest : List UInt8) :
    parse (UInt8.ofNat data.length :: (data ++ rest)) = (parse rest).map (.push data :: ·) :=
  parse_of_read (readElement_direct h rest)

/-- A compiled script is parsed into its elements. -/
theorem parse_compile {es : List Element} (h : ∀ e ∈ es, e.Canonical) :
    parse (compile es) = some es := by
  induction es with
  | nil => rfl
  | cons e es ih =>
    rw [compile, List.flatMap_cons, parse_of_read (readElement_bytes (h e List.mem_cons_self) _)]
    change (parse (compile es)).map _ = _
    rw [ih fun e' he' => h e' (List.mem_cons_of_mem _ he')]
    rfl

end Bitcoin

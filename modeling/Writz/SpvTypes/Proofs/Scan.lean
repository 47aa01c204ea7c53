import Mathlib.Tactic.SplitIfs
import Writz.SpvTypes.BtcParser
import Writz.Bitcoin.Script

/-!
# Proofs: the scan without positions

The output scan over the bytes that are still to be read, without positions and without arithmetic
that can overflow. The scanner over positions follows it: it stops early only on strings that no
transaction of the claimed sizes has.
-/

namespace Writz.BtcParser

open Bitcoin (readBytes readLE)

/-! ## The scan over the rest -/

namespace Rest

def skip (n : Nat) (bs : Bytes) : Option Bytes := if bs.length < n then none else some (bs.drop n)

/-- A count of one or three bytes. -/
def readCount : Bytes → Option (Nat × Bytes)
  | [] => none
  | b :: bs =>
    if b.toNat ≤ 0xfc then some (b.toNat, bs)
    else if b.toNat = 0xfd then readLE 2 bs
    else none

def skipMarker : Bytes → Option Bytes
  | [] => none
  | [b] => if b.toNat = 0x00 then none else some [b]
  | b :: b' :: bs => if b.toNat = 0x00 ∧ b'.toNat = 0x01 then some bs else some (b :: b' :: bs)

def skipInput (bs : Bytes) : Option Bytes := do
  let bs ← skip 36 bs
  let (scriptLen, bs) ← readCount bs
  skip (scriptLen + 4) bs

def skipInputs : Nat → Bytes → Option Bytes
  | 0, bs => some bs
  | inputCount + 1, bs => do
    let bs ← skipInput bs
    skipInputs inputCount bs

/-- The value and the script of an output. -/
def readOutput (bs : Bytes) : Option ((Nat × Bytes) × Bytes) := do
  let (value, bs) ← readLE 8 bs
  let (spkLen, bs) ← readCount bs
  let (spk, bs) ← readBytes spkLen bs
  some ((value, spk), bs)

def scanOutputs (expectedSpk : Bytes) : Nat → Bytes → Option Nat
  | 0, _ => none
  | outputCount + 1, bs => do
    let ((value, spk), bs) ← readOutput bs
    if spk = expectedSpk then some value else scanOutputs expectedSpk outputCount bs

/-- What is behind the version, and behind a marker and flag. -/
def skipVersion (bs : Bytes) : Option Bytes := do
  let bs ← skip 4 bs
  skipMarker bs

/-- The number of outputs, behind the inputs. -/
def skipToOutputs (bs : Bytes) : Option (Nat × Bytes) := do
  let (inputCount, bs) ← readCount bs
  let bs ← skipInputs inputCount bs
  readCount bs

def findP2wshOutput (rawTx expectedSpk : Bytes) : Option Nat := do
  let bs ← skipVersion rawTx
  let (outputCount, bs) ← skipToOutputs bs
  scanOutputs expectedSpk outputCount bs

end Rest

/-! ## Following -/

/-- A read at positions follows a read of the rest: it has the same result, but traps near the end of
strings of over `2 ^ 31` bytes, and may stop early in strings that are too long to exist. -/
def Follows (raw : Bytes) {α β : Type} (R : α → β → Prop) : Read α → Option β → Prop
  | .ok x, some y => R x y
  | .ok _, none => False
  | .error .none, none => True
  | .error .trap, none => 2 ^ 31 < raw.length
  | .error _, some _ => U32_MAX < raw.length

section

variable {raw : Bytes} {α β α' β' : Type} {R : α → β → Prop} {S : α' → β' → Prop}

theorem Follows.bind {c : Read α} {a : Option β} {f : α → Read α'} {g : β → Option β'}
    (h : Follows raw R c a) (hf : ∀ x y, R x y → Follows raw S (f x) (g y)) :
    Follows raw S (c >>= f) (a >>= g) := by
  have hmax : U32_MAX < raw.length → 2 ^ 31 < raw.length := fun h => by unfold U32_MAX at h; omega
  match c, a, h with
  | .ok x, some y, h => exact hf x y h
  | .error .none, none, _ => trivial
  | .error .trap, none, h => exact h
  | .error .none, some y, h =>
    change Follows raw S (.error .none) (g y)
    cases g y with
    | none => trivial
    | some z => exact h
  | .error .trap, some y, h =>
    change Follows raw S (.error .trap) (g y)
    cases g y with
    | none => exact hmax h
    | some z => exact h

theorem Follows.bind_some {c : Read α} {y : β} {f : α → Read α'} {o : Option β'}
    (h : Follows raw R c (some y)) (hf : ∀ x, R x y → Follows raw S (f x) o) :
    Follows raw S (c >>= f) o := by
  have hbind : Follows raw (fun x z => R x z ∧ z = y) c (some y) := by
    match c, h with
    | .ok x, h => exact ⟨h, rfl⟩
    | .error .none, h => exact h
    | .error .trap, h => exact h
  exact hbind.bind (g := fun _ => o) fun x z hx => hf x (hx.2 ▸ hx.1)

/-- What follows on strings of up to `2 ^ 31` bytes. -/
theorem Follows.eq {c : Read α} {a : Option α} (h : Follows raw Eq c a) (hlen : raw.length ≤ 2 ^ 31) :
    c = okOr a .none := by
  match c, a, h with
  | .ok x, some y, h => exact congrArg Except.ok h
  | .error .none, none, _ => rfl
  | .error .trap, none, h => exact absurd h (not_lt.mpr hlen)
  | .error .none, some y, h | .error .trap, some y, h =>
    have hlong : U32_MAX < raw.length := h
    unfold U32_MAX at hlong
    omega

/-- What the scan of the rest reads is read from every string that can exist. -/
theorem Follows.ok_of_some {c : Read α} {y : β} (h : Follows raw R c (some y))
    (hlen : raw.length ≤ U32_MAX) : ∃ x, c = .ok x ∧ R x y := by
  match c, h with
  | .ok x, h => exact ⟨x, rfl, h⟩
  | .error .none, h | .error .trap, h =>
    have hlong : U32_MAX < raw.length := h
    omega

theorem Follows.eq_some {x : α} {a : Option α} (h : Follows raw Eq (.ok x) a) : a = some x := by
  match a, h with
  | some y, h => exact congrArg some h.symm

/-- A sum within the string. -/
theorem Follows.add {a b : Nat} {f : Nat → Read α} {o : Option β} (hle : a + b ≤ raw.length)
    (h : Follows raw R (f (a + b)) o) : Follows raw R (add a b >>= f) o := by
  unfold BtcParser.add addU32
  by_cases hfit : a + b ≤ U32_MAX
  · rw [if_pos hfit]
    exact h
  · rw [if_neg hfit]
    cases o with
    | none =>
      change 2 ^ 31 < raw.length
      unfold U32_MAX at hfit
      omega
    | some y =>
      change U32_MAX < raw.length
      omega

/-- A sum that is within the string where the scan of the rest goes on. -/
theorem Follows.checkedAdd {a b : Nat} {f : Nat → Read α} {o : Option β}
    (hle : o ≠ none → a + b ≤ raw.length) (h : Follows raw R (f (a + b)) o) :
    Follows raw R (BtcParser.checkedAdd a b >>= f) o := by
  unfold BtcParser.checkedAdd addU32
  by_cases hfit : a + b ≤ U32_MAX
  · rw [if_pos hfit]
    exact h
  · rw [if_neg hfit]
    cases o with
    | none => trivial
    | some y =>
      have hsum := hle (Option.some_ne_none y)
      change U32_MAX < raw.length
      omega

/-- A check that `n` bytes are left, a little past the end at most. -/
theorem Follows.need {pos n : Nat} {k : Read α} {o : Option β}
    (hfar : pos + n ≤ raw.length + 2 ^ 30) (h : pos + n ≤ raw.length → Follows raw R k o) :
    Follows raw R (BtcParser.add pos n >>= fun e => failIf (raw.length < e) .none >>= fun _ => k)
      (if raw.length < pos + n then none else o) := by
  split_ifs with hshort
  · unfold BtcParser.add addU32
    by_cases hfit : pos + n ≤ U32_MAX
    · rw [if_pos hfit]
      change Follows raw R (failIf (raw.length < pos + n) Stop.none >>= fun _ => k) none
      rw [failIf, if_pos hshort]
      trivial
    · rw [if_neg hfit]
      change 2 ^ 31 < raw.length
      unfold U32_MAX at hfit
      omega
  · have hle := not_lt.mp hshort
    refine Follows.add hle ?_
    change Follows raw R (failIf (raw.length < pos + n) Stop.none >>= fun _ => k) _
    rw [failIf, if_neg hshort]
    exact h hle

/-! ## The readers -/

theorem getByte_of_drop {pos : Nat} {b : UInt8} {bs : Bytes} (h : raw.drop pos = b :: bs) :
    getByte raw pos = .ok b.toNat ∧ raw.drop (pos + 1) = bs ∧ pos < raw.length := by
  have hget : raw[pos]? = some b := by
    have := congrArg (·[0]?) h
    simpa using this
  refine ⟨by rw [getByte, hget], ?_, (List.getElem?_eq_some_iff.mp hget).1⟩
  rw [← List.drop_drop, h]
  rfl

theorem getByte_of_nil {pos : Nat} (h : raw.drop pos = []) : getByte raw pos = .error .none := by
  have hlen : raw.length ≤ pos := List.drop_eq_nil_iff.mp h
  rw [getByte, List.getElem?_eq_none hlen]

/-- Reading a count. -/
theorem readVarint_follows {pos : Nat} :
    Follows raw (fun c r => c.1 = r.1 ∧ r.1 ≤ 0xffff ∧ 1 ≤ c.2 ∧ pos + c.2 ≤ raw.length ∧
        r.2 = raw.drop (pos + c.2))
      (readVarint raw pos) (Rest.readCount (raw.drop pos)) := by
  cases hbs : raw.drop pos with
  | nil =>
    rw [readVarint, getByte_of_nil hbs]
    trivial
  | cons b bs =>
    obtain ⟨hget, hdrop, hlt⟩ := getByte_of_drop hbs
    rw [readVarint, hget, Rest.readCount]
    change Follows raw _ (if b.toNat ≤ 0xfc then _ else _) _
    split_ifs with h1 hfd
    · exact ⟨rfl, by omega, le_rfl, hlt, hdrop.symm⟩
    · -- two bytes more
      refine Follows.add hlt ?_
      cases hlo : raw.drop (pos + 1) with
      | nil =>
        rw [getByte_of_nil hlo, ← hdrop, hlo]
        trivial
      | cons lo bs' =>
        obtain ⟨hget', hdrop', hlt'⟩ := getByte_of_drop hlo
        rw [hget']
        refine Follows.add hlt' ?_
        cases hhi : raw.drop (pos + 2) with
        | nil =>
          rw [getByte_of_nil hhi, ← hdrop, hlo, ← hdrop', hhi]
          trivial
        | cons hi bs'' =>
          obtain ⟨hget'', hdrop'', hlt''⟩ := getByte_of_drop hhi
          rw [hget'', ← hdrop, hlo, ← hdrop', hhi]
          have hlo256 := lo.toNat_lt
          have hhi256 := hi.toNat_lt
          have hvalue : (hi.toNat <<< 8) ||| lo.toNat = LittleEndian.decode [lo, hi] := by
            rw [← Nat.shiftLeft_add_eq_or_of_lt hlo256, Nat.shiftLeft_eq]
            simp [LittleEndian.decode]
            omega
          refine ⟨hvalue, ?_, by omega, hlt'', hdrop''.symm⟩
          simp [LittleEndian.decode]
          omega
    · trivial

/-- Reading the bytes of a little-endian number one by one. -/
theorem readU64LeLoop_follows (offset left : Nat) : ∀ i val, offset + i + left ≤ raw.length →
    Follows raw (fun v y => v = y) (readU64LeLoop raw offset left i val)
      (some (val ||| LittleEndian.orShift i ((raw.drop (offset + i)).take left))) := by
  induction left with
  | zero =>
    intro i val _
    simp [readU64LeLoop, LittleEndian.orShift, Follows]
  | succ left ih =>
    intro i val hle
    rw [readU64LeLoop]
    refine Follows.add (by omega) ?_
    cases hbs : raw.drop (offset + i) with
    | nil =>
      have := List.drop_eq_nil_iff.mp hbs
      omega
    | cons b bs =>
      obtain ⟨hget, hdrop, -⟩ := getByte_of_drop hbs
      rw [hget, List.take_succ_cons, LittleEndian.orShift, ← hdrop, Nat.mul_comm 8, ← Nat.or_assoc]
      exact ih (i + 1) _ (by omega)

theorem readU64Le_follows {pos : Nat} (h : pos + 8 ≤ raw.length) :
    Follows raw (fun v y => v = y) (readU64Le raw pos)
      (some (LittleEndian.decode ((raw.drop pos).take 8))) := by
  have hloop := @readU64LeLoop_follows raw pos 8 0 0 h
  rwa [Nat.zero_or, LittleEndian.orShift_eq, Nat.mul_zero, pow_zero, mul_one, Nat.add_zero] at hloop

/-! ## The loops -/

/-- A position in the string, and the bytes from it on. -/
def At (raw : Bytes) (pos : Nat) (bs : Bytes) : Prop := pos ≤ raw.length ∧ bs = raw.drop pos

theorem skip_bind {n pos : Nat} (g : Bytes → Option β) (hpos : pos ≤ raw.length) :
    Rest.skip n (raw.drop pos) >>= g
      = if raw.length < pos + n then none else g (raw.drop (pos + n)) := by
  rw [Rest.skip, List.length_drop, List.drop_drop]
  split_ifs <;> first | rfl | omega

/-- One turn of the input loop. -/
def inputTurn (rawTx : Bytes) (pos : Nat) : Read Nat := do
  failIf (rawTx.length < (← add pos 36)) .none
  let pos := pos + 36
  let (scriptLen, sz) ← readVarint rawTx pos
  let pos ← add pos sz
  let pos ← checkedAdd pos scriptLen
  failIf (rawTx.length < (← add pos 4)) .none
  .ok (pos + 4)

theorem skipInputs_succ (inputCount pos : Nat) :
    skipInputs raw (inputCount + 1) pos = inputTurn raw pos >>= skipInputs raw inputCount := by
  unfold inputTurn
  simp only [skipInputs, bind_assoc]
  rfl

theorem inputTurn_follows {pos : Nat} (hpos : pos ≤ raw.length) :
    Follows raw (fun p bs => pos + 41 ≤ p ∧ At raw p bs) (inputTurn raw pos)
      (Rest.skipInput (raw.drop pos)) := by
  unfold inputTurn Rest.skipInput
  rw [skip_bind _ hpos]
  refine Follows.need (by omega) fun h36 => ?_
  refine Follows.bind readVarint_follows ?_
  rintro ⟨scriptLen, sz⟩ ⟨n, bs⟩ ⟨hn, hmax, hsz, hle, hbs⟩
  dsimp only at hn hmax hsz hle hbs ⊢
  subst hn hbs
  refine Follows.add hle ?_
  have hskip := skip_bind (n := scriptLen + 4) some hle
  rw [Option.bind_eq_bind, Option.bind_fun_some, ← Nat.add_assoc] at hskip
  rw [hskip]
  refine Follows.checkedAdd ?_ ?_
  · intro hsome
    split_ifs at hsome
    · exact absurd rfl hsome
    · omega
  · refine Follows.need (by omega) fun h4 => ?_
    exact ⟨by omega, h4, rfl⟩

/-- One turn of the output loop: the value of an output that matches, or the next position. -/
def outputTurn (rawTx expectedSpk : Bytes) (pos : Nat) : Read (Nat ⊕ Nat) := do
  failIf (rawTx.length < (← add pos 8)) .none
  let value ← readU64Le rawTx pos
  let pos := pos + 8
  let (spkLen, sz) ← readVarint rawTx pos
  let pos ← add pos sz
  let spkEnd ← checkedAdd pos spkLen
  failIf (rawTx.length < spkEnd) .none
  let spkSlice := (rawTx.drop pos).take spkLen
  if spkSlice = expectedSpk then .ok (.inl value) else .ok (.inr spkEnd)

theorem scanOutputs_succ (expectedSpk : Bytes) (outputCount pos : Nat) :
    scanOutputs raw expectedSpk (outputCount + 1) pos
      = outputTurn raw expectedSpk pos >>= fun
        | .inl value => .ok value
        | .inr next => scanOutputs raw expectedSpk outputCount next := by
  unfold outputTurn
  simp only [scanOutputs, bind_assoc]
  congr 1; funext _
  congr 1; funext _
  congr 1; funext value
  congr 1; funext count
  congr 1; funext start
  congr 1; funext spkEnd
  congr 1; funext _
  split_ifs <;> rfl

theorem outputTurn_follows (expectedSpk : Bytes) {pos : Nat} (hpos : pos ≤ raw.length) :
    Follows raw
      (fun x y => (y.1.2 = expectedSpk → x = .inl y.1.1) ∧
        (y.1.2 ≠ expectedSpk → ∃ p, x = .inr p ∧ pos + 9 ≤ p ∧ At raw p y.2))
      (outputTurn raw expectedSpk pos) (Rest.readOutput (raw.drop pos)) := by
  have hvalue : ∀ g : Nat × Bytes → Option ((Nat × Bytes) × Bytes),
      (readLE 8 (raw.drop pos) >>= g) = if raw.length < pos + 8 then none
        else g (LittleEndian.decode ((raw.drop pos).take 8), raw.drop (pos + 8)) := by
    intro g
    rw [readLE, List.length_drop, List.drop_drop]
    split_ifs <;> first | rfl | omega
  unfold outputTurn Rest.readOutput
  rw [hvalue]
  refine Follows.need (by omega) fun h8 => ?_
  refine (readU64Le_follows h8).bind_some ?_
  rintro value rfl
  refine Follows.bind readVarint_follows ?_
  rintro ⟨spkLen, sz⟩ ⟨n, bs⟩ ⟨hn, hmax, hsz, hle, hbs⟩
  dsimp only at hn hmax hsz hle hbs ⊢
  subst hn hbs
  refine Follows.add hle ?_
  have hscript : ∀ g : Bytes × Bytes → Option ((Nat × Bytes) × Bytes),
      (readBytes spkLen (raw.drop (pos + 8 + sz)) >>= g)
        = if raw.length < pos + 8 + sz + spkLen then none
          else g ((raw.drop (pos + 8 + sz)).take spkLen, raw.drop (pos + 8 + sz + spkLen)) := by
    intro g
    rw [readBytes, List.length_drop, List.drop_drop]
    split_ifs <;> first | rfl | omega
  rw [hscript]
  refine Follows.checkedAdd ?_ ?_
  · intro hsome
    split_ifs at hsome
    · exact absurd rfl hsome
    · omega
  · by_cases hshort : raw.length < pos + 8 + sz + spkLen
    · rw [failIf, if_pos hshort, if_pos hshort]
      trivial
    · rw [failIf, if_neg hshort, if_neg hshort]
      change Follows raw _ (if _ then _ else _) _
      split_ifs with hspk
      · exact ⟨fun _ => rfl, fun hne => absurd hspk hne⟩
      · exact ⟨fun heq => absurd heq hspk, fun _ => ⟨_, rfl, by omega, not_lt.mp hshort, rfl⟩⟩

/-! ## The scan -/

theorem skipInputs_follows (inputCount : Nat) : ∀ {pos : Nat}, pos ≤ raw.length →
    Follows raw (At raw) (skipInputs raw inputCount pos)
      (Rest.skipInputs inputCount (raw.drop pos)) := by
  induction inputCount with
  | zero =>
    intro pos hpos
    exact ⟨hpos, rfl⟩
  | succ inputCount ih =>
    intro pos hpos
    rw [skipInputs_succ, Rest.skipInputs]
    refine Follows.bind (inputTurn_follows hpos) ?_
    rintro p _ ⟨-, hp, rfl⟩
    exact ih hp

theorem scanOutputs_follows (expectedSpk : Bytes) (outputCount : Nat) : ∀ {pos : Nat},
    pos ≤ raw.length →
      Follows raw Eq (scanOutputs raw expectedSpk outputCount pos)
        (Rest.scanOutputs expectedSpk outputCount (raw.drop pos)) := by
  induction outputCount with
  | zero =>
    intro pos _
    trivial
  | succ outputCount ih =>
    intro pos hpos
    rw [scanOutputs_succ, Rest.scanOutputs]
    refine Follows.bind (outputTurn_follows expectedSpk hpos) ?_
    rintro x ⟨⟨value, spk⟩, bs⟩ ⟨hfound, hnext⟩
    dsimp only at hfound hnext ⊢
    split_ifs with hspk
    · rw [hfound hspk]
      exact rfl
    · obtain ⟨p, rfl, -, hp, rfl⟩ := hnext hspk
      exact ih hp

theorem skipSegwitMarker_follows {pos : Nat} (hpos : pos ≤ raw.length) :
    Follows raw (At raw) (skipSegwitMarker raw pos) (Rest.skipMarker (raw.drop pos)) := by
  cases hbs : raw.drop pos with
  | nil =>
    rw [skipSegwitMarker, getByte_of_nil hbs]
    trivial
  | cons b bs =>
    obtain ⟨hget, hdrop, hlt⟩ := getByte_of_drop hbs
    rw [skipSegwitMarker, hget]
    change Follows raw _ (if b.toNat = 0x00 then _ else _) _
    cases hbs' : bs with
    | nil =>
      rw [Rest.skipMarker]
      split_ifs with h0
      · rw [getByte_of_nil (hdrop.trans hbs')]
        trivial
      · exact ⟨hpos, by rw [hbs, hbs']⟩
    | cons b' bs' =>
      obtain ⟨hget', hdrop', hlt'⟩ := getByte_of_drop (hdrop.trans hbs')
      rw [Rest.skipMarker, hget']
      change Follows raw _ (if _ then (if b'.toNat = 0x01 then _ else _) else _) _
      by_cases h0 : b.toNat = 0x00
      · by_cases h1 : b'.toNat = 0x01
        · rw [if_pos h0, if_pos h1, if_pos ⟨h0, h1⟩]
          exact ⟨hlt', hdrop'.symm⟩
        · rw [if_pos h0, if_neg h1, if_neg fun h => h1 h.2]
          exact ⟨hpos, by rw [hbs, hbs']⟩
      · rw [if_neg h0, if_neg fun h => h0 h.1]
        exact ⟨hpos, by rw [hbs, hbs']⟩

theorem skipVersion_eq (h : 5 ≤ raw.length) : Rest.skipVersion raw = Rest.skipMarker (raw.drop 4) := by
  rw [Rest.skipVersion, Rest.skip, if_neg (by omega)]
  rfl

theorem skipVersion_short (h : raw.length < 5) : Rest.skipVersion raw = none := by
  rw [Rest.skipVersion, Rest.skip]
  split_ifs with h4
  · rfl
  · rw [List.drop_eq_nil_of_le (i := 4) (by omega)]
    rfl

/-- The scanner up to the outputs: their number, and the position of the first. -/
def outputsAt (rawTx : Bytes) : Read (Nat × Nat) := do
  failIf (rawTx.length < 5) .none
  let pos ← skipSegwitMarker rawTx 4
  let (inputCount, sz) ← readVarint rawTx pos
  let pos ← add pos sz
  let pos ← skipInputs rawTx inputCount pos
  let (outputCount, sz) ← readVarint rawTx pos
  let pos ← add pos sz
  .ok (outputCount, pos)

theorem findP2wshOutput_eq_bind (expectedSpk : Bytes) :
    findP2wshOutput raw expectedSpk
      = outputsAt raw >>= fun outputs => scanOutputs raw expectedSpk outputs.1 outputs.2 := by
  unfold outputsAt
  simp only [findP2wshOutput, bind_assoc]
  rfl

theorem outputsAt_follows (raw : Bytes) :
    Follows raw (fun x y => x.1 = y.1 ∧ At raw x.2 y.2) (outputsAt raw)
      (Rest.skipVersion raw >>= Rest.skipToOutputs) := by
  unfold outputsAt
  by_cases h5 : raw.length < 5
  · rw [failIf, if_pos h5, skipVersion_short h5]
    trivial
  · have h4 : 4 ≤ raw.length := by omega
    rw [failIf, if_neg h5, skipVersion_eq (by omega)]
    change Follows raw _ (skipSegwitMarker raw 4 >>= _) _
    refine Follows.bind (skipSegwitMarker_follows h4) ?_
    rintro pos _ ⟨hpos, rfl⟩
    refine Follows.bind readVarint_follows ?_
    rintro ⟨inputCount, sz⟩ ⟨n, bs⟩ ⟨hn, -, -, hle, hbs⟩
    dsimp only at hn hle hbs ⊢
    subst hn hbs
    refine Follows.add hle ?_
    refine Follows.bind (skipInputs_follows inputCount hle) ?_
    rintro pos' _ ⟨hpos', rfl⟩
    have hcount := @readVarint_follows raw pos'
    rw [← Option.bind_fun_some (Rest.readCount (raw.drop pos')), ← Option.bind_eq_bind]
    refine hcount.bind ?_
    rintro ⟨outputCount, sz'⟩ ⟨n', bs'⟩ ⟨hn', -, -, hle', hbs'⟩
    dsimp only at hn' hle' hbs' ⊢
    subst hn' hbs'
    refine Follows.add hle' ?_
    exact ⟨rfl, hle', rfl⟩

/-- The scanner over positions is the scan of the rest. -/
theorem findP2wshOutput_follows (raw expectedSpk : Bytes) :
    Follows raw Eq (findP2wshOutput raw expectedSpk) (Rest.findP2wshOutput raw expectedSpk) := by
  have hfind : Rest.findP2wshOutput raw expectedSpk
      = (Rest.skipVersion raw >>= Rest.skipToOutputs) >>= fun outputs =>
        Rest.scanOutputs expectedSpk outputs.1 outputs.2 := by
    rw [bind_assoc]
    rfl
  rw [findP2wshOutput_eq_bind, hfind]
  refine Follows.bind (outputsAt_follows raw) ?_
  rintro ⟨outputCount, pos⟩ ⟨n, bs⟩ ⟨hn, hpos, hbs⟩
  dsimp only at hn hpos hbs ⊢
  subst hn hbs
  exact scanOutputs_follows expectedSpk outputCount hpos

/-! ## Turns -/

/-- The turns that the input loop makes of the `inputCount` claimed. -/
def inputTurns (rawTx : Bytes) : Nat → Nat → Nat
  | 0, _ => 0
  | inputCount + 1, pos =>
    match inputTurn rawTx pos with
    | .ok next => inputTurns rawTx inputCount next + 1
    | .error _ => 1

/-- The turns that the output loop makes of the `outputCount` claimed. -/
def outputTurns (rawTx expectedSpk : Bytes) : Nat → Nat → Nat
  | 0, _ => 0
  | outputCount + 1, pos =>
    match outputTurn rawTx expectedSpk pos with
    | .ok (.inr next) => outputTurns rawTx expectedSpk outputCount next + 1
    | _ => 1

/-- What a successful read follows. -/
theorem Follows.of_ok {x : α} {a : Option β} (h : Follows raw R (.ok x) a) : ∃ y, R x y := by
  match a, h with
  | some y, h => exact ⟨y, h⟩

/-- Whatever count is claimed, the input loop ends with the string. -/
theorem inputTurns_le (inputCount : Nat) : ∀ {pos : Nat}, pos ≤ raw.length →
    41 * inputTurns raw inputCount pos ≤ raw.length - pos + 41 := by
  induction inputCount with
  | zero => intro pos _; rw [inputTurns]; omega
  | succ inputCount ih =>
    intro pos hpos
    have hturn := @inputTurn_follows raw pos hpos
    rw [inputTurns]
    cases hnext : inputTurn raw pos with
    | error e => dsimp only; omega
    | ok next =>
      rw [hnext] at hturn
      obtain ⟨bs, hfar, hle, -⟩ := hturn.of_ok
      have := ih hle
      dsimp only
      omega

/-- And so does the output loop. -/
theorem outputTurns_le (expectedSpk : Bytes) (outputCount : Nat) : ∀ {pos : Nat},
    pos ≤ raw.length → 9 * outputTurns raw expectedSpk outputCount pos ≤ raw.length - pos + 9 := by
  induction outputCount with
  | zero => intro pos _; rw [outputTurns]; omega
  | succ outputCount ih =>
    intro pos hpos
    have hturn := @outputTurn_follows raw expectedSpk pos hpos
    rw [outputTurns]
    cases hnext : outputTurn raw expectedSpk pos with
    | error e => dsimp only; omega
    | ok x =>
      rw [hnext] at hturn
      obtain ⟨⟨⟨value, spk⟩, bs⟩, hfound, hgoes⟩ := hturn.of_ok
      cases x with
      | inl v => dsimp only; omega
      | inr next =>
        have hne : spk ≠ expectedSpk := fun heq => by cases hfound heq
        obtain ⟨p, hp, hfar, hle, -⟩ := hgoes hne
        cases hp
        have := ih hle
        dsimp only
        omega

end

end Writz.BtcParser

import Writz.Soroban.Host
import Writz.Util.Hex

/-!
# Strings and buffers, as the TypeScript code uses them

A string is the list of its characters, a `Buffer` is a byte string.
-/

namespace Writz.Node

/-- A string. -/
abbrev Text := List Char

instance : LawfulBEq Text := inferInstance

/-- `Buffer.from(s, 'utf8')`. -/
def utf8 (s : Text) : Bytes := s.flatMap String.utf8EncodeChar

/-- `Buffer.from(hex, 'hex')`: the bytes up to the first pair that is not two digits. -/
def fromHex : Text → Bytes
  | a :: b :: rest =>
    match Hex.value a, Hex.value b with
    | some x, some y => UInt8.ofNat (16 * x + y) :: fromHex rest
    | _, _ => []
  | _ => []

/-- The result of a function that may throw an `Error` with a message. -/
abbrev Result (α : Type) := Except Text α

/-- `if (c) throw new Error(message)`. -/
def throwIf (c : Prop) [Decidable c] (message : String) : Result Unit :=
  failIf c message.toList

/-- `s.toLowerCase()`, on ASCII text. -/
def toLowerCase (s : Text) : Text := s.map Char.toLower

/-- `s < t`, on text without surrogate pairs. -/
def textLt : Text → Text → Bool
  | [], [] => false
  | [], _ :: _ => true
  | _ :: _, [] => false
  | a :: s, b :: t => if a = b then textLt s t else decide (a.toNat < b.toNat)

/-- The bytes `writeUInt16LE` and `writeUInt32LE` write for `k` of 2 and 4; `none` where they throw
a `RangeError`. -/
def writeUIntLE (k n : Nat) : Option Bytes :=
  if n < 256 ^ k then some (LittleEndian.encode k n) else none

theorem textLt_irrefl (s : Text) : textLt s s = false := by
  induction s with
  | nil => rfl
  | cons a s ih =>
    rw [textLt, if_pos rfl]
    exact ih

theorem textLt_trans {s t u : Text} (hst : textLt s t = true) (htu : textLt t u = true) :
    textLt s u = true := by
  induction s generalizing t u with
  | nil =>
    cases t with
    | nil => exact htu
    | cons b t =>
      cases u with
      | nil => cases htu
      | cons c u => rfl
  | cons a s ih =>
    cases t with
    | nil => cases hst
    | cons b t =>
      cases u with
      | nil => cases htu
      | cons c u =>
        rw [textLt] at hst htu ⊢
        by_cases hab : a = b
        · subst hab
          rw [if_pos rfl] at hst
          by_cases hac : a = c
          · rw [if_pos hac] at htu ⊢
            exact ih hst htu
          · rw [if_neg hac] at htu ⊢
            exact htu
        · rw [if_neg hab] at hst
          have hlt := of_decide_eq_true hst
          by_cases hbc : b = c
          · subst hbc
            rw [if_neg hab]
            exact hst
          · rw [if_neg hbc] at htu
            have hlt' := of_decide_eq_true htu
            have hac : a ≠ c := by
              rintro rfl
              omega
            rw [if_neg hac]
            exact decide_eq_true (hlt.trans hlt')

theorem textLt_total {s t : Text} (hst : textLt s t = false) (hts : textLt t s = false) : s = t := by
  induction s generalizing t with
  | nil =>
    cases t with
    | nil => rfl
    | cons b t => cases hst
  | cons a s ih =>
    cases t with
    | nil => cases hts
    | cons b t =>
      rw [textLt] at hst hts
      by_cases hab : a = b
      · subst hab
        rw [if_pos rfl] at hst hts
        rw [ih hst hts]
      · rw [if_neg hab] at hst
        rw [if_neg (Ne.symm hab)] at hts
        have hle := of_decide_eq_false hst
        have hge := of_decide_eq_false hts
        exact absurd (Char.toNat_inj.mp (by omega)) hab

/-- A text that is not after `s` comes before what comes after `s`. -/
theorem textLt_of_not_lt {r s t : Text} (hsr : textLt s r = false) (hst : textLt s t = true) :
    textLt r t = true := by
  by_cases hrs : textLt r s = true
  · exact textLt_trans hrs hst
  · rw [textLt_total (Bool.eq_false_of_not_eq_true hrs) hsr]
    exact hst

@[simp] theorem utf8_nil : utf8 [] = [] := rfl

theorem utf8_append (s t : Text) : utf8 (s ++ t) = utf8 s ++ utf8 t := List.flatMap_append

/-- Hex text is read whole. -/
theorem fromHex_of_decode : ∀ {hex : Text} {bs : Bytes}, Hex.decode hex = some bs → fromHex hex = bs
  | [], bs, h => by
    cases h
    rfl
  | [_], bs, h => by cases h
  | a :: b :: rest, bs, h => by
    rw [Hex.decode] at h
    split at h
    · next x y bs' hx hy hrest =>
      cases h
      simp only [fromHex, hx, hy, fromHex_of_decode hrest]
    · cases h

theorem writeUIntLE_of_lt {k n : Nat} (h : n < 256 ^ k) :
    writeUIntLE k n = some (LittleEndian.encode k n) := if_pos h

/-- An ASCII text has one byte a character. -/
theorem utf8_of_ascii {s : Text} (h : ∀ c ∈ s, c.toNat < 0x80) :
    utf8 s = s.map fun c => UInt8.ofNat c.toNat := by
  induction s with
  | nil => rfl
  | cons c s ih =>
    have hc : String.utf8EncodeChar c = [UInt8.ofNat c.toNat] :=
      String.utf8EncodeChar_eq_singleton (Char.utf8Size_eq_one_iff.mpr
        (UInt32.le_iff_toNat_le.mpr (Nat.lt_succ_iff.mp (h c List.mem_cons_self))))
    rw [utf8, List.flatMap_cons, hc, List.map_cons]
    exact congrArg _ (ih fun c' hc' => h c' (List.mem_cons_of_mem _ hc'))

end Writz.Node

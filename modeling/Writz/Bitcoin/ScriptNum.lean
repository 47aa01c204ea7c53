import Writz.Util.LittleEndian
import Mathlib.Tactic.Linarith

/-!
# Script numbers

The signed, little-endian numbers of Bitcoin Script: the top bit of the last byte is the sign. A
number has many spellings and one minimal spelling.
-/

namespace Bitcoin

/-- The number a stack element stands for, as `CScriptNum::set_vch` reads it. -/
def scriptNum (b : List UInt8) : Int :=
  match b.reverse with
  | [] => 0
  | top :: _ =>
    if top.toNat < 128 then LittleEndian.decode b
    else -((LittleEndian.decode b - 128 * 256 ^ (b.length - 1) : Nat) : Int)

/-- Whether the last byte is needed: it holds more than a sign, or keeps the top bit of the byte
before from being read as one. -/
def minimalNum (b : List UInt8) : Bool :=
  match b.reverse with
  | [] => true
  | [top] => top.toNat % 128 != 0
  | top :: next :: _ => top.toNat % 128 != 0 || decide (128 ≤ next.toNat)

theorem eq_append_of_reverse {b rest : List UInt8} {top : UInt8} (h : b.reverse = top :: rest) :
    b = rest.reverse ++ [top] := by
  rw [← List.reverse_reverse b, h, List.reverse_cons]

theorem decode_snoc (init : List UInt8) (top : UInt8) :
    LittleEndian.decode (init ++ [top])
      = LittleEndian.decode init + 256 ^ init.length * top.toNat := by
  rw [LittleEndian.decode_append]
  simp [LittleEndian.decode]

/-- A positive number has no sign bit. -/
theorem scriptNum_pos {b : List UInt8} (h : 0 < scriptNum b) :
    ∃ init top, b = init ++ [top] ∧ top.toNat < 128 ∧ scriptNum b = LittleEndian.decode b := by
  unfold scriptNum at h ⊢
  split at h
  · omega
  · next top rest hb =>
    split_ifs at h with htop
    · exact ⟨rest.reverse, top, eq_append_of_reverse hb, htop, if_pos htop⟩
    · omega

/-- A spelling without a sign bit. -/
theorem scriptNum_snoc (init : List UInt8) {top : UInt8} (h : top.toNat < 128) :
    scriptNum (init ++ [top]) = LittleEndian.decode (init ++ [top]) := by
  have hrev : (init ++ [top]).reverse = top :: init.reverse := by simp
  unfold scriptNum
  rw [hrev]
  exact if_pos h

theorem scriptNum_lt {b : List UInt8} (h : 0 < scriptNum b) :
    LittleEndian.decode b < 128 * 256 ^ (b.length - 1) := by
  obtain ⟨init, top, rfl, htop, -⟩ := scriptNum_pos h
  have hinit := LittleEndian.decode_lt init
  rw [decode_snoc, List.length_append, List.length_singleton, Nat.add_sub_cancel]
  calc LittleEndian.decode init + 256 ^ init.length * top.toNat
      < 256 ^ init.length + 256 ^ init.length * top.toNat := Nat.add_lt_add_right hinit _
    _ = 256 ^ init.length * (top.toNat + 1) := by ring
    _ ≤ 256 ^ init.length * 128 := Nat.mul_le_mul_left _ htop
    _ = 128 * 256 ^ init.length := Nat.mul_comm _ _

theorem le_scriptNum {b : List UInt8} (hmin : minimalNum b = true) (hlen : 2 ≤ b.length) :
    128 * 256 ^ (b.length - 2) ≤ LittleEndian.decode b := by
  unfold minimalNum at hmin
  split at hmin
  · next hb =>
    rw [List.reverse_eq_nil_iff] at hb
    rw [hb] at hlen
    simp at hlen
  · next top hb =>
    rw [eq_append_of_reverse hb] at hlen
    simp at hlen
  · next top next rest hb =>
    have hb' := eq_append_of_reverse hb
    have hlen' : b.length = rest.length + 2 := by rw [hb']; simp
    rw [hlen', Nat.add_sub_cancel, hb', decode_snoc, List.reverse_cons, decode_snoc]
    simp only [List.length_append, List.length_reverse, List.length_singleton, pow_succ]
    rw [Bool.or_eq_true, bne_iff_ne, decide_eq_true_iff] at hmin
    have hpos : 0 < 256 ^ rest.length := by positivity
    rcases hmin with htop | hnext
    · have htop1 : 1 ≤ top.toNat := by omega
      nlinarith
    · nlinarith

/-- A positive number has one minimal spelling. -/
theorem minimalNum_unique {b b' : List UInt8} (hb : minimalNum b = true)
    (hb' : minimalNum b' = true) (hpos : 0 < scriptNum b) (h : scriptNum b = scriptNum b') :
    b = b' := by
  have hpos' : 0 < scriptNum b' := h ▸ hpos
  obtain ⟨init, top, hinit, -, hn⟩ := scriptNum_pos hpos
  obtain ⟨init', top', hinit', -, hn'⟩ := scriptNum_pos hpos'
  have heq : LittleEndian.decode b = LittleEndian.decode b' := by omega
  have hlt := scriptNum_lt hpos
  have hlt' := scriptNum_lt hpos'
  have hb1 : 1 ≤ b.length := by rw [hinit]; simp
  have hb1' : 1 ≤ b'.length := by rw [hinit']; simp
  -- a longer minimal spelling is of a larger number
  have hle : ∀ {c d : List UInt8}, minimalNum d = true → 1 ≤ c.length →
      LittleEndian.decode c = LittleEndian.decode d →
      LittleEndian.decode c < 128 * 256 ^ (c.length - 1) → d.length ≤ c.length := by
    intro c d hd hc hcd hlt
    by_contra hlong
    have hge := le_scriptNum hd (by omega)
    have hpow : 256 ^ (c.length - 1) ≤ 256 ^ (d.length - 2) :=
      Nat.pow_le_pow_right (by norm_num) (by omega)
    omega
  have hlen : b.length = b'.length :=
    le_antisymm (hle hb hb1' heq.symm hlt') (hle hb' hb1 heq hlt)
  exact LittleEndian.decode_injective hlen heq

end Bitcoin

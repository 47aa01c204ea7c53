import Mathlib.Data.Nat.Bitwise
import Mathlib.Tactic.NormNum
import Mathlib.Tactic.Positivity
import Writz.Bitcoin.Compact
import Writz.BitcoinSpv.Difficulty

/-!
# Proofs: compact targets

What compact bits decode to, what the encoding of a target keeps, and how far the decoder is Bitcoin
Core's.
-/

namespace Writz.Spv

/-! ## Fields -/

/-- The mantissa of compact bits. -/
def mantissaOf (bits : Nat) : Nat := bits % 2 ^ 23

/-- The exponent of compact bits. -/
def exponentOf (bits : Nat) : Nat := bits / 2 ^ 24 % 2 ^ 8

/-- The number that a mantissa and a base-256 exponent stand for. -/
def compactValue (mantissa exponent : Nat) : Nat :=
  if exponent ≤ 3 then mantissa / 256 ^ (3 - exponent) else mantissa * 256 ^ (exponent - 3)

/-- The number leaves 256 bits. -/
def Overflows (mantissa exponent : Nat) : Prop :=
  exponent > 34 ∨ (mantissa > 0xff ∧ exponent > 33) ∨ (mantissa > 0xffff ∧ exponent > 32)

theorem mantissaOf_lt (bits : Nat) : mantissaOf bits < 2 ^ 23 := Nat.mod_lt _ (by norm_num)

theorem and_mantissaMask (bits : Nat) : bits &&& 0x007fffff = mantissaOf bits :=
  Nat.and_two_pow_sub_one_eq_mod bits 23

theorem compactValue_zero (exponent : Nat) : compactValue 0 exponent = 0 := by
  unfold compactValue
  split_ifs <;> simp

theorem two_pow_eight_mul (n : Nat) : 2 ^ (8 * n) = 256 ^ n := by
  rw [pow_mul, show (2 : Nat) ^ 8 = 256 by norm_num]

theorem and_signBit_ne_zero (x : Nat) : x &&& 0x00800000 ≠ 0 ↔ x / 2 ^ 23 % 2 = 1 := by
  have hbit : x &&& 2 ^ 23 = (x.testBit 23).toNat * 2 ^ 23 := Nat.and_two_pow x 23
  have htest : x.testBit 23 = decide (x / 2 ^ 23 % 2 = 1) := Nat.testBit_eq_decide_div_mod_eq
  rw [show (0x00800000 : Nat) = 2 ^ 23 by norm_num, hbit, htest]
  by_cases hone : x / 2 ^ 23 % 2 = 1
  · rw [decide_eq_true hone]
    exact iff_of_true (by norm_num) hone
  · rw [decide_eq_false hone]
    exact iff_of_false (by norm_num) hone

/-! ## Decoding -/

/-- Which bits are accepted, and what they stand for. -/
theorem bitsToTarget_eq_ok_iff {bits target : Nat} :
    bitsToTarget bits = .ok target ↔
      (mantissaOf bits ≠ 0 → bits &&& 0x00800000 = 0 ∧ ¬Overflows (mantissaOf bits) (exponentOf bits)) ∧
        target = compactValue (mantissaOf bits) (exponentOf bits) := by
  have he : (bits >>> 24) &&& 0xff = exponentOf bits := by
    rw [exponentOf, ← Nat.shiftRight_eq_div_pow]
    exact Nat.and_two_pow_sub_one_eq_mod _ 8
  simp only [bitsToTarget, and_mantissaMask, he]
  generalize hsign : bits &&& 0x00800000 = sign
  generalize mantissaOf bits = m
  generalize exponentOf bits = e
  unfold Overflows
  split_ifs with hneg hover hzero hexp
  · refine iff_of_false (by rintro ⟨⟩) ?_
    rintro ⟨h, -⟩
    exact hneg.2 (h hneg.1).1
  · refine iff_of_false (by rintro ⟨⟩) ?_
    rintro ⟨h, -⟩
    exact (h hover.1).2 hover.2
  · rw [hzero, compactValue_zero, Except.ok.injEq]
    exact ⟨fun h => ⟨fun hne => absurd rfl hne, h.symm⟩, fun h => h.2.symm⟩
  all_goals
    have hok : m ≠ 0 → sign = 0 ∧ ¬(e > 34 ∨ (m > 0xff ∧ e > 33) ∨ (m > 0xffff ∧ e > 32)) :=
      fun hne => ⟨not_not.mp fun h => hneg ⟨hne, h⟩, fun h => hover ⟨hne, h⟩⟩
    rw [Except.ok.injEq, and_iff_right hok, compactValue, eq_comm]
  · rw [if_pos hexp, Nat.shiftRight_eq_div_pow, two_pow_eight_mul]
  · rw [if_neg hexp, Nat.shiftLeft_eq, two_pow_eight_mul]

/-- What does not overflow has at most 256 bits. -/
theorem mul_pow_lt {m e : Nat} (hm : m < 2 ^ 23) (h : m ≠ 0 → ¬Overflows m e) :
    m * 256 ^ (e - 3) < 2 ^ 256 := by
  rcases Nat.eq_zero_or_pos m with rfl | hpos
  · rw [zero_mul]
    norm_num
  · have hbound := h hpos.ne'
    unfold Overflows at hbound
    -- one byte of the mantissa less allows one step of the exponent more
    have key : ∀ k n, m < 256 ^ k → e - 3 ≤ n → k + n = 32 → m * 256 ^ (e - 3) < 2 ^ 256 := by
      intro k n hk hn hkn
      calc m * 256 ^ (e - 3) < 256 ^ k * 256 ^ (e - 3) :=
            Nat.mul_lt_mul_of_pos_right hk (by positivity)
        _ ≤ 256 ^ k * 256 ^ n := Nat.mul_le_mul_left _ (Nat.pow_le_pow_right (by norm_num) hn)
        _ = 2 ^ 256 := by rw [← pow_add, hkn]; norm_num
    rcases Nat.lt_or_ge 0xffff m with h2 | h2
    · exact key 3 29 (by omega) (by omega) rfl
    · rcases Nat.lt_or_ge 0xff m with h1 | h1
      · exact key 2 30 (by omega) (by omega) rfl
      · exact key 1 31 (by omega) (by omega) rfl

theorem bitsToTarget_lt {bits target : Nat} (h : bitsToTarget bits = .ok target) :
    target < 2 ^ 256 := by
  obtain ⟨hok, rfl⟩ := bitsToTarget_eq_ok_iff.mp h
  have hm := mantissaOf_lt bits
  unfold compactValue
  split_ifs with he
  · calc mantissaOf bits / 256 ^ (3 - exponentOf bits) ≤ mantissaOf bits := Nat.div_le_self _ _
      _ < 2 ^ 256 := hm.trans (by norm_num)
  · exact mul_pow_lt hm fun hne => (hok hne).2

/-! ## Encoding -/

/-- The bytes a target takes. -/
def byteSize (target : Nat) : Nat := (target.log2 + 1 + 7) / 8

/-- The bytes a target takes, with the leading bit clear. -/
def signedSize (target : Nat) : Nat := (target.log2 + 1) / 8 + 1

/-- The three leading bytes of a number of `size` bytes. -/
def leadingBytes (target size : Nat) : Nat := target * 256 ^ (3 - size) / 256 ^ (size - 3)

/-- What the encoding of a target keeps. -/
def roundDown (target : Nat) : Nat :=
  target / 256 ^ (signedSize target - 3) * 256 ^ (signedSize target - 3)

theorem leadingBytes_eq_shift (x size : Nat) :
    (if size ≤ 3 then x <<< (8 * (3 - size)) else x >>> (8 * (size - 3))) = leadingBytes x size := by
  unfold leadingBytes
  split_ifs with h
  · have hcut : size - 3 = 0 := Nat.sub_eq_zero_of_le h
    rw [Nat.shiftLeft_eq, two_pow_eight_mul, hcut, pow_zero, Nat.div_one]
  · have hfill : 3 - size = 0 := by omega
    rw [Nat.shiftRight_eq_div_pow, two_pow_eight_mul, hfill, pow_zero, mul_one]

/-- A byte less. -/
theorem leadingBytes_succ (x size : Nat) : leadingBytes x (size + 1) = leadingBytes x size / 256 := by
  unfold leadingBytes
  rcases Nat.lt_or_ge size 3 with h | h
  · have hfill : 3 - size = 3 - (size + 1) + 1 := by omega
    have hcut : size - 3 = 0 ∧ size + 1 - 3 = 0 := by omega
    rw [hfill, hcut.1, hcut.2, pow_succ, ← mul_assoc, pow_zero, Nat.div_one, Nat.div_one,
      Nat.mul_div_cancel _ (by norm_num)]
  · have hfill : 3 - size = 0 ∧ 3 - (size + 1) = 0 := by omega
    have hcut : size + 1 - 3 = size - 3 + 1 := by omega
    rw [hfill.1, hfill.2, hcut, pow_succ, Nat.div_div_eq_div_mul]

/-- The leading bit of the leading bytes is that of the number. -/
theorem leadingBytes_bounds {x : Nat} (h0 : x ≠ 0) :
    2 ^ (16 + x.log2 % 8) ≤ leadingBytes x (byteSize x) ∧
      leadingBytes x (byteSize x) < 2 ^ (17 + x.log2 % 8) := by
  have hlo : 2 ^ x.log2 ≤ x := Nat.log2_self_le h0
  have hhi : x < 2 ^ (x.log2 + 1) := Nat.lt_log2_self
  have hsize : byteSize x = x.log2 / 8 + 1 := by unfold byteSize; omega
  have hpow : ∀ n, (0 : Nat) < 2 ^ n := fun n => by positivity
  rw [leadingBytes, ← two_pow_eight_mul, ← two_pow_eight_mul]
  constructor
  · rw [Nat.le_div_iff_mul_le (hpow _)]
    calc 2 ^ (16 + x.log2 % 8) * 2 ^ (8 * (byteSize x - 3))
        = 2 ^ x.log2 * 2 ^ (8 * (3 - byteSize x)) := by
          rw [← pow_add, ← pow_add]
          congr 1
          omega
      _ ≤ x * 2 ^ (8 * (3 - byteSize x)) := Nat.mul_le_mul_right _ hlo
  · rw [Nat.div_lt_iff_lt_mul (hpow _)]
    calc x * 2 ^ (8 * (3 - byteSize x)) < 2 ^ (x.log2 + 1) * 2 ^ (8 * (3 - byteSize x)) :=
          Nat.mul_lt_mul_of_pos_right hhi (hpow _)
      _ = 2 ^ (17 + x.log2 % 8) * 2 ^ (8 * (byteSize x - 3)) := by
          rw [← pow_add, ← pow_add]
          congr 1
          omega

/-- What the encoding of a target packs, and that the sign bit is clear. -/
theorem targetToBits_eq {x : Nat} (h0 : x ≠ 0) :
    targetToBits x = leadingBytes x (signedSize x) ||| (signedSize x <<< 24) ∧
      leadingBytes x (signedSize x) < 2 ^ 23 := by
  obtain ⟨hlo, hhi⟩ := leadingBytes_bounds h0
  have hlt : leadingBytes x (byteSize x) < 2 ^ 24 :=
    hhi.trans_le (Nat.pow_le_pow_right (by norm_num) (by omega))
  unfold targetToBits
  rw [if_neg h0]
  dsimp only
  rw [show (x.log2 + 1 + 7) / 8 = byteSize x from rfl, leadingBytes_eq_shift]
  by_cases htop : x.log2 % 8 = 7
  · have hsigned : signedSize x = byteSize x + 1 := by unfold signedSize byteSize; omega
    rw [htop] at hlo
    have hset := (and_signBit_ne_zero (leadingBytes x (byteSize x))).mpr (by omega)
    rw [if_pos hset, Nat.shiftRight_eq_div_pow, hsigned, leadingBytes_succ]
    exact ⟨rfl, by omega⟩
  · have hsigned : signedSize x = byteSize x := by unfold signedSize byteSize; omega
    have hclear : leadingBytes x (byteSize x) < 2 ^ 23 :=
      hhi.trans_le (Nat.pow_le_pow_right (by norm_num) (by omega))
    have hset := mt (and_signBit_ne_zero (leadingBytes x (byteSize x))).mp (by omega)
    rw [if_neg hset, hsigned]
    exact ⟨rfl, hclear⟩

/-- The fields of a packed mantissa and exponent. -/
theorem pack {m e : Nat} (hm : m < 2 ^ 23) (he : e < 2 ^ 8) :
    mantissaOf (m ||| (e <<< 24)) = m ∧ exponentOf (m ||| (e <<< 24)) = e ∧
      (m ||| (e <<< 24)) &&& 0x00800000 = 0 := by
  have hpack : m ||| (e <<< 24) = 2 ^ 24 * e + m := by
    rw [Nat.or_comm, ← Nat.shiftLeft_add_eq_or_of_lt (by omega), Nat.shiftLeft_eq, Nat.mul_comm]
  have hclear := mt (and_signBit_ne_zero (2 ^ 24 * e + m)).mp (by omega)
  rw [hpack, mantissaOf, exponentOf]
  exact ⟨by omega, by omega, not_not.mp hclear⟩

theorem log2_lt {x : Nat} (hx : x < 2 ^ 256) : x.log2 < 256 := by
  rcases Nat.eq_zero_or_pos x with rfl | hpos
  · simp
  · exact (Nat.log2_lt hpos.ne').mpr hx

/-- The encoding of a target is accepted, and decodes to the target without its low bytes. -/
theorem bitsToTarget_targetToBits {x : Nat} (hx : x < 2 ^ 256) :
    bitsToTarget (targetToBits x) = .ok (roundDown x) := by
  rcases Nat.eq_zero_or_pos x with rfl | hpos
  · rfl
  obtain ⟨hbits, hm⟩ := targetToBits_eq hpos.ne'
  have hlog := log2_lt hx
  have hsize : signedSize x ≤ 33 := by unfold signedSize; omega
  obtain ⟨hmant, hexp, hsign⟩ := pack hm (show signedSize x < 2 ^ 8 by omega)
  rw [hbits, bitsToTarget_eq_ok_iff, hmant, hexp]
  refine ⟨fun _ => ⟨hsign, ?_⟩, ?_⟩
  · -- the sign bit leaves 33 bytes for numbers of 256 bits only, and then the mantissa has two
    intro hover
    unfold Overflows at hover
    have htop : signedSize x = 33 ∧ leadingBytes x (signedSize x) > 0xffff := by omega
    obtain ⟨h33, hbig⟩ := htop
    rw [h33, leadingBytes, show 3 - 33 = 0 from rfl, pow_zero, mul_one, show 33 - 3 = 30 from rfl,
      gt_iff_lt, Nat.lt_div_iff_mul_lt (by positivity)] at hbig
    have : (256 : Nat) ^ 30 * 0x10000 = 2 ^ 256 := by norm_num
    omega
  · unfold compactValue roundDown leadingBytes
    split_ifs with h3
    · rw [Nat.sub_eq_zero_of_le h3]
      simp
    · rw [Nat.sub_eq_zero_of_le (show 3 ≤ signedSize x by omega)]
      simp

/-! ## The codec -/

theorem roundDown_le (x : Nat) : roundDown x ≤ x := Nat.div_mul_le_self _ _

/-- Encoding rounds a target down. -/
theorem targetToBits_le {x target : Nat} (hx : x < 2 ^ 256)
    (h : bitsToTarget (targetToBits x) = .ok target) : target ≤ x := by
  rw [bitsToTarget_targetToBits hx] at h
  cases h
  exact roundDown_le x

/-- The bytes that are cut off are at least 15 bits below the leading bit. -/
theorem cut_mul_le {x : Nat} (h : 3 < signedSize x) :
    256 ^ (signedSize x - 3) * 2 ^ 15 ≤ 2 ^ x.log2 := by
  rw [← two_pow_eight_mul, ← pow_add]
  exact Nat.pow_le_pow_right (by norm_num) (by unfold signedSize at h ⊢; omega)

theorem loss_lt {x : Nat} (h0 : x ≠ 0) : (x - roundDown x) * 2 ^ 15 < x := by
  have hmod : x - roundDown x = x % 256 ^ (signedSize x - 3) := by
    have := Nat.div_add_mod' x (256 ^ (signedSize x - 3))
    unfold roundDown
    omega
  rw [hmod]
  rcases Nat.lt_or_ge 3 (signedSize x) with hcut | hcut
  · calc x % 256 ^ (signedSize x - 3) * 2 ^ 15 < 256 ^ (signedSize x - 3) * 2 ^ 15 :=
          Nat.mul_lt_mul_of_pos_right (Nat.mod_lt _ (by positivity)) (by norm_num)
      _ ≤ 2 ^ x.log2 := cut_mul_le hcut
      _ ≤ x := Nat.log2_self_le h0
  · rw [Nat.sub_eq_zero_of_le hcut, pow_zero, Nat.mod_one, zero_mul]
    exact Nat.pos_of_ne_zero h0

/-- The leading bit is not cut off. -/
theorem two_pow_log2_le_roundDown {x : Nat} (h0 : x ≠ 0) : 2 ^ x.log2 ≤ roundDown x := by
  have hlog : 8 * (signedSize x - 3) ≤ x.log2 := by unfold signedSize; omega
  have hsplit : 2 ^ x.log2 = 2 ^ (x.log2 - 8 * (signedSize x - 3)) * 256 ^ (signedSize x - 3) := by
    rw [← two_pow_eight_mul, ← pow_add]
    congr 1
    omega
  rw [hsplit]
  refine Nat.mul_le_mul_right _ ?_
  rw [Nat.le_div_iff_mul_le (by positivity), ← hsplit]
  exact Nat.log2_self_le h0

theorem log2_roundDown {x : Nat} (h0 : x ≠ 0) : (roundDown x).log2 = x.log2 := by
  have hlo := two_pow_log2_le_roundDown h0
  have hpos : roundDown x ≠ 0 := by
    have : 0 < 2 ^ x.log2 := by positivity
    omega
  rw [Nat.log2_eq_iff hpos]
  exact ⟨hlo, (roundDown_le x).trans_lt Nat.lt_log2_self⟩

/-- What the encoding keeps has the same encoding. -/
theorem targetToBits_roundDown (x : Nat) : targetToBits (roundDown x) = targetToBits x := by
  rcases Nat.eq_zero_or_pos x with rfl | hpos
  · rfl
  have h0 := hpos.ne'
  have hlog := log2_roundDown h0
  have hsize : signedSize (roundDown x) = signedSize x := by rw [signedSize, hlog, signedSize]
  have h0' : roundDown x ≠ 0 := by
    have := two_pow_log2_le_roundDown h0
    have : 0 < 2 ^ x.log2 := by positivity
    omega
  rw [(targetToBits_eq h0').1, (targetToBits_eq h0).1, hsize]
  congr 1
  unfold leadingBytes
  rcases Nat.lt_or_ge 3 (signedSize x) with hcut | hcut
  · rw [Nat.sub_eq_zero_of_le hcut.le, pow_zero, mul_one, mul_one, roundDown,
      Nat.mul_div_cancel _ (by positivity)]
  · rw [roundDown, Nat.sub_eq_zero_of_le hcut, pow_zero, Nat.div_one, Nat.div_one, Nat.div_one, mul_one]

theorem roundDown_mono {x y : Nat} (h : x ≤ y) : roundDown x ≤ roundDown y := by
  rcases Nat.eq_zero_or_pos x with rfl | hpos
  · exact (roundDown_le 0).trans (Nat.zero_le _)
  have hlog : x.log2 ≤ y.log2 :=
    (Nat.le_log2 (hpos.trans_le h).ne').mpr ((Nat.log2_self_le hpos.ne').trans h)
  rcases Nat.eq_or_lt_of_le hlog with heq | hlt
  · have hsize : signedSize x = signedSize y := by rw [signedSize, heq, signedSize]
    rw [roundDown, hsize, roundDown]
    exact Nat.mul_le_mul_right _ (Nat.div_le_div_right h)
  · -- the smaller number is below the leading bit of the greater
    calc roundDown x ≤ x := roundDown_le x
      _ ≤ 2 ^ (x.log2 + 1) := Nat.lt_log2_self.le
      _ ≤ 2 ^ y.log2 := Nat.pow_le_pow_right (by norm_num) hlt
      _ ≤ roundDown y := two_pow_log2_le_roundDown (hpos.trans_le h).ne'

/-- A multiple of what would be cut off is kept. -/
theorem roundDown_eq_self {x : Nat} (h : 256 ^ (signedSize x - 3) ∣ x) : roundDown x = x :=
  Nat.div_mul_cancel h

theorem signedSize_le_of_lt {x n : Nat} (h : x < 2 ^ (23 + 8 * n)) : signedSize x ≤ n + 3 := by
  rcases Nat.eq_zero_or_pos x with rfl | hpos
  · simp [signedSize]
  · have hlog : x.log2 < 23 + 8 * n := (Nat.log2_lt hpos.ne').mpr h
    unfold signedSize
    omega

/-- A decoded target is kept. -/
theorem roundDown_of_bitsToTarget {bits target : Nat} (h : bitsToTarget bits = .ok target) :
    roundDown target = target := by
  obtain ⟨-, rfl⟩ := bitsToTarget_eq_ok_iff.mp h
  have hm := mantissaOf_lt bits
  apply roundDown_eq_self
  unfold compactValue
  split_ifs with he
  · have hlt : mantissaOf bits / 256 ^ (3 - exponentOf bits) < 2 ^ (23 + 8 * 0) :=
      (Nat.div_le_self _ _).trans_lt hm
    rw [Nat.sub_eq_zero_of_le (signedSize_le_of_lt hlt), pow_zero]
    exact one_dvd _
  · have hlt : mantissaOf bits * 256 ^ (exponentOf bits - 3) < 2 ^ (23 + 8 * (exponentOf bits - 3)) := by
      rw [pow_add, two_pow_eight_mul]
      exact Nat.mul_lt_mul_of_pos_right hm (by positivity)
    have hsize := signedSize_le_of_lt hlt
    exact Dvd.dvd.mul_left (pow_dvd_pow 256 (by omega)) _

/-- Encoding a 256-bit target and decoding it again rounds it down by less than a 2⁻¹⁵ part, changes
nothing the second time and keeps the order; a target that bits decode to comes back as it is. -/
theorem compact_codec {t : Nat} (ht : t < 2 ^ 256) :
    (∃ d, bitsToTarget (targetToBits t) = .ok d ∧ d ≤ t ∧ (t ≠ 0 → (t - d) * 2 ^ 15 < t) ∧
      targetToBits d = targetToBits t ∧
      ∀ s ≤ t, ∃ d', bitsToTarget (targetToBits s) = .ok d' ∧ d' ≤ d) ∧
    ∀ bits target, bitsToTarget bits = .ok target →
      bitsToTarget (targetToBits target) = .ok target := by
  constructor
  · refine ⟨roundDown t, bitsToTarget_targetToBits ht, roundDown_le t, loss_lt,
      targetToBits_roundDown t, ?_⟩
    intro s hs
    exact ⟨roundDown s, bitsToTarget_targetToBits (hs.trans_lt ht), roundDown_mono hs⟩
  · intro bits target h
    rw [bitsToTarget_targetToBits (bitsToTarget_lt h), roundDown_of_bitsToTarget h]

/-- At the largest target of 256 bits. -/
theorem compact_codec_max :
    (∃ d, bitsToTarget (targetToBits (2 ^ 256 - 1)) = .ok d ∧ d ≤ 2 ^ 256 - 1 ∧
      (2 ^ 256 - 1 ≠ 0 → (2 ^ 256 - 1 - d) * 2 ^ 15 < 2 ^ 256 - 1) ∧
      targetToBits d = targetToBits (2 ^ 256 - 1) ∧
      ∀ s ≤ 2 ^ 256 - 1, ∃ d', bitsToTarget (targetToBits s) = .ok d' ∧ d' ≤ d) ∧
    ∀ bits target, bitsToTarget bits = .ok target →
      bitsToTarget (targetToBits target) = .ok target :=
  compact_codec (by norm_num)

/-! ## Bitcoin Core's decoder -/

/-- The sign bit is set on a mantissa that a small exponent shifts out. -/
def SignOfNothing (bits : Nat) : Prop :=
  bits &&& 0x00800000 ≠ 0 ∧ bits &&& 0x007fffff ≠ 0 ∧ bits >>> 24 ≤ 3 ∧
    (bits &&& 0x007fffff) >>> (8 * (3 - bits >>> 24)) = 0

instance (bits : Nat) : Decidable (SignOfNothing bits) := by
  unfold SignOfNothing
  infer_instance

/-- The decoder fails exactly where `SetCompact` reports a flag and sets the same word otherwise; and
no bit of an accepted mantissa leaves the word. -/
def IsSetCompact (bits : Nat) : Prop :=
  ((∃ e, bitsToTarget bits = .error e) ↔
      ((Bitcoin.setCompact bits).negative = true ∨ (Bitcoin.setCompact bits).overflow = true)) ∧
    (∀ target, bitsToTarget bits = .ok target → target = (Bitcoin.setCompact bits).value) ∧
    ∀ target, bitsToTarget bits = .ok target → 3 < bits >>> 24 →
      (bits &&& 0x007fffff) <<< (8 * (bits >>> 24 - 3)) < 2 ^ 256

theorem bitsToTarget_eq_error_iff {bits : Nat} :
    (∃ e, bitsToTarget bits = .error e) ↔
      mantissaOf bits ≠ 0 ∧
        (bits &&& 0x00800000 ≠ 0 ∨ Overflows (mantissaOf bits) (exponentOf bits)) := by
  constructor
  · rintro ⟨e, he⟩
    by_contra hnot
    have hok : bitsToTarget bits = .ok (compactValue (mantissaOf bits) (exponentOf bits)) := by
      refine bitsToTarget_eq_ok_iff.mpr ⟨fun hne => ⟨?_, ?_⟩, rfl⟩
      · by_contra hsign
        exact hnot ⟨hne, .inl hsign⟩
      · intro hover
        exact hnot ⟨hne, .inr hover⟩
    rw [he] at hok
    cases hok
  · rintro ⟨hne, hflag⟩
    cases h : bitsToTarget bits with
    | error e => exact ⟨e, rfl⟩
    | ok target =>
      obtain ⟨hsign, hover⟩ := (bitsToTarget_eq_ok_iff.mp h).1 hne
      rcases hflag with hflag | hflag
      · exact absurd hsign hflag
      · exact absurd hflag hover

theorem not_overflows_of_le {m e : Nat} (h : e ≤ 3) : ¬Overflows m e := by
  unfold Overflows
  omega

/-- The decoder is Bitcoin Core's but for a sign bit on a mantissa that is shifted out: there Core sets
zero without a flag, and the decoder, which tests the sign before the shift, fails. -/
theorem isSetCompact_iff {bits : Nat} (hbits : bits < 2 ^ 32) :
    IsSetCompact bits ↔ ¬SignOfNothing bits := by
  have he : exponentOf bits = bits >>> 24 := by
    rw [exponentOf, Nat.shiftRight_eq_div_pow]
    omega
  have hmlt := mantissaOf_lt bits
  have hok := @bitsToTarget_eq_ok_iff bits
  unfold IsSetCompact SignOfNothing Bitcoin.setCompact Bitcoin.compactWord
  rw [bitsToTarget_eq_error_iff]
  simp only [and_mantissaMask, he, decide_eq_true_eq] at hok ⊢
  generalize bits &&& 0x00800000 = sign at hok ⊢
  generalize bits >>> 24 = e at hok ⊢
  generalize mantissaOf bits = m at hmlt hok ⊢
  by_cases hsmall : e ≤ 3
  · -- no exponent this small overflows; the word is what the shift leaves
    have hfits : ∀ w, ¬Overflows w e := fun w => not_overflows_of_le hsmall
    have hvalue : compactValue m e = m >>> (8 * (3 - e)) := by
      rw [compactValue, if_pos hsmall, Nat.shiftRight_eq_div_pow, two_pow_eight_mul]
    have hword : m >>> (8 * (3 - e)) ≠ 0 → m ≠ 0 := by
      rintro h rfl
      simp at h
    simp only [if_pos hsmall, hok, hvalue]
    constructor
    · rintro ⟨hflags, -, -⟩ ⟨hsign, hm, -, hzero⟩
      rcases hflags.mp ⟨hm, .inl hsign⟩ with h | h <;> exact h.1 hzero
    · intro hclean
      refine ⟨⟨?_, ?_⟩, fun target h => h.2, fun target h hbig => absurd hbig (not_lt.mpr hsmall)⟩
      · rintro ⟨hm, hsign | hover⟩
        · exact .inl ⟨fun hzero => hclean ⟨hsign, hm, hsmall, hzero⟩, hsign⟩
        · exact absurd hover (hfits m)
      · rintro (⟨hne, hsign⟩ | ⟨-, hover⟩)
        · exact ⟨hword hne, .inl hsign⟩
        · exact absurd hover (hfits _)
  · have hvalue : compactValue m e = m <<< (8 * (e - 3)) := by
      rw [compactValue, if_neg hsmall, Nat.shiftLeft_eq, two_pow_eight_mul]
    have hfits : (m ≠ 0 → sign = 0 ∧ ¬Overflows m e) → m <<< (8 * (e - 3)) < 2 ^ 256 := by
      intro h
      rw [Nat.shiftLeft_eq, two_pow_eight_mul]
      exact mul_pow_lt hmlt fun hne => (h hne).2
    simp only [if_neg hsmall, hok, hvalue]
    refine iff_of_true ⟨⟨?_, ?_⟩, ?_, fun target h _ => hfits h.1⟩ fun h => hsmall h.2.2.1
    · rintro ⟨hm, hsign | hover⟩
      · exact .inl ⟨hm, hsign⟩
      · exact .inr ⟨hm, hover⟩
    · rintro (⟨hm, hsign⟩ | ⟨hm, hover⟩)
      · exact ⟨hm, .inl hsign⟩
      · exact ⟨hm, .inr hover⟩
    · rintro target ⟨haccept, rfl⟩
      exact (Nat.mod_eq_of_lt (hfits haccept)).symm

/-- The bits of mainnet's limit. -/
theorem isSetCompact_iff_mainnet : IsSetCompact 0x1d00ffff ↔ ¬SignOfNothing 0x1d00ffff :=
  isSetCompact_iff (by norm_num)

/-- The sign bit on a mantissa of one, which the exponent shifts out. -/
theorem not_isSetCompact : ¬IsSetCompact 0x01800001 := by
  intro h
  have hflags := h.1.mp ⟨.InvalidDifficultyBits, by decide⟩
  revert hflags
  decide

end Writz.Spv

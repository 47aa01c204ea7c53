import Writz.BitcoinScript.Keys
import Writz.Util.Located

/-!
# Proofs: the conversion of a KMS signature

An integer below the order takes at most 33 bytes, the first of 33 being zero; padded to 32 bytes they are
its big-endian form, and so are those of the reflected `s`.
-/

namespace Writz.BitcoinScript

open Node

/-! ## DER -/

/-- The 32 big-endian bytes of a number. -/
def bigEndian32 (n : Nat) : Bytes := (LittleEndian.encode 32 n).reverse

/-- The minimal two's-complement bytes of a positive number. -/
structure IsDerInteger (n : Nat) (bs : Bytes) : Prop where
  value : LittleEndian.decode bs.reverse = n
  /-- The sign bit is clear. -/
  positive : ∀ b ∈ bs.head?, b.toNat < 0x80
  /-- The first nine bits are not all clear. -/
  minimal : bs.head? = some 0 → ∀ b ∈ bs[1]?, 0x80 ≤ b.toNat

/-- The bytes of a positive number, as many as its bits and the sign bit take. -/
def derInteger (n : Nat) : Bytes := (LittleEndian.encode ((Nat.log2 n + 1) / 8 + 1) n).reverse

/-- `SEQUENCE { r INTEGER, s INTEGER }` of the bytes of the integers. -/
def derSignature (r s : Bytes) : Bytes :=
  [0x30, UInt8.ofNat (r.length + s.length + 4)] ++ ([0x02, UInt8.ofNat r.length] ++ (r ++
    ([0x02, UInt8.ofNat s.length] ++ s)))

/-- The `s` of the pair that is not above half the order. -/
def lowS (s : Nat) : Nat := if s ≤ SECP256K1_N_HALF then s else SECP256K1_N - s

section Integer

variable {n : Nat} {bs : Bytes}

theorem order_lt : SECP256K1_N < 256 ^ 32 := by decide

theorem IsDerInteger.ne_nil (h : IsDerInteger n bs) (hn : 0 < n) : bs ≠ [] := by
  rintro rfl
  have hvalue : 0 = n := h.value
  omega

/-- A number that starts with a byte is at least that byte at its place. -/
theorem value_cons (b : UInt8) (bs : Bytes) :
    LittleEndian.decode (b :: bs).reverse = LittleEndian.decode bs.reverse + 256 ^ bs.length * b.toNat := by
  rw [List.reverse_cons, LittleEndian.decode_append, List.length_reverse]
  simp [LittleEndian.decode]

/-- The bits of a number of bytes, without the sign bit. -/
theorem pow_bits (k : Nat) : 256 ^ k * 0x80 = 2 ^ (8 * k + 7) := by
  rw [pow_add, pow_mul]
  rfl

theorem isDerInteger_derInteger (hn : 0 < n) : IsDerInteger n (derInteger n) := by
  obtain ⟨k, hk⟩ : ∃ k, k = (Nat.log2 n + 1) / 8 := ⟨_, rfl⟩
  have hlog : 2 ^ Nat.log2 n ≤ n := Nat.log2_self_le hn.ne'
  have hlog' : n < 2 ^ (Nat.log2 n + 1) := Nat.lt_log2_self
  have hsigned : n < 256 ^ k * 0x80 := by
    calc n < 2 ^ (Nat.log2 n + 1) := hlog'
      _ ≤ 2 ^ (8 * k + 7) := Nat.pow_le_pow_right (by decide) (by omega)
      _ = 256 ^ k * 0x80 := (pow_bits k).symm
  have hfit : n < 256 ^ (k + 1) := by
    rw [pow_succ]
    omega
  have hvalue : LittleEndian.decode (derInteger n).reverse = n := by
    rw [derInteger, ← hk, List.reverse_reverse, LittleEndian.decode_encode hfit]
  have hlength : (derInteger n).length = k + 1 := by rw [derInteger, ← hk, List.length_reverse,
    LittleEndian.length_encode]
  revert hvalue hlength
  generalize derInteger n = bs
  intro hvalue hlength
  refine ⟨hvalue, ?_, ?_⟩
  · intro b hb
    cases bs with
    | nil => cases hb
    | cons b' rest =>
      cases hb
      rw [value_cons] at hvalue
      have hrest : rest.length = k := Nat.succ.inj hlength
      rw [hrest] at hvalue
      exact Nat.lt_of_mul_lt_mul_left (a := 256 ^ k) (by omega)
  · intro hzero c hc
    cases bs with
    | nil => cases hzero
    | cons b' rest =>
      cases hzero
      cases rest with
      | nil => cases hc
      | cons c' rest =>
        cases hc
        rw [value_cons, value_cons] at hvalue
        have hrest : rest.length + 1 = k := Nat.succ.inj hlength
        -- with one bit less the number would take one byte less
        have hbits : 256 ^ rest.length * 0x80 ≤ n := by
          calc 256 ^ rest.length * 0x80 = 2 ^ (8 * rest.length + 7) := pow_bits _
            _ ≤ 2 ^ Nat.log2 n := Nat.pow_le_pow_right (by decide) (by omega)
            _ ≤ n := hlog
        have hlow : LittleEndian.decode rest.reverse < 256 ^ rest.length := by
          have hlt := LittleEndian.decode_lt rest.reverse
          rwa [List.length_reverse] at hlt
        have hzero : (0 : UInt8).toNat = 0 := rfl
        rw [hzero, Nat.mul_zero, Nat.add_zero] at hvalue
        by_contra hsmall
        have hle : 256 ^ rest.length * (c.toNat + 1) ≤ 256 ^ rest.length * 0x80 :=
          Nat.mul_le_mul_left _ (by omega)
        rw [Nat.mul_add, Nat.mul_one] at hle
        omega

/-- More than 32 bytes of a number below 2^256 are 33, and the first one pads. -/
theorem IsDerInteger.padded (h : IsDerInteger n bs) (hn : n < 256 ^ 32) (hlong : 32 < bs.length) :
    ∃ rest, bs = 0 :: rest ∧ rest.length = 32 := by
  cases bs with
  | nil => simp at hlong
  | cons b rest =>
    have hvalue := h.value
    rw [value_cons] at hvalue
    have hrest : 32 ≤ rest.length := Nat.lt_succ_iff.mp hlong
    have hpow : 256 ^ 32 ≤ 256 ^ rest.length := Nat.pow_le_pow_right (by decide) hrest
    have hzero : b = 0 := by
      by_contra hne
      have hpos : 0 < b.toNat := Nat.pos_of_ne_zero fun h0 => hne (UInt8.toNat_inj.mp h0)
      have hle : 256 ^ rest.length ≤ 256 ^ rest.length * b.toNat := Nat.le_mul_of_pos_right _ hpos
      omega
    refine ⟨rest, by rw [hzero], ?_⟩
    -- a second byte with its high bit set is below 2^256 only at the 32nd place
    cases rest with
    | nil => simp at hrest
    | cons c rest =>
      have hhigh : 0x80 ≤ c.toNat := h.minimal (by rw [hzero]; rfl) c rfl
      rw [hzero, value_cons] at hvalue
      by_contra hne
      have hrest' : 32 ≤ rest.length := by
        simp only [List.length_cons] at hrest hne
        omega
      have hpow' : 256 ^ 32 ≤ 256 ^ rest.length := Nat.pow_le_pow_right (by decide) hrest'
      have hle : 256 ^ rest.length * 0x80 ≤ 256 ^ rest.length * c.toNat := Nat.mul_le_mul_left _ hhigh
      have hone : (0 : UInt8).toNat = 0 := rfl
      rw [hone, Nat.mul_zero] at hvalue
      omega

theorem IsDerInteger.length_le (h : IsDerInteger n bs) (hn : n < 256 ^ 32) : bs.length ≤ 33 := by
  by_contra hlong
  obtain ⟨rest, rfl, hrest⟩ := h.padded hn (by omega)
  simp only [List.length_cons] at hlong
  omega

/-- The bytes without the padding: at most 32, of the same number. -/
theorem IsDerInteger.stripPadding (h : IsDerInteger n bs) (hn : n < 256 ^ 32) (hpos : 0 < n) :
    LittleEndian.decode (stripPadding bs).reverse = n ∧ (BitcoinScript.stripPadding bs).length ≤ 32 ∧
      BitcoinScript.stripPadding bs ≠ [] := by
  unfold BitcoinScript.stripPadding
  by_cases hlong : 32 < bs.length
  · obtain ⟨rest, rfl, hrest⟩ := h.padded hn hlong
    have hvalue := h.value
    rw [value_cons] at hvalue
    rw [if_pos ⟨hlong, rfl⟩, List.drop_one, List.tail_cons]
    refine ⟨by simpa using hvalue, hrest.le, ?_⟩
    rintro rfl
    simp at hrest
  · rw [if_neg (fun hc => hlong hc.1)]
    exact ⟨h.value, by omega, h.ne_nil hpos⟩

theorem leftPad32_eq (hlen : bs.length ≤ 32) :
    leftPad32 bs = .ok (bigEndian32 (LittleEndian.decode bs.reverse)) := by
  have hzeros : ∀ k : Nat, LittleEndian.decode (List.replicate k 0) = 0 := by
    intro k
    induction k with
    | zero => rfl
    | succ k ih =>
      rw [List.replicate_succ, LittleEndian.decode, ih]
      rfl
  have hpadded : List.replicate (32 - bs.length) 0 ++ bs = bigEndian32 (LittleEndian.decode bs.reverse) := by
    rw [bigEndian32, ← List.reverse_inj, List.reverse_reverse, List.reverse_append, List.reverse_replicate]
    refine LittleEndian.decode_injective ?_ ?_
    · simp
      omega
    · have hlt : LittleEndian.decode bs.reverse < 256 ^ 32 := by
        have hlt := LittleEndian.decode_lt bs.reverse
        rw [List.length_reverse] at hlt
        exact hlt.trans_le (Nat.pow_le_pow_right (by decide) hlen)
      rw [LittleEndian.decode_append, hzeros, LittleEndian.decode_encode hlt, Nat.mul_zero, Nat.add_zero]
  unfold leftPad32
  by_cases heq : bs.length = 32
  · rw [if_pos heq]
    rw [heq] at hpadded
    exact congrArg Except.ok hpadded
  · rw [if_neg heq, throwIf, failIf, if_neg (by omega), ← hpadded]
    rfl

/-- An integer is read where it stands. -/
theorem readInteger_located {buf : Bytes} {i : Nat}
    (h : Located buf i ([0x02, UInt8.ofNat bs.length] ++ bs)) (hlen : bs.length < 256) :
    readInteger buf (some i) = .ok { value := stripPadding bs, next := some (i + 2 + bs.length) } := by
  have htag : buf[i]? = some 0x02 := h.getElem?
  have hlength : buf[i + 1]? = some (UInt8.ofNat bs.length) := h.tail.getElem?
  have hvalue : subarray buf (i + 2) (i + 2 + bs.length) = bs := by
    have hlocated : Located buf (i + 2) bs := h.right' rfl
    have htake := hlocated.take_drop
    rwa [subarray, List.drop_take, Nat.add_sub_cancel_left]
  have hnat : (UInt8.ofNat bs.length).toNat = bs.length := by
    rw [UInt8.toNat_ofNat']
    omega
  unfold readInteger throwIf failIf
  simp [htag, hlength, hnat, hvalue]

end Integer

/-! ## The conversion -/

theorem lowS_pos {s : Nat} (hs : 1 ≤ s) (hsn : s < SECP256K1_N) : 1 ≤ lowS s := by
  unfold lowS
  split_ifs <;> omega

theorem lowS_le {s : Nat} : lowS s ≤ SECP256K1_N_HALF := by
  unfold lowS SECP256K1_N_HALF
  split_ifs <;> omega

/-- The hex text of a number below 2^256 is read as its 32 bytes. -/
theorem fromHex_bigIntText {n : Nat} (hn : n < 256 ^ 32) :
    fromHex (padStart 64 '0' (bigIntText 16 n)) = bigEndian32 n :=
  fromHex_padStart (k := 32) (by decide) hn

theorem leftPad32_bigEndian32 {n : Nat} (hn : n < 256 ^ 32) :
    leftPad32 (bigEndian32 n) = .ok (bigEndian32 n) := by
  have hlen : (bigEndian32 n).length = 32 := by rw [bigEndian32, List.length_reverse, LittleEndian.length_encode]
  rw [leftPad32_eq hlen.le, show (bigEndian32 n).reverse = LittleEndian.encode 32 n from List.reverse_reverse _,
    LittleEndian.decode_encode hn]

/-- The reflected `s`, as the integers of the source compute it. -/
theorem lowS_cast {s : Nat} (hsn : s < SECP256K1_N) :
    (if (s : Int) > (SECP256K1_N_HALF : Nat) then ((SECP256K1_N : Nat) : Int) - s else s) = (lowS s : Nat) := by
  unfold lowS
  split_ifs <;> omega

/-- The conversion of every signature: `r` and the low `s`, 32 bytes each. -/
theorem compact_low_s (r s : Nat) (hr : 1 ≤ r) (hrn : r < SECP256K1_N) (hs : 1 ≤ s) (hsn : s < SECP256K1_N) :
    derEcdsaSignatureToCompactLowS (derSignature (derInteger r) (derInteger s)) =
        .ok (bigEndian32 r ++ bigEndian32 (lowS s)) ∧
      1 ≤ lowS s ∧ lowS s ≤ SECP256K1_N_HALF := by
  refine ⟨?_, lowS_pos hs hsn, lowS_le⟩
  have hr256 : r < 256 ^ 32 := hrn.trans order_lt
  have hs256 : s < 256 ^ 32 := hsn.trans order_lt
  have hrder := isDerInteger_derInteger hr
  have hsder := isDerInteger_derInteger hs
  obtain ⟨hrvalue, hrlen, -⟩ := hrder.stripPadding hr256 hr
  obtain ⟨hsvalue, hslen, hsne⟩ := hsder.stripPadding hs256 hs
  have hr33 := hrder.length_le hr256
  have hs33 := hsder.length_le hs256
  -- the two integers where the reader meets them
  have hbody : Located (derSignature (derInteger r) (derInteger s)) 2 ([0x02, UInt8.ofNat (derInteger r).length] ++
      (derInteger r ++ ([0x02, UInt8.ofNat (derInteger s).length] ++ derInteger s))) :=
    (Located.of_eq rfl).right' rfl
  rw [← List.append_assoc] at hbody
  have hrread := readInteger_located hbody.left (by omega)
  have hsread := readInteger_located (hbody.right' (k := 2 + (derInteger r).length) (by simp; omega)) (by omega)
  rw [← Nat.add_assoc] at hsread
  have hlow256 : lowS s < 256 ^ 32 := by
    have hle := lowS_le (s := s)
    have hhalf : SECP256K1_N_HALF < 256 ^ 32 := by decide
    omega
  have hleft : leftPad32 (stripPadding (derInteger r)) = .ok (bigEndian32 r) := by rw [leftPad32_eq hrlen, hrvalue]
  have hbig : bigIntOfText ("0x".toList ++ Hex.encode (stripPadding (derInteger s))) = some (s : Int) := by
    rw [bigIntOfText_hex hsne, hsvalue]
  have hright : leftPad32 (fromHex (padStart 64 '0' (bigIntText 16 (lowS s)))) = .ok (bigEndian32 (lowS s)) := by
    rw [fromHex_bigIntText hlow256, leftPad32_bigEndian32 hlow256]
  unfold derEcdsaSignatureToCompactLowS
  rw [bind_eq_ok]
  refine ⟨(), failIf_eq_ok.mpr (not_not.mpr rfl), ?_⟩
  rw [bind_eq_ok]
  refine ⟨_, hrread, ?_⟩
  rw [bind_eq_ok]
  refine ⟨_, hsread, ?_⟩
  rw [bind_eq_ok]
  refine ⟨s, okOr_eq_ok.mpr hbig, ?_⟩
  dsimp only
  rw [lowS_cast hsn, bind_eq_ok]
  refine ⟨_, hleft, ?_⟩
  rw [bind_eq_ok]
  exact ⟨_, hright, rfl⟩

/-- An `r` of one byte and an `s` of 33 that is reflected to 1. -/
theorem compact_low_s_reflected :
    derEcdsaSignatureToCompactLowS (derSignature (derInteger 5) (derInteger (SECP256K1_N - 1))) =
        .ok (bigEndian32 5 ++ bigEndian32 (lowS (SECP256K1_N - 1))) ∧
      1 ≤ lowS (SECP256K1_N - 1) ∧ lowS (SECP256K1_N - 1) ≤ SECP256K1_N_HALF :=
  compact_low_s 5 (SECP256K1_N - 1) (by decide) (by decide) (by decide) (by decide)

end Writz.BitcoinScript

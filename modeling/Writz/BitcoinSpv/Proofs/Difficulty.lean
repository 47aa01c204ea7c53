import Writz.BitcoinSpv.Proofs.Compact

/-!
# Proofs: difficulty

What a retarget asks for, how much of it survives the encoding, and the work a target stands for.
-/

namespace Writz.Spv

/-! ## Retargeting -/

theorem retarget_le (parentTarget timespan powLimit : Nat) :
    retarget parentTarget timespan powLimit ≤ powLimit := by
  unfold retarget
  split
  · split_ifs with h
    · exact h
    · exact le_rfl
  · exact le_rfl

/-- Below 256 bits the product is exact. -/
theorem retarget_eq_min {parentTarget timespan powLimit : Nat}
    (h : parentTarget * timespan < 2 ^ 256) :
    retarget parentTarget timespan powLimit
      = min (parentTarget * timespan / TARGET_TIMESPAN.toNat) powLimit := by
  unfold retarget u256
  rw [if_pos h]
  dsimp only
  split_ifs with hle
  · exact (min_eq_left hle).symm
  · exact (min_eq_right (not_le.mp hle).le).symm

/-- The bits expected of a child of a header within the limit stand for a target within it. -/
theorem expectedBits_le {parent : HeaderEntry} {height powLimit bits target parentTarget : Nat}
    (hlimit : powLimit < 2 ^ 256) (hp : bitsToTarget parent.bits = .ok parentTarget)
    (hle : parentTarget ≤ powLimit) (h : expectedBits parent height powLimit = .ok bits)
    (ht : bitsToTarget bits = .ok target) : target ≤ powLimit := by
  unfold expectedBits at h
  split_ifs at h with hboundary
  · cases h
    rw [hp] at ht
    cases ht
    exact hle
  · rw [hp] at h
    cases h
    have hretarget := retarget_le parentTarget
      (clampTimespan ((parent.time : Int) - parent.periodStartTime)).toNat powLimit
    exact (targetToBits_le (hretarget.trans_lt hlimit) ht).trans hretarget

/-- The seconds a retarget counts. -/
def periodSpan (parent : HeaderEntry) : Nat :=
  (max 302400 (min ((parent.time : Int) - parent.periodStartTime) 4838400)).toNat

theorem clampTimespan_eq (parent : HeaderEntry) :
    (clampTimespan ((parent.time : Int) - parent.periodStartTime)).toNat = periodSpan parent := rfl

theorem periodSpan_le (parent : HeaderEntry) : periodSpan parent ≤ 4838400 := by
  unfold periodSpan
  omega

/-- The new target before it is encoded. -/
theorem retarget_eq (T span powLimit : Nat) :
    retarget T span powLimit
      = if 2 ^ 256 ≤ T * span then powLimit else min powLimit (T * span / 1209600) := by
  split_ifs with h
  · unfold retarget u256
    rw [if_neg (not_lt.mpr h)]
  · rw [retarget_eq_min (not_le.mp h), min_comm]
    rfl

/-- The retarget law: inside a period the bits stay, and at its end they are the encoding of the scaled
target, capped at the limit. They always decode within the limit, to at most four times the target,
and to what the formula gives but for a 2⁻¹⁵ part. -/
theorem retarget_law {parent : HeaderEntry} {T powLimit limitBits : Nat} (height : Nat)
    (hbits : bitsToTarget parent.bits = .ok T) (hlimit : bitsToTarget limitBits = .ok powLimit)
    (hT : T ≤ powLimit) :
    expectedBits parent height powLimit
        = .ok (if height % 2016 ≠ 0 then parent.bits
          else targetToBits (if 2 ^ 256 ≤ T * periodSpan parent then powLimit
            else min powLimit (T * periodSpan parent / 1209600))) ∧
      ∃ bits d, expectedBits parent height powLimit = .ok bits ∧ bitsToTarget bits = .ok d ∧
        d ≤ powLimit ∧
        (T * periodSpan parent < 2 ^ 256 → d ≤ 4 * T ∧
          (height % 2016 = 0 →
            d ≤ min powLimit (T * periodSpan parent / 1209600) ∧
              (min powLimit (T * periodSpan parent / 1209600) ≠ 0 →
                (min powLimit (T * periodSpan parent / 1209600) - d) * 2 ^ 15
                  < min powLimit (T * periodSpan parent / 1209600)))) := by
  have hexpected : expectedBits parent height powLimit
      = .ok (if height % 2016 ≠ 0 then parent.bits
        else targetToBits (retarget T (periodSpan parent) powLimit)) := by
    unfold expectedBits RETARGET_INTERVAL
    split_ifs with hinside
    · rfl
    · rw [hbits, ← clampTimespan_eq]
      rfl
  refine ⟨by rw [hexpected, retarget_eq], ?_⟩
  have hle := retarget_le T (periodSpan parent) powLimit
  have hlt : retarget T (periodSpan parent) powLimit < 2 ^ 256 :=
    hle.trans_lt (bitsToTarget_lt hlimit)
  have hspan := periodSpan_le parent
  by_cases hboundary : height % 2016 = 0
  · rw [if_neg (not_not.mpr hboundary)] at hexpected
    refine ⟨_, _, hexpected, bitsToTarget_targetToBits hlt, (roundDown_le _).trans hle,
      fun hfits => ?_⟩
    have hexact : retarget T (periodSpan parent) powLimit
        = min powLimit (T * periodSpan parent / 1209600) := by
      rw [retarget_eq, if_neg (not_le.mpr hfits)]
    rw [hexact]
    refine ⟨?_, fun _ => ⟨roundDown_le _, loss_lt⟩⟩
    calc roundDown (min powLimit (T * periodSpan parent / 1209600))
        ≤ T * periodSpan parent / 1209600 := (roundDown_le _).trans (min_le_right _ _)
      _ ≤ T * 4838400 / 1209600 := Nat.div_le_div_right (Nat.mul_le_mul_left _ hspan)
      _ = 4 * T := by omega
  · rw [if_pos hboundary] at hexpected
    exact ⟨_, T, hexpected, hbits, hT, fun _ => ⟨by omega, fun h => absurd h hboundary⟩⟩

/-- The last block of a period of `timespan` seconds. -/
def Demo.periodEnd (bits timespan : Nat) : HeaderEntry where
  prev := zeros 32
  merkleRoot := zeros 32
  height := 2015
  bits
  time := 1750000000 + timespan
  periodStartTime := 1750000000
  chainwork := 0

/-- A period of one week halves the target. -/
theorem retarget_law_halved :
    expectedBits (Demo.periodEnd 0x1d00ffff 604800) 2016 (0xffff <<< 208) = .ok 0x1c7fff80 := by
  have hbits : bitsToTarget 0x1d00ffff = .ok (0xffff <<< 208) := by decide
  have hlaw := @retarget_law (Demo.periodEnd 0x1d00ffff 604800) _ _ _ 2016 hbits hbits le_rfl
  rw [hlaw.1]
  decide

/-! ## Work -/

theorem workFromTarget_eq {target : Nat} (h : target < 2 ^ 256) :
    workFromTarget target = 2 ^ 256 / (target + 1) := by
  rw [Nat.div_eq_sub_div (Nat.succ_pos target) h, workFromTarget, Nat.sub_sub, Nat.add_comm 1]

theorem workFromTarget_pos (target : Nat) : 0 < workFromTarget target := Nat.succ_pos _

theorem workFromTarget_anti {s t : Nat} (h : s ≤ t) (ht : t < 2 ^ 256) :
    workFromTarget t ≤ workFromTarget s := by
  rw [workFromTarget_eq ht, workFromTarget_eq (h.trans_lt ht)]
  exact Nat.div_le_div_left (Nat.succ_le_succ h) (Nat.succ_pos s)

/-- Between the ends of the range no operation leaves it. -/
theorem checkedWorkFromTarget_eq {t : Nat} (h0 : 0 < t) (ht : t < 2 ^ 256 - 1) :
    checkedWorkFromTarget t = some (workFromTarget t) := by
  have hquotient : (2 ^ 256 - 1 - t) / (t + 1) + 1 < 2 ^ 256 := by
    have := Nat.div_le_self (2 ^ 256 - 1 - t) (t + 1)
    omega
  unfold checkedWorkFromTarget workFromTarget u256
  rw [if_pos ht.le, Option.bind_eq_bind, Option.bind_some, if_pos (by omega)]
  simp only [Option.bind_some, ne_eq, Nat.succ_ne_zero, not_false_eq_true, if_true]
  exact if_pos hquotient

/-- No bits stand for the largest number of 256 bits. -/
theorem bitsToTarget_ne_max {bits target : Nat} (h : bitsToTarget bits = .ok target) :
    target ≠ 2 ^ 256 - 1 := by
  obtain ⟨-, rfl⟩ := bitsToTarget_eq_ok_iff.mp h
  have hm := mantissaOf_lt bits
  unfold compactValue
  split_ifs with he
  · have := Nat.div_le_self (mantissaOf bits) (256 ^ (3 - exponentOf bits))
    omega
  · -- such a number ends in a zero byte
    have hsplit : 256 ^ (exponentOf bits - 3) = 256 ^ (exponentOf bits - 4) * 256 := by
      rw [← pow_succ]
      congr 1
      omega
    rw [hsplit, ← mul_assoc]
    omega

/-- The work of every target that a header's hash can be below is the number of hashes it takes,
computed without an overflow. -/
theorem work_exact {t : Nat} (h0 : 0 < t) (ht : t < 2 ^ 256 - 1) :
    (∃ w, checkedWorkFromTarget t = some w ∧ w = 2 ^ 256 / (t + 1) ∧ 1 ≤ w ∧
      ∀ s, 0 < s → s ≤ t → ∃ w', checkedWorkFromTarget s = some w' ∧ w ≤ w') ∧
    (∀ bits target, bitsToTarget bits = .ok target → target ≠ 2 ^ 256 - 1) ∧
    ∀ (C : Crypto) (header : BytesN 80), validateProofOfWork C header = .ok () →
      ∃ target, bitsToTarget (bitsOf header) = .ok target ∧ 0 < target ∧ target < 2 ^ 256 - 1 ∧
        checkedWorkFromTarget target = some (workFromTarget target) := by
  refine ⟨⟨_, checkedWorkFromTarget_eq h0 ht, workFromTarget_eq (by omega), workFromTarget_pos t,
    ?_⟩, fun _ _ => bitsToTarget_ne_max, ?_⟩
  · intro s hs hle
    exact ⟨_, checkedWorkFromTarget_eq hs (hle.trans_lt ht), workFromTarget_anti hle (by omega)⟩
  · intro C header hpow
    unfold validateProofOfWork at hpow
    cases hbits : bitsToTarget (bitsOf header) with
    | error e =>
      rw [hbits] at hpow
      cases hpow
    | ok target =>
      rw [hbits] at hpow
      change (if hashAsU256 (hashHeader C header) < target then _ else _) = _ at hpow
      split_ifs at hpow with hbelow
      have hpos : 0 < target := Nat.zero_lt_of_lt hbelow
      have hlt := bitsToTarget_lt hbits
      have hne := bitsToTarget_ne_max hbits
      have hmax : target < 2 ^ 256 - 1 := by omega
      exact ⟨target, rfl, hpos, hmax, checkedWorkFromTarget_eq hpos hmax⟩

/-- At the target of difficulty one. -/
theorem work_exact_one :
    ∃ w, checkedWorkFromTarget (0xffff <<< 208) = some w ∧ w = 0x100010001 := by
  have hexact := @work_exact (0xffff <<< 208) (by decide) (by decide)
  obtain ⟨⟨w, hw, hvalue, -⟩, -⟩ := hexact
  exact ⟨w, hw, hvalue.trans (by decide)⟩

/-- The zero target would take `2 ^ 256` hashes, which do not fit. -/
theorem not_work_exact_zero :
    ¬∀ t < 2 ^ 256 - 1, checkedWorkFromTarget t = some (2 ^ 256 / (t + 1)) := by
  intro h
  have hzero := h 0 (by norm_num)
  have htraps : checkedWorkFromTarget 0 = none := by decide
  rw [htraps] at hzero
  cases hzero

end Writz.Spv

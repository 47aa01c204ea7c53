import Writz.SpvTypes.Script
import Writz.Bitcoin.Script
import Writz.Bitcoin.ScriptNum

/-!
# Proofs: the redeem script as a Bitcoin script

The hand-written number encoder pushes the minimal script number of the timelock, and the redeem
script is the compiled template.
-/

namespace Writz

open Bitcoin (Element)

/-! ## The timelock -/

/-- The bytes `push_script_number` pushes. -/
def scriptNumberBytes (n : Nat) : Bytes :=
  let le := LittleEndian.encode 4 n
  let len := trimmedLen le le.length
  le.take len ++ (if le.getD (len - 1) 0 &&& 0x80 != 0 then [0x00] else [])

/-- Trimming leaves at least a byte, cuts zero bytes only and stops at a byte that is not zero. -/
theorem trimmedLen_spec (le : Bytes) : ∀ k, 1 ≤ k → k ≤ le.length →
    1 ≤ trimmedLen le k ∧ trimmedLen le k ≤ k ∧
      LittleEndian.decode (le.take (trimmedLen le k)) = LittleEndian.decode (le.take k) ∧
      (trimmedLen le k = 1 ∨ le.getD (trimmedLen le k - 1) 0 ≠ 0) := by
  intro k
  induction k with
  | zero => intro h; omega
  | succ k ih =>
    intro _ hk
    cases k with
    | zero => exact ⟨le_rfl, le_rfl, rfl, .inl rfl⟩
    | succ k =>
      rw [trimmedLen]
      split_ifs with hzero
      · obtain ⟨h1, hle, hdecode, hlast⟩ := ih (by omega) (by omega)
        refine ⟨h1, by omega, hdecode.trans ?_, hlast⟩
        have hlt : k + 1 < le.length := by omega
        have hget : le[k + 1] = 0 := by
          rw [List.getD_eq_getElem?_getD, List.getElem?_eq_getElem hlt] at hzero
          exact hzero
        rw [List.take_succ_eq_append_getElem hlt, hget,
          Bitcoin.decode_snoc]
        simp
      · exact ⟨by omega, le_rfl, rfl, .inr hzero⟩

theorem signBit_ne_zero (b : UInt8) : (b &&& 0x80 != 0) = decide (128 ≤ b.toNat) := by
  have h : ∀ n < 256, (UInt8.ofNat n &&& 0x80 != 0) = decide (128 ≤ n) := by decide +kernel
  have hb := h b.toNat b.toNat_lt
  rwa [UInt8.ofNat_toNat] at hb

/-- The trimmed bytes of a positive number end in a byte that is not zero. -/
theorem trimmed_spec {n : Nat} (h1 : 1 ≤ n) (hn : n < 2 ^ 32) :
    ∃ init top, (LittleEndian.encode 4 n).take (trimmedLen (LittleEndian.encode 4 n) 4)
        = init ++ [top] ∧
      (LittleEndian.encode 4 n).getD (trimmedLen (LittleEndian.encode 4 n) 4 - 1) 0 = top ∧
      init.length ≤ 3 ∧ top.toNat ≠ 0 ∧ LittleEndian.decode (init ++ [top]) = n := by
  have hlen : (LittleEndian.encode 4 n).length = 4 := LittleEndian.length_encode 4 n
  have hdecode : LittleEndian.decode (LittleEndian.encode 4 n) = n :=
    LittleEndian.decode_encode hn
  generalize LittleEndian.encode 4 n = le at hlen hdecode ⊢
  obtain ⟨hpos, hle, htrim, hlast⟩ := trimmedLen_spec le 4 (by omega) (by omega)
  rw [List.take_of_length_le hlen.le, hdecode] at htrim
  generalize trimmedLen le 4 = len at hpos hle htrim hlast ⊢
  obtain ⟨m, rfl⟩ : ∃ m, len = m + 1 := ⟨len - 1, by omega⟩
  have hm : m < le.length := by omega
  have htake : le.take (m + 1) = le.take m ++ [le[m]] := List.take_succ_eq_append_getElem hm
  have hget : le.getD m 0 = le[m] := by
    rw [List.getD_eq_getElem?_getD, List.getElem?_eq_getElem hm]
    rfl
  rw [htake] at htrim
  refine ⟨le.take m, le[m], htake, hget, by rw [List.length_take]; omega, fun hzero => ?_, htrim⟩
  rcases hlast with hone | hne
  · obtain rfl : m = 0 := by omega
    rw [Bitcoin.decode_snoc, hzero] at htrim
    simp [LittleEndian.decode] at htrim
    omega
  · rw [Nat.add_sub_cancel, hget] at hne
    exact hne (UInt8.toNat_inj.mp hzero)

/-- The pushed bytes are the minimal spelling of the number. -/
theorem scriptNumberBytes_spec {n : Nat} (h1 : 1 ≤ n) (hn : n ≤ U32_MAX) :
    Bitcoin.minimalNum (scriptNumberBytes n) = true ∧
      Bitcoin.scriptNum (scriptNumberBytes n) = n ∧
      1 ≤ (scriptNumberBytes n).length ∧ (scriptNumberBytes n).length ≤ 5 := by
  obtain ⟨init, top, htake, hget, hinit, htop, hdecode⟩ :=
    trimmed_spec h1 (Nat.lt_succ_of_le hn)
  have hlen : (LittleEndian.encode 4 n).length = 4 := LittleEndian.length_encode 4 n
  unfold scriptNumberBytes
  dsimp only
  rw [hlen, htake, hget, signBit_ne_zero]
  by_cases hsign : 128 ≤ top.toNat
  · have hrev : (init ++ [top] ++ [(0x00 : UInt8)]).reverse = 0x00 :: top :: init.reverse := by simp
    rw [if_pos (decide_eq_true hsign)]
    refine ⟨?_, ?_, by simp, by simp; omega⟩
    · rw [Bitcoin.minimalNum, hrev]
      simp [hsign]
    · rw [Bitcoin.scriptNum_snoc _ (by decide), Bitcoin.decode_snoc, hdecode]
      simp
  · have hrev : (init ++ [top]).reverse = top :: init.reverse := by simp
    have hmod : top.toNat % 128 ≠ 0 := by omega
    rw [if_neg (by simpa using hsign), List.append_nil]
    refine ⟨?_, ?_, by simp, by simp; omega⟩
    · rw [Bitcoin.minimalNum, hrev]
      cases init.reverse with
      | nil => exact bne_iff_ne.mpr hmod
      | cons next rest => simp [hmod]
    · rw [Bitcoin.scriptNum_snoc _ (by omega), hdecode]

/-- What `push_script_number` appends is the direct push of those bytes. -/
theorem pushScriptNumber_eq (n : Nat) :
    pushScriptNumber n = UInt8.ofNat (scriptNumberBytes n).length :: scriptNumberBytes n := by
  have hlen : (LittleEndian.encode 4 n).length = 4 := LittleEndian.length_encode 4 n
  have htrim := trimmedLen_spec (LittleEndian.encode 4 n) 4 (by omega) (by omega)
  unfold pushScriptNumber scriptNumberBytes
  dsimp only
  rw [hlen]
  generalize trimmedLen (LittleEndian.encode 4 n) 4 = len at htrim
  have htake : ((LittleEndian.encode 4 n).take len).length = len := by
    rw [List.length_take, hlen]
    omega
  split_ifs with hpad
  · rw [hpad, List.length_append, htake]
    rfl
  · rw [Bool.not_eq_true] at hpad
    rw [hpad, List.append_nil, List.append_nil, htake]
    rfl

/-! ## The script -/

/-- The documented template, with the bytes of the timelock. -/
def template (protocolPubkey userPubkey timelock : Bytes) : List Element :=
  [.op OP_IF,
    .push protocolPubkey, .op OP_CHECKSIGVERIFY,
    .push userPubkey, .op OP_CHECKSIG,
   .op OP_ELSE,
    .push timelock, .op OP_CHECKLOCKTIMEVERIFY, .op OP_DROP,
    .push userPubkey, .op OP_CHECKSIG,
   .op OP_ENDIF]

/-- The bytes of the redeem script, nested to the right. -/
theorem redeemScript_eq (p u : BytesN 33) (h : Nat) :
    redeemScript p u h =
      OP_IF :: PUSH_33_BYTES :: (p.1 ++ OP_CHECKSIGVERIFY :: PUSH_33_BYTES :: (u.1 ++ OP_CHECKSIG ::
        OP_ELSE :: UInt8.ofNat (scriptNumberBytes h).length :: (scriptNumberBytes h ++
          OP_CHECKLOCKTIMEVERIFY :: OP_DROP :: PUSH_33_BYTES :: (u.1 ++ [OP_CHECKSIG, OP_ENDIF])))) := by
  unfold redeemScript
  rw [pushScriptNumber_eq]
  simp only [List.append_assoc, List.cons_append, List.nil_append]

theorem length_redeemScript (p u : BytesN 33) (h : Nat) :
    (redeemScript p u h).length = 111 + (scriptNumberBytes h).length := by
  rw [redeemScript_eq]
  simp only [List.length_cons, List.length_append, p.2, u.2, List.length_nil]
  omega

theorem parse_key (k : BytesN 33) (rest : Bytes) :
    Bitcoin.parse (PUSH_33_BYTES :: (k.1 ++ rest)) = (Bitcoin.parse rest).map (.push k.1 :: ·) := by
  have hk : PUSH_33_BYTES = UInt8.ofNat k.1.length := by rw [k.2]; rfl
  rw [hk, Bitcoin.parse_direct (by rw [k.2]; decide)]

/-- The redeem script parses to the template. -/
theorem parse_redeemScript (p u : BytesN 33) {h : Nat} (h1 : 1 ≤ h) (hmax : h ≤ U32_MAX) :
    Bitcoin.parse (redeemScript p u h) = some (template p.1 u.1 (scriptNumberBytes h)) := by
  obtain ⟨-, -, -, hlen⟩ := scriptNumberBytes_spec h1 hmax
  rw [redeemScript_eq, Bitcoin.parse_op (by decide), parse_key, Bitcoin.parse_op (by decide),
    parse_key, Bitcoin.parse_op (by decide), Bitcoin.parse_op (by decide),
    Bitcoin.parse_direct (by omega), Bitcoin.parse_op (by decide), Bitcoin.parse_op (by decide),
    parse_key, Bitcoin.parse_op (by decide), Bitcoin.parse_op (by decide), Bitcoin.parse_nil]
  rfl

theorem minimalPush_key (k : BytesN 33) : Bitcoin.minimalPush k.1 = PUSH_33_BYTES :: k.1 := by
  rw [Bitcoin.minimalPush_direct (by rw [k.2]; decide) (by rw [k.2]; decide), k.2]
  rfl

/-- A timelock of at least two bytes is pushed minimally, so the script is the compiled template. -/
theorem redeemScript_eq_compile (p u : BytesN 33) {h : Nat} (h2 : 2 ≤ (scriptNumberBytes h).length)
    (h5 : (scriptNumberBytes h).length ≤ 5) :
    redeemScript p u h = Bitcoin.compile (template p.1 u.1 (scriptNumberBytes h)) := by
  rw [redeemScript_eq]
  simp only [template, Bitcoin.compile, List.flatMap_cons, List.flatMap_nil, Element.bytes,
    minimalPush_key, Bitcoin.minimalPush_direct h2 (h5.trans (by decide)), List.cons_append,
    List.nil_append]

/-- Minimal spellings of large numbers are long. -/
theorem two_le_length_scriptNumberBytes {n : Nat} (h : 128 ≤ n) (hn : n ≤ U32_MAX) :
    2 ≤ (scriptNumberBytes n).length := by
  obtain ⟨-, hnum, h1, -⟩ := scriptNumberBytes_spec (by omega) hn
  by_contra hshort
  have hlen : (scriptNumberBytes n).length = 1 := by omega
  have hlt := Bitcoin.scriptNum_lt (b := scriptNumberBytes n) (by omega)
  obtain ⟨init, top, -, -, hdecode⟩ := Bitcoin.scriptNum_pos (b := scriptNumberBytes n) (by omega)
  rw [hlen] at hlt
  omega

/-! ## The parameters of a script -/

/-- Zero is pushed as one byte, which is not its minimal spelling. -/
theorem scriptNum_scriptNumberBytes {n : Nat} (hn : n ≤ U32_MAX) :
    Bitcoin.scriptNum (scriptNumberBytes n) = n ∧ (scriptNumberBytes n).length ≤ 5 := by
  rcases Nat.eq_zero_or_pos n with rfl | h1
  · decide
  · obtain ⟨-, hnum, -, hlen⟩ := scriptNumberBytes_spec h1 hn
    exact ⟨hnum, hlen⟩

/-- A key at the front of equal byte strings. -/
theorem key_append_inj {k k' : BytesN 33} {as bs : Bytes} (h : k.1 ++ as = k'.1 ++ bs) :
    k = k' ∧ as = bs := by
  obtain ⟨hk, hrest⟩ := List.append_inj h (by rw [k.2, k'.2])
  exact ⟨Subtype.ext hk, hrest⟩

/-- The script is read from the left: each key has its length, and the number its length byte. -/
theorem redeemScript_injective {p p' u u' : BytesN 33} {h h' : Nat} (hmax : h ≤ U32_MAX)
    (hmax' : h' ≤ U32_MAX) (heq : redeemScript p u h = redeemScript p' u' h') :
    p = p' ∧ u = u' ∧ h = h' := by
  obtain ⟨hnum, hlen⟩ := scriptNum_scriptNumberBytes hmax
  obtain ⟨hnum', hlen'⟩ := scriptNum_scriptNumberBytes hmax'
  rw [redeemScript_eq, redeemScript_eq] at heq
  simp only [List.cons.injEq, true_and] at heq
  obtain ⟨rfl, hsecond⟩ := key_append_inj heq
  simp only [List.cons.injEq, true_and] at hsecond
  obtain ⟨rfl, hpush⟩ := key_append_inj hsecond
  simp only [List.cons.injEq, true_and] at hpush
  obtain ⟨hsize, hrest⟩ := hpush
  have hlength : (scriptNumberBytes h).length = (scriptNumberBytes h').length := by
    have := congrArg UInt8.toNat hsize
    rw [UInt8.toNat_ofNat', UInt8.toNat_ofNat'] at this
    omega
  obtain ⟨hbytes, -⟩ := List.append_inj hrest hlength
  rw [hbytes, hnum'] at hnum
  exact ⟨rfl, rfl, Int.ofNat.inj hnum.symm⟩

/-- The redeem script determines its keys and its timelock, which it pushes as the minimal spelling of
a number that is not negative; where SHA-256 does not collide on two scripts, so does the scriptPubKey
that a deposit must carry. -/
theorem redeem_script_determines (C : Crypto) (p p' u u' : BytesN 33) {h h' : Nat}
    (hmax : h ≤ U32_MAX) (hmax' : h' ≤ U32_MAX) :
    (redeemScript p u h = redeemScript p' u' h' → p = p' ∧ u = u' ∧ h = h') ∧
      (1 ≤ h → ∃ b, Bitcoin.parse (redeemScript p u h) = some (template p.1 u.1 b) ∧
        pushScriptNumber h = UInt8.ofNat b.length :: b ∧ b.length ≤ 5 ∧
        Bitcoin.minimalNum b = true ∧ Bitcoin.scriptNum b = h) ∧
      ((C.sha256 (redeemScript p u h) = C.sha256 (redeemScript p' u' h') →
          redeemScript p u h = redeemScript p' u' h') →
        p2wshScriptPubkey C p u h = p2wshScriptPubkey C p' u' h' → p = p' ∧ u = u' ∧ h = h') := by
  refine ⟨redeemScript_injective hmax hmax', fun h1 => ?_, fun hfree heq => ?_⟩
  · obtain ⟨hmin, hnum, -, hlen⟩ := scriptNumberBytes_spec h1 hmax
    exact ⟨_, parse_redeemScript p u h1 hmax, pushScriptNumber_eq h, hlen, hmin, hnum⟩
  · unfold p2wshScriptPubkey at heq
    exact redeemScript_injective hmax hmax' (hfree (Subtype.ext (List.append_cancel_left heq)))

/-- The generator of secp256k1, as a key. -/
def generatorKey : BytesN 33 :=
  bytesN 33 0x0279be667ef9dcbbac55a06295ce870b07029bfcdb2dce28d959f2815b16f81798

/-- A timelock whose top bit needs the zero pad. -/
theorem redeem_script_determines_padded :
    ∃ b, Bitcoin.parse (redeemScript generatorKey generatorKey 8388608)
        = some (template generatorKey.1 generatorKey.1 b) ∧
      pushScriptNumber 8388608 = UInt8.ofNat b.length :: b ∧ b.length ≤ 5 ∧
      Bitcoin.minimalNum b = true ∧ Bitcoin.scriptNum b = 8388608 := by
  have hdetermines := @redeem_script_determines
    { sha256 := sha256, secp256k1Recover := fun _ _ _ => none }
    generatorKey generatorKey generatorKey generatorKey 8388608 8388608 (by decide) (by decide)
  exact hdetermines.2.1 (by decide)

end Writz

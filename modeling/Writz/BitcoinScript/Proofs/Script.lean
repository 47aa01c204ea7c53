import Writz.SpvTypes.Proofs.Script
import Writz.BitcoinScript.Script
import Writz.Frontend.Address

/-!
# Proofs: one script on both sides

The two TypeScript builders compile the template with the minimal spelling of the timelock, which is
the one the contract's encoder writes.
-/

namespace Writz

open Bitcoin (Element)

variable {B : Node.BitcoinJs} {C : Crypto}

/-- There is one minimal spelling of the timelock. -/
theorem numberEncode_eq (hB : B.FollowsRules C) {h : Nat} (h1 : 1 ≤ h) (hmax : h ≤ U32_MAX) :
    B.numberEncode h = scriptNumberBytes h := by
  obtain ⟨hmin, hnum⟩ := hB.numberEncode h hmax
  obtain ⟨hmin', hnum', -, -⟩ := scriptNumberBytes_spec h1 hmax
  exact Bitcoin.minimalNum_unique hmin hmin' (by omega) (hnum.trans hnum'.symm)

/-- The library compiles the template to the contract's script. -/
theorem compile_template (hB : B.FollowsRules C) (p u : BytesN 33) {h : Nat} (h1 : 128 ≤ h)
    (hmax : h ≤ U32_MAX) :
    B.compile (template p.1 u.1 (B.numberEncode h)) = .ok (redeemScript p u h) := by
  obtain ⟨-, -, -, h5⟩ := scriptNumberBytes_spec (n := h) (by omega) hmax
  have h2 := two_le_length_scriptNumberBytes h1 hmax
  rw [numberEncode_eq hB (by omega) hmax, redeemScript_eq_compile p u h2 h5]
  refine hB.compile _ fun data hdata => ?_
  simp only [template, List.mem_cons, Element.push.injEq, reduceCtorEq, List.not_mem_nil, or_false,
    false_or] at hdata
  have hp := p.2
  have hu := u.2
  rcases hdata with rfl | rfl | rfl | rfl <;> omega

theorem buildRedeemScript_eq (hB : B.FollowsRules C) (p u : BytesN 33) {h : Nat}
    (hmin : 100000 ≤ h) (hmax : h ≤ U32_MAX) :
    BitcoinScript.buildRedeemScript B p.1 u.1 h = .ok (redeemScript p u h) := by
  have hcompile := compile_template hB p u (by omega) hmax
  have hheight : ¬ h < BitcoinScript.MIN_TIMELOCK_HEIGHT := not_lt.mpr hmin
  simp only [BitcoinScript.buildRedeemScript, Node.throwIf, failIf, p.2, u.2, if_neg hheight,
    ne_eq, not_true_eq_false, if_false]
  exact hcompile

theorem frontendBuildRedeemScript_eq (hB : B.FollowsRules C) (p u : BytesN 33) {h : Nat}
    (hmin : 100000 ≤ h) (hmax : h ≤ U32_MAX) :
    Frontend.buildRedeemScript B p.1 u.1 h = .ok (redeemScript p u h) := by
  have hcompile := compile_template hB p u (by omega) hmax
  simp only [Frontend.buildRedeemScript, Node.throwIf, failIf, p.2, u.2, if_neg (not_lt.mpr hmin),
    ne_eq, not_true_eq_false, if_false]
  exact hcompile

/-- A timelock below the minimum is refused. -/
theorem buildRedeemScript_low (p u : BytesN 33) {h : Nat} (hlow : h < 100000) :
    BitcoinScript.buildRedeemScript B p.1 u.1 h
      = .error "timelockHeight must be ≥ 100000".toList ∧
    Frontend.buildRedeemScript B p.1 u.1 h = .error (Frontend.timelockMessage h).toList := by
  have hheight : h < BitcoinScript.MIN_TIMELOCK_HEIGHT := hlow
  constructor
  · simp only [BitcoinScript.buildRedeemScript, Node.throwIf, failIf, p.2, u.2, if_pos hheight,
      ne_eq, not_true_eq_false, if_false]
    rfl
  · simp only [Frontend.buildRedeemScript, Node.throwIf, failIf, p.2, u.2, if_pos hlow, ne_eq,
      not_true_eq_false, if_false]
    rfl

/-- The library's P2WSH output of the redeem script is the contract's scriptPubKey. -/
theorem p2wsh_redeemScript (hB : B.FollowsRules C) (p u : BytesN 33) {h : Nat} (h1 : 1 ≤ h)
    (hmax : h ≤ U32_MAX) (network : Node.Network) :
    ∃ address, B.p2wsh (redeemScript p u h) network
      = .ok { address := some address, output := some (p2wshScriptPubkey C p u h) } := by
  obtain ⟨-, -, -, h5⟩ := scriptNumberBytes_spec h1 hmax
  have hlen := length_redeemScript p u h
  have hparse := parse_redeemScript p u h1 hmax
  obtain ⟨address, hp2wsh⟩ := hB.p2wsh _ network _ hparse (by simp [template])
    (by simp [template]) (by omega)
  exact ⟨address, hp2wsh⟩

/-- The app derives the contract's scriptPubKey. -/
theorem deriveP2WSH_eq (hB : B.FollowsRules C) (p u : BytesN 33) {h : Nat} (hmin : 100000 ≤ h)
    (hmax : h ≤ U32_MAX) (network : Node.Network) {pHex uHex : Node.Text}
    (hp : Hex.decode pHex = some p.1) (hu : Hex.decode uHex = some u.1) :
    ∃ address, Frontend.deriveP2WSH B network pHex uHex h
      = .ok { address, scriptPubKey := p2wshScriptPubkey C p u h
              redeemScript := redeemScript p u h } := by
  have hfrontend := frontendBuildRedeemScript_eq hB p u hmin hmax
  obtain ⟨address, hp2wsh⟩ := p2wsh_redeemScript hB p u (by omega) hmax network
  refine ⟨address, ?_⟩
  simp only [Frontend.deriveP2WSH, Node.fromHex_of_decode hp, Node.fromHex_of_decode hu, hfrontend,
    hp2wsh, bind, Except.bind]

/-- For every timelock the TypeScript side accepts, both builders give the contract's script, both
derivations its scriptPubKey, and the script parses to the twelve elements of the template with the
timelock's number. -/
theorem scripts_agree (hB : B.FollowsRules C) (p u : BytesN 33) {h : Nat} (hmin : 100000 ≤ h)
    (hmax : h ≤ U32_MAX) :
    BitcoinScript.buildRedeemScript B p.1 u.1 h = .ok (redeemScript p u h) ∧
    Frontend.buildRedeemScript B p.1 u.1 h = .ok (redeemScript p u h) ∧
    (∀ network, ∃ address, BitcoinScript.deriveDepositAddress B ⟨p.1, u.1, h⟩ network
      = .ok { address, scriptPubKey := p2wshScriptPubkey C p u h
              redeemScript := redeemScript p u h }) ∧
    (∀ network pHex uHex, Hex.decode pHex = some p.1 → Hex.decode uHex = some u.1 →
      ∃ address, Frontend.deriveP2WSH B network pHex uHex h
        = .ok { address, scriptPubKey := p2wshScriptPubkey C p u h
                redeemScript := redeemScript p u h }) ∧
    ∃ timelock, Bitcoin.parse (redeemScript p u h) = some
        [.op Bitcoin.OP_IF, .push p.1, .op Bitcoin.OP_CHECKSIGVERIFY, .push u.1,
          .op Bitcoin.OP_CHECKSIG, .op Bitcoin.OP_ELSE, .push timelock,
          .op Bitcoin.OP_CHECKLOCKTIMEVERIFY, .op Bitcoin.OP_DROP, .push u.1,
          .op Bitcoin.OP_CHECKSIG, .op Bitcoin.OP_ENDIF] ∧
      Bitcoin.scriptNum timelock = h := by
  have hscript := buildRedeemScript_eq hB p u hmin hmax
  have hfrontend := frontendBuildRedeemScript_eq hB p u hmin hmax
  refine ⟨hscript, hfrontend, fun network => ?_,
    fun network pHex uHex => deriveP2WSH_eq hB p u hmin hmax network, ?_⟩
  · obtain ⟨address, hp2wsh⟩ := p2wsh_redeemScript hB p u (by omega) hmax network
    refine ⟨address, ?_⟩
    simp only [BitcoinScript.deriveDepositAddress, hscript, hp2wsh, bind, Except.bind]
  · obtain ⟨-, hnum, -, -⟩ := scriptNumberBytes_spec (n := h) (by omega) hmax
    exact ⟨scriptNumberBytes h, parse_redeemScript p u (by omega) hmax, hnum⟩

/-! ## The vectors of the contract's tests -/

namespace ScriptVector

/-- SHA-256; nothing here recovers keys. -/
def crypto : Crypto where
  sha256 := sha256
  secp256k1Recover _ _ _ := none

/-- `script.number.encode` on a number that is not negative: as many bytes as leave the sign bit
free. -/
def numberEncode (n : Nat) : Bytes :=
  let size := if n > 0x7fffffff then 5 else if n > 0x7fffff then 4 else if n > 0x7fff then 3
    else if n > 0x7f then 2 else if n > 0 then 1 else 0
  LittleEndian.encode size n

/-- The testnet address of the script with the padded timelock. -/
def address : Node.Text := "tb1qjgpmcze2zqs897635hr9tve0c0mw3gcrklalsmzdx86hdy0j897s5skgcv".toList

def lib : Node.BitcoinJs where
  compile chunks := .ok (Bitcoin.compile chunks)
  numberEncode := numberEncode
  p2wsh script _ :=
    .ok { address := some address, output := some ([0x00, 0x20] ++ (sha256 script).1) }

theorem numberEncode_spec {n : Nat} (h : n ≤ U32_MAX) :
    Bitcoin.minimalNum (numberEncode n) = true ∧ Bitcoin.scriptNum (numberEncode n) = n := by
  unfold U32_MAX at h
  rcases Nat.eq_zero_or_pos n with rfl | hpos
  · exact ⟨rfl, rfl⟩
  unfold numberEncode
  split_ifs <;>
    simp only [LittleEndian.encode, Bitcoin.minimalNum, Bitcoin.scriptNum, LittleEndian.decode,
      List.reverse_cons, List.reverse_nil, List.nil_append, List.cons_append,
      LittleEndian.toNat_ofNat_mod, Bool.or_eq_true, bne_iff_ne, decide_eq_true_iff, ne_eq] <;>
    (constructor; · omega) <;> (split_ifs <;> omega)

theorem lib_followsRules : lib.FollowsRules crypto where
  compile _ _ := rfl
  numberEncode _ h := numberEncode_spec h
  p2wsh _ _ _ _ _ _ _ := ⟨address, rfl⟩

/-- The generator, as the protocol's key. -/
def protocol : BytesN 33 :=
  bytesN 33 0x0279be667ef9dcbbac55a06295ce870b07029bfcdb2dce28d959f2815b16f81798

/-- Its double, as the user's key. -/
def user : BytesN 33 :=
  bytesN 33 0x02c6047f9441ed7d6d3045406e95c07cd85c778e4b8cef3ca7abac09b95c709ee5

end ScriptVector

open ScriptVector in
/-- A timelock whose top bit needs the zero pad. -/
theorem scripts_agree_padded :
    (∃ address, BitcoinScript.deriveDepositAddress lib ⟨protocol.1, user.1, 8388608⟩ .testnet
      = .ok { address
              scriptPubKey :=
                bytes 34 0x00209203bc0b2a102072fb51a5c655b32fc3f6e8a303b7fbf86c4d31f57691f2397d
              redeemScript := redeemScript protocol user 8388608 }) ∧
    ∃ timelock, Bitcoin.parse (redeemScript protocol user 8388608) = some
        [.op Bitcoin.OP_IF, .push protocol.1, .op Bitcoin.OP_CHECKSIGVERIFY, .push user.1,
          .op Bitcoin.OP_CHECKSIG, .op Bitcoin.OP_ELSE, .push timelock,
          .op Bitcoin.OP_CHECKLOCKTIMEVERIFY, .op Bitcoin.OP_DROP, .push user.1,
          .op Bitcoin.OP_CHECKSIG, .op Bitcoin.OP_ENDIF] ∧
      Bitcoin.scriptNum timelock = 8388608 := by
  obtain ⟨-, -, hderive, -, htimelock⟩ := scripts_agree lib_followsRules protocol user
    (h := 8388608) (by decide) (by decide)
  have hspk : p2wshScriptPubkey crypto protocol user 8388608
      = bytes 34 0x00209203bc0b2a102072fb51a5c655b32fc3f6e8a303b7fbf86c4d31f57691f2397d := by
    decide +kernel
  refine ⟨?_, htimelock⟩
  rw [← hspk]
  exact hderive .testnet

end Writz

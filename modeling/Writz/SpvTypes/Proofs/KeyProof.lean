import Mathlib.Data.Bool.AllAny
import Writz.SpvTypes.KeyProof
import Writz.BitcoinScript.Message
import Writz.Frontend.KeyProof
import Writz.Bitcoin.Transaction
import Writz.Util.Hex
import Writz.Util.MerkleTree

/-!
# Proofs: what a key proof binds

The message names the contract, the depositor and the transaction, and no two of its namings read the
same; its framing and its digest keep them apart. The wallet side builds the same bytes.
-/

namespace Writz

open Bitcoin (compactSize)

/-! ## The parts of the message -/

/-- The base-32 alphabet of strkey texts. -/
def STRKEY_ALPHABET : Bytes := ascii "ABCDEFGHIJKLMNOPQRSTUVWXYZ234567"

/-- What every strkey text is: characters of the base-32 alphabet, no more than the contract's
buffer takes. -/
structure Address.IsStrkey (a : Address) : Prop where
  length_le : a.strkey.length ≤ 128
  alphabet : ∀ b ∈ a.strkey, b ∈ STRKEY_ALPHABET

/-- The hex digits of the message are those of the byte. -/
theorem hexOfByte_eq (b : UInt8) :
    hexOfByte b = (Hex.encodeByte b).map fun c => UInt8.ofNat c.toNat := by
  have hhigh : (b >>> 4).toNat = b.toNat / 16 := by
    rw [UInt8.toNat_shiftRight, Nat.shiftRight_eq_div_pow]
    rfl
  have hlow : (b &&& 0x0f).toNat = b.toNat % 16 := by
    rw [UInt8.toNat_and]
    exact Nat.and_two_pow_sub_one_eq_mod b.toNat 4
  have hdigit : ∀ v < 16, HEX.getD v 0 = UInt8.ofNat (Hex.digit v).toNat := by decide
  have hb : b.toNat < 256 := b.toNat_lt
  rw [hexOfByte, hhigh, hlow, hdigit _ (by omega), hdigit _ (by omega)]
  rfl

theorem flatMap_hexOfByte (bs : Bytes) :
    bs.flatMap hexOfByte = (Hex.encode bs).map fun c => UInt8.ofNat c.toNat := by
  rw [Hex.encode, List.map_flatMap]
  exact List.flatMap_congr fun b _ => hexOfByte_eq b

/-- The hex digits are ASCII. -/
theorem hex_ascii (bs : Bytes) : ∀ c ∈ Hex.encode bs, c.toNat < 0x80 := by
  have hdigit : ∀ v < 16, (Hex.digit v).toNat < 0x80 := by decide
  intro c hc
  obtain ⟨b, -, hb⟩ := List.mem_flatMap.mp hc
  have hlt : b.toNat < 256 := b.toNat_lt
  simp only [Hex.encodeByte, List.mem_cons, List.not_mem_nil, or_false] at hb
  rcases hb with rfl | rfl
  · exact hdigit _ (by omega)
  · exact hdigit _ (by omega)

theorem utf8_hex (bs : Bytes) : Node.utf8 (Hex.encode bs) = bs.flatMap hexOfByte := by
  rw [flatMap_hexOfByte, Node.utf8_of_ascii (hex_ascii bs)]

theorem flatMap_hexOfByte_injective {as bs : Bytes}
    (h : as.flatMap hexOfByte = bs.flatMap hexOfByte) : as = bs := by
  have hchar : ∀ as : Bytes, ((as.flatMap hexOfByte).map fun b => Char.ofNat b.toNat)
      = Hex.encode as := by
    intro as
    rw [flatMap_hexOfByte, List.map_map]
    refine (List.map_congr_left fun c hc => ?_).trans (List.map_id _)
    have hlt := hex_ascii as c hc
    change Char.ofNat (UInt8.ofNat c.toNat).toNat = c
    rw [UInt8.toNat_ofNat', Nat.mod_eq_of_lt (by omega), Char.ofNat_toNat]
  apply Hex.encode_injective
  rw [← hchar as, ← hchar bs, h]

/-! ## The message -/

/-- Text up to the first occurrence of a separator is determined. -/
theorem append_sep_inj {α : Type} {sep : α} : ∀ {x x' z z' : List α}, sep ∉ x → sep ∉ x' →
    x ++ sep :: z = x' ++ sep :: z' → x = x' ∧ z = z'
  | [], [], z, z', _, _, h => ⟨rfl, (List.cons.inj h).2⟩
  | [], a :: x', z, z', _, hx', h => by
    have ha : sep = a := (List.cons.inj h).1
    exact absurd (ha ▸ List.mem_cons_self) hx'
  | a :: x, [], z, z', hx, _, h => by
    have ha : a = sep := (List.cons.inj h).1
    exact absurd (ha ▸ List.mem_cons_self) hx
  | a :: x, b :: x', z, z', hx, hx', h => by
    obtain ⟨hab, htail⟩ := List.cons.inj h
    obtain ⟨hx, hz⟩ := append_sep_inj (List.not_mem_of_not_mem_cons hx)
      (List.not_mem_of_not_mem_cons hx') htail
    rw [hab, hx]
    exact ⟨rfl, hz⟩

/-- The three parts can be read off the message: no strkey text has the line break that ends it. -/
theorem depositMessage_injective {contract contract' depositor depositor' : Address}
    {txid txid' : BytesN 32} (hc : contract.IsStrkey) (hc' : contract'.IsStrkey)
    (hd : depositor.IsStrkey) (hd' : depositor'.IsStrkey)
    (h : depositMessage contract depositor txid = depositMessage contract' depositor' txid') :
    contract = contract' ∧ depositor = depositor' ∧ txid = txid' := by
  have hnl : (0x0a : UInt8) ∉ STRKEY_ALPHABET := by decide
  have hne : ∀ {a : Address}, a.IsStrkey → (0x0a : UInt8) ∉ a.strkey := fun ha hm =>
    hnl (ha.alphabet _ hm)
  have hdep : ascii "\ndepositor:" = 0x0a :: ascii "depositor:" := by decide
  have htx : ascii "\ntxid:" = 0x0a :: ascii "txid:" := by decide
  simp only [depositMessage, hdep, htx, List.append_assoc, List.append_cancel_left_eq,
    List.cons_append] at h
  obtain ⟨hcontract, h⟩ := append_sep_inj (hne hc) (hne hc') h
  rw [List.append_cancel_left_eq] at h
  obtain ⟨hdepositor, h⟩ := append_sep_inj (hne hd) (hne hd') h
  rw [List.append_cancel_left_eq] at h
  have htxid := List.reverse_injective (flatMap_hexOfByte_injective h)
  refine ⟨?_, ?_, Subtype.ext htxid⟩
  · cases contract
    cases contract'
    exact congrArg _ hcontract
  · cases depositor
    cases depositor'
    exact congrArg _ hdepositor

theorem length_flatMap_hexOfByte (bs : Bytes) : (bs.flatMap hexOfByte).length = 2 * bs.length := by
  induction bs with
  | nil => rfl
  | cons b bs ih =>
    rw [List.flatMap_cons, List.length_append, ih, List.length_cons]
    change 2 + 2 * bs.length = _
    omega

theorem length_depositMessage (contract depositor : Address) (txid : BytesN 32) :
    (depositMessage contract depositor txid).length
      = 104 + contract.strkey.length + depositor.strkey.length := by
  have h1 : (ascii "Writz deposit\ncontract:").length = 23 := by decide
  have h2 : (ascii "\ndepositor:").length = 11 := by decide
  have h3 : (ascii "\ntxid:").length = 6 := by decide
  simp only [depositMessage, List.length_append, length_flatMap_hexOfByte, List.length_reverse,
    txid.2, h1, h2, h3]
  omega

/-! ## The framing and the digest -/

/-- The framing of a message, the bytes that are hashed first. -/
def framed (msg : Bytes) : Bytes :=
  pushVarint MAGIC.length ++ MAGIC ++ pushVarint msg.length ++ msg

theorem signedMessageDigest_eq (C : Crypto) (msg : Bytes) :
    signedMessageDigest C msg = C.sha256 (C.sha256 (framed msg)).1 := rfl

/-- The size prefix is a CompactSize. -/
theorem pushVarint_eq {n : Nat} (h : n ≤ 0xffffffff) : pushVarint n = compactSize n := by
  unfold pushVarint compactSize
  split_ifs
  · rfl
  · rfl
  · rfl

theorem framed_injective {m m' : Bytes} (hm : m.length ≤ 0xffffffff) (hm' : m'.length ≤ 0xffffffff)
    (h : framed m = framed m') : m = m' := by
  simp only [framed, List.append_assoc, List.append_cancel_left_eq] at h
  rw [pushVarint_eq hm, pushVarint_eq hm'] at h
  exact (Bitcoin.compactSize_append_inj (by omega) (by omega) h).2

/-- The byte strings hashed for a message. -/
def hashedFor (C : Crypto) (msg : Bytes) : List Bytes := [framed msg, (C.sha256 (framed msg)).1]

/-- Without a collision among the strings hashed for two messages, equal digests are of equal
messages. -/
theorem signedMessageDigest_injective {C : Crypto} {m m' : Bytes} (hm : m.length ≤ 0xffffffff)
    (hm' : m'.length ≤ 0xffffffff)
    (hfree : MerkleTree.CollisionFree C.sha256 (hashedFor C m ++ hashedFor C m'))
    (h : signedMessageDigest C m = signedMessageDigest C m') : m = m' := by
  rw [signedMessageDigest_eq, signedMessageDigest_eq] at h
  have hinner := hfree _ (by simp [hashedFor]) _ (by simp [hashedFor]) h
  have houter := hfree _ (by simp [hashedFor]) _ (by simp [hashedFor]) (Subtype.ext hinner)
  exact framed_injective hm hm' houter

/-! ## The wallet side -/

/-- The text of an address, as the app holds it. -/
def Address.text (a : Address) : Node.Text := a.strkey.map fun b => Char.ofNat b.toNat

theorem Address.IsStrkey.utf8_text {a : Address} (h : a.IsStrkey) : Node.utf8 a.text = a.strkey := by
  have hascii : ∀ b ∈ STRKEY_ALPHABET, b.toNat < 0x80 ∧ (Char.ofNat b.toNat).toNat = b.toNat :=
    List.all_iff_forall_prop.mp (by decide)
  have htext : ∀ c ∈ a.text, c.toNat < 0x80 := by
    intro c hc
    obtain ⟨b, hb, rfl⟩ := List.mem_map.mp hc
    obtain ⟨hlt, hchar⟩ := hascii b (h.alphabet b hb)
    rw [hchar]
    exact hlt
  rw [Node.utf8_of_ascii htext, text, List.map_map]
  refine (List.map_congr_left fun b hb => ?_).trans (List.map_id _)
  obtain ⟨-, hchar⟩ := hascii b (h.alphabet b hb)
  change UInt8.ofNat (Char.ofNat b.toNat).toNat = b
  rw [hchar, UInt8.ofNat_toNat]

/-- The text `hex` spells the txid in display order, in digits of either case. -/
def ShowsTxid (hex : Node.Text) (txid : BytesN 32) : Prop := Hex.decode hex = some txid.1.reverse

theorem utf8_depositKeyMessage {contract depositor : Address} {txid : BytesN 32} {hex : Node.Text}
    (hc : contract.IsStrkey) (hd : depositor.IsStrkey) (hx : ShowsTxid hex txid) :
    Node.utf8 (Frontend.depositKeyMessage contract.text depositor.text hex)
      = depositMessage contract depositor txid := by
  have hlower : Node.toLowerCase hex = Hex.encode txid.1.reverse := Hex.encode_of_decode hx
  have h1 : Node.utf8 "Writz deposit\ncontract:".toList = ascii "Writz deposit\ncontract:" :=
    Node.utf8_of_ascii (List.all_iff_forall_prop.mp (by decide))
  have h2 : Node.utf8 "\ndepositor:".toList = ascii "\ndepositor:" :=
    Node.utf8_of_ascii (List.all_iff_forall_prop.mp (by decide))
  have h3 : Node.utf8 "\ntxid:".toList = ascii "\ntxid:" :=
    Node.utf8_of_ascii (List.all_iff_forall_prop.mp (by decide))
  have hcontract := hc.utf8_text
  have hdepositor := hd.utf8_text
  unfold Frontend.depositKeyMessage depositMessage
  rw [hlower]
  generalize "Writz deposit\ncontract:".toList = t1 at *
  generalize "\ndepositor:".toList = t2 at *
  generalize "\ntxid:".toList = t3 at *
  simp only [Node.utf8_append, h1, h2, h3, hcontract, hdepositor, utf8_hex]

theorem scriptVarint_eq {n : Nat} (h : n ≤ 0xffffffff) :
    BitcoinScript.varint n = some (pushVarint n) := by
  unfold BitcoinScript.varint pushVarint
  split_ifs with h1 h2
  · rfl
  · rw [Node.writeUIntLE_of_lt (by omega)]
    rfl
  · rw [Node.writeUIntLE_of_lt (by omega)]
    rfl

theorem frontendVarint_eq {n : Nat} (h : n ≤ 0xffff) : Frontend.varint n = some (pushVarint n) := by
  unfold Frontend.varint pushVarint
  split_ifs with h1
  · rfl
  · rw [Node.writeUIntLE_of_lt (by omega)]
    rfl

theorem bitcoinMessageHash_eq (C : Crypto) {m : Node.Text} (h : (Node.utf8 m).length ≤ 0xffffffff) :
    BitcoinScript.bitcoinMessageHash C m = some (signedMessageDigest C (Node.utf8 m)) := by
  have hmagic : Node.utf8 BitcoinScript.MAGIC = MAGIC := by decide
  rw [BitcoinScript.bitcoinMessageHash, hmagic]
  simp only [scriptVarint_eq h, scriptVarint_eq (n := MAGIC.length) (by decide), Option.bind_eq_bind,
    Option.bind_some]
  rfl

theorem messageHash_eq (C : Crypto) {m : Node.Text} (h : (Node.utf8 m).length ≤ 0xffff) :
    Frontend.messageHash C m = some (signedMessageDigest C (Node.utf8 m)) := by
  have hmagic : Node.utf8 Frontend.MAGIC = MAGIC := by decide
  have hlen : Frontend.MAGIC.length = MAGIC.length := by decide
  rw [Frontend.messageHash, Frontend.signedMessageFrame, hmagic, hlen]
  simp only [frontendVarint_eq h, frontendVarint_eq (n := MAGIC.length) (by decide),
    Option.bind_eq_bind, Option.bind_some]
  rfl

/-- The wallet side's verification is the contract's, where recovery is the same. -/
theorem verifyBitcoinMessage_iff {C : Crypto} {recover : BitcoinScript.EccRecover}
    (hrec : ∀ d rs id, recover d rs id = (C.secp256k1Recover d rs id).map compress)
    {m : Node.Text} (h : (Node.utf8 m).length ≤ 0xffffffff) (sig : BytesN 65) (pubkey : BytesN 33) :
    BitcoinScript.verifyBitcoinMessage C recover m sig.1 pubkey.1 = true ↔
      signedBy C (Node.utf8 m) sig pubkey = some true := by
  unfold BitcoinScript.verifyBitcoinMessage BitcoinScript.recoverBitcoinMessagePubkey signedBy
  rw [dif_neg (not_not.mpr sig.2)]
  dsimp only
  by_cases hheader : 31 ≤ (sig.1.headD 0).toNat ∧ (sig.1.headD 0).toNat ≤ 42
  · rw [if_neg (by omega), if_neg (not_not.mpr hheader), bitcoinMessageHash_eq C h]
    simp only [Option.bind_eq_bind, Option.bind_some, hrec]
    cases hrecover : C.secp256k1Recover (signedMessageDigest C (Node.utf8 m)) (rsOf sig)
        (((sig.1.headD 0).toNat - 27) &&& 3) with
    | none =>
      simp only [rsOf, List.headD_eq_head?_getD, List.drop_one] at hrecover
      simp [hrecover]
    | some k =>
      simp only [rsOf, List.headD_eq_head?_getD, List.drop_one] at hrecover
      simp [hrecover, pubkey.2]
  · rw [if_pos (by omega), if_pos hheader]
    simp

/-! ## The binding -/

/-- No signature recovers to one key over two different digests of the list. -/
def RecoverySeparates (C : Crypto) (digests : List (BytesN 32)) : Prop :=
  ∀ d ∈ digests, ∀ d' ∈ digests, ∀ rs id k k', C.secp256k1Recover d rs id = some k →
    C.secp256k1Recover d' rs id = some k' → compress k = compress k' → d = d'

/-- An accepted signature recovers to the key. -/
theorem signedBy_eq_true {C : Crypto} {msg : Bytes} {sig : BytesN 65} {pubkey : BytesN 33}
    (h : signedBy C msg sig pubkey = some true) :
    ∃ k, C.secp256k1Recover (signedMessageDigest C msg) (rsOf sig)
      (((sig.1.headD 0).toNat - 27) &&& 3) = some k ∧ compress k = pubkey.1 := by
  unfold signedBy at h
  dsimp only at h
  split_ifs at h
  · split at h
    · cases h
    · next k hk => exact ⟨k, hk, eq_of_beq (Option.some.inj h)⟩
  · cases h

/-- Without a collision among the strings hashed, equal digests name the same contract, depositor and
transaction, so no signature proves a key under two namings; and the message and the digest are the
wallet side's. -/
theorem key_proof_binds {C : Crypto} {contract contract' depositor depositor' : Address}
    {txid txid' : BytesN 32} (hc : contract.IsStrkey) (hc' : contract'.IsStrkey)
    (hd : depositor.IsStrkey) (hd' : depositor'.IsStrkey)
    (hfree : MerkleTree.CollisionFree C.sha256 (hashedFor C (depositMessage contract depositor txid)
      ++ hashedFor C (depositMessage contract' depositor' txid'))) :
    (signedMessageDigest C (depositMessage contract depositor txid)
        = signedMessageDigest C (depositMessage contract' depositor' txid') →
      contract = contract' ∧ depositor = depositor' ∧ txid = txid') ∧
    (RecoverySeparates C [signedMessageDigest C (depositMessage contract depositor txid),
        signedMessageDigest C (depositMessage contract' depositor' txid')] →
      ∀ sig pubkey, signedBy C (depositMessage contract depositor txid) sig pubkey = some true →
        signedBy C (depositMessage contract' depositor' txid') sig pubkey = some true →
          contract = contract' ∧ depositor = depositor' ∧ txid = txid') ∧
    ∀ hex, ShowsTxid hex txid →
      let message := Frontend.depositKeyMessage contract.text depositor.text hex
      Node.utf8 message = depositMessage contract depositor txid ∧
        BitcoinScript.bitcoinMessageHash C message
          = some (signedMessageDigest C (depositMessage contract depositor txid)) ∧
        Frontend.messageHash C message
          = some (signedMessageDigest C (depositMessage contract depositor txid)) := by
  have hlen := length_depositMessage contract depositor txid
  have hlen' := length_depositMessage contract' depositor' txid'
  have hcl := hc.length_le
  have hcl' := hc'.length_le
  have hdl := hd.length_le
  have hdl' := hd'.length_le
  have hbinds : signedMessageDigest C (depositMessage contract depositor txid)
      = signedMessageDigest C (depositMessage contract' depositor' txid') →
        contract = contract' ∧ depositor = depositor' ∧ txid = txid' := fun h =>
    depositMessage_injective hc hc' hd hd'
      (signedMessageDigest_injective (by omega) (by omega) hfree h)
  refine ⟨hbinds, fun hsep sig pubkey hs hs' => hbinds ?_, fun hex hx => ?_⟩
  · obtain ⟨k, hk, hpub⟩ := signedBy_eq_true hs
    obtain ⟨k', hk', hpub'⟩ := signedBy_eq_true hs'
    exact hsep _ (by simp) _ (by simp) _ _ k k' hk hk' (hpub.trans hpub'.symm)
  · intro message
    have hutf8 : Node.utf8 message = depositMessage contract depositor txid :=
      utf8_depositKeyMessage hc hd hx
    refine ⟨hutf8, ?_, ?_⟩
    · rw [bitcoinMessageHash_eq C (by rw [hutf8]; omega), hutf8]
    · rw [messageHash_eq C (by rw [hutf8]; omega), hutf8]

/-! ## The shared vector -/

namespace KeyProofVector

/-- SHA-256; nothing here recovers keys. -/
def crypto : Crypto where
  sha256 := sha256
  secp256k1Recover _ _ _ := none

def contract : Address := ⟨ascii "CAQBLCAPGXXCZTJDAJLY7E4PTJYGR6CY4YWH4JSJKFXYIHW3GANP6RFM"⟩
def depositor : Address := ⟨ascii "GB2BSYQS3FRJ5LZSSIDF3ZCSG5MKWJT5SZ3OZO4QRCAMCR357YAVPTWT"⟩

/-- The txid, in display order. -/
def txidHex : Node.Text :=
  "E80765D874D4E31DA59B6F30617CF7018FE635F836A892DC671D77BCB7C1EE24".toList

def txid : BytesN 32 :=
  bytesN 32 0x24eec1b7bc771d67dc92a836f835e68f01f77c61306f9ba51de3d474d86507e8

theorem contract_isStrkey : contract.IsStrkey :=
  ⟨by decide, List.all_iff_forall_prop.mp (by decide)⟩
theorem depositor_isStrkey : depositor.IsStrkey :=
  ⟨by decide, List.all_iff_forall_prop.mp (by decide)⟩

end KeyProofVector

open KeyProofVector in
/-- The digest that the tests on both sides expect, built by the app from an uppercase txid; the same
account at another contract signs another digest. -/
theorem key_proof_binds_vector :
    BitcoinScript.bitcoinMessageHash crypto
        (Frontend.depositKeyMessage contract.text depositor.text txidHex)
      = some (bytesN 32 0x0125d670b399e17a6b05d0a323ec534376f94b089e5470a14bc25687e42099ee) ∧
    signedMessageDigest crypto (depositMessage contract depositor txid)
      ≠ signedMessageDigest crypto (depositMessage depositor depositor txid) := by
  have hfree : MerkleTree.CollisionFree crypto.sha256
      (hashedFor crypto (depositMessage contract depositor txid)
        ++ hashedFor crypto (depositMessage depositor depositor txid)) := by
    unfold MerkleTree.CollisionFree
    decide +kernel
  obtain ⟨hbinds, -, hwallet⟩ :=
    key_proof_binds contract_isStrkey depositor_isStrkey depositor_isStrkey depositor_isStrkey hfree
  have hshows : ShowsTxid txidHex txid := by
    unfold ShowsTxid
    decide +kernel
  have hdigest : signedMessageDigest crypto (depositMessage contract depositor txid)
      = bytesN 32 0x0125d670b399e17a6b05d0a323ec534376f94b089e5470a14bc25687e42099ee := by
    decide +kernel
  refine ⟨?_, fun h => absurd (hbinds h).1 (by decide)⟩
  rw [← hdigest]
  exact (hwallet txidHex hshows).2.1

end Writz

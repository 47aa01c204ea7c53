import Writz.Relayer.Cctp.Layout
import Writz.Node.Digits

/-!
# Proofs: the messages the relay completes

A text of at least 376 bytes has exactly one layout, whose fields are what the decoder reads.
-/

namespace Writz.Relayer.Cctp

open Node

/-! ## Hex -/

theorem strip0x_of_decode {text : Text} {bs : Bytes} (h : Hex.decode text = some bs) :
    strip0x text = text := by
  refine if_neg fun htake => ?_
  have hmem : 'x' ∈ text := List.mem_of_mem_take (by rw [htake]; decide)
  have hdigit := (Hex.digits_of_decode h).2 'x' hmem
  exact absurd hdigit (by decide)

theorem spells_iff {text : Text} {bs : Bytes} : Spells text bs ↔ Hex.decode (strip0x text) = some bs := by
  constructor
  · rintro (h | ⟨ds, rfl, h⟩)
    · rw [strip0x_of_decode h]
      exact h
    · exact h
  · intro h
    by_cases htake : text.take 2 = "0x".toList
    · rw [strip0x, if_pos htake] at h
      refine .inr ⟨text.drop 2, ?_, h⟩
      conv_lhs => rw [← List.take_append_drop 2 text, htake]
      rfl
    · rw [strip0x, if_neg htake] at h
      exact .inl h

theorem Spells.unique {text : Text} {as bs : Bytes} (ha : Spells text as) (hb : Spells text bs) :
    as = bs := by
  rw [spells_iff] at ha hb
  exact Option.some.inj (ha.symm.trans hb)

theorem hexToBytes_of_spells {text : Text} {bs : Bytes} (h : Spells text bs) :
    hexToBytes text = .ok bs := by
  rw [spells_iff] at h
  obtain ⟨hlen, hdigits⟩ := Hex.digits_of_decode h
  have hnot : ¬ ((strip0x text).length % 2 ≠ 0 ∨
      ¬ (strip0x text).all fun c => (Hex.value c).isSome) := by
    rintro (hodd | hbad)
    · exact hodd (by omega)
    · exact hbad (List.all_eq_true.mpr hdigits)
  unfold hexToBytes
  dsimp only
  rw [refuseIf, failIf, if_neg hnot, fromHex_of_decode h]
  rfl

/-- What spells no bytes is refused. -/
theorem hexToBytes_cases (text : Text) :
    (∃ bs, Spells text bs) ∨ ∃ message, hexToBytes text = .error (.refused message) := by
  by_cases hbad : (strip0x text).length % 2 ≠ 0 ∨
      ¬ (strip0x text).all fun c => (Hex.value c).isSome
  · refine .inr ⟨"the transfer message is not valid hex".toList, ?_⟩
    unfold hexToBytes
    dsimp only
    rw [refuseIf, failIf, if_pos hbad]
    rfl
  · obtain ⟨heven, hdigits⟩ := not_or.mp hbad
    obtain ⟨bs, hbs⟩ := Hex.exists_decode (not_not.mp heven) (List.all_eq_true.mp (not_not.mp hdigits))
    exact .inl ⟨bs, spells_iff.mpr hbs⟩

/-! ## A field of the layout -/

@[simp] theorem length_bytes (k n : Nat) : (bytes k n).length = k := by
  rw [bytes, List.length_reverse, LittleEndian.length_encode]

theorem decode_bytes {k : Nat} (n : Fin (256 ^ k)) : LittleEndian.decode (bytes k n).reverse = n := by
  rw [bytes, List.reverse_reverse, LittleEndian.decode_encode n.isLt]

/-- The text of a word. -/
def word (bs : Bytes) : Text := "0x".toList ++ Hex.encode bs

theorem word_injective {as bs : Bytes} (h : word as = word bs) : as = bs :=
  Hex.encode_injective (List.append_cancel_left h)

theorem spells_word (bs : Bytes) : Spells (word bs) bs := .inr ⟨_, rfl, Hex.decode_encode bs⟩

theorem drop_field {buf field rest : Bytes} {offset : Nat} (next : Nat)
    (h : buf.drop offset = field ++ rest) (hnext : offset + field.length = next) :
    buf.drop next = rest := by
  rw [← hnext, ← List.drop_drop, h, List.drop_left]

theorem readUInt32BE_eq {buf rest : Bytes} {offset : Nat} {n : U32}
    (h : buf.drop offset = bytes 4 n ++ rest) : readUInt32BE buf offset = .ok n.val := by
  have hlen : ¬ buf.length < offset + 4 := by
    have hdrop := congrArg List.length h
    rw [List.length_drop, List.length_append, length_bytes] at hdrop
    omega
  rw [readUInt32BE, if_neg hlen, h, List.take_left' (length_bytes 4 n), decode_bytes]

theorem b32_eq {buf rest : Bytes} {offset : Nat} {w : BytesN 32} (h : buf.drop offset = w.1 ++ rest) :
    b32 buf offset = word w.1 := by
  rw [b32, h, List.take_left' w.2, word]

theorem u256_eq {buf rest : Bytes} {offset : Nat} {n : U256}
    (h : buf.drop offset = bytes 32 n ++ rest) : u256 buf offset = .ok (decimal n) := by
  have hne : bytes 32 n.val ≠ [] := List.ne_nil_of_length_pos (by rw [length_bytes]; decide)
  rw [u256, b32, h, List.take_left' (length_bytes 32 n), bigIntOfText_hex hne, decode_bytes]
  rfl

/-! ## Decoding a layout -/

theorem BurnMessageV2.length_encode (b : BurnMessageV2) :
    b.encode.length = BODY_BYTES + b.hookData.length := by
  simp only [BurnMessageV2.encode, List.length_append, length_bytes, b.burnToken.2, b.mintRecipient.2,
    b.messageSender.2, BODY_BYTES]
  omega

theorem MessageV2.length_encode (m : MessageV2) :
    m.encode.length = HEADER_BYTES + BODY_BYTES + m.messageBody.hookData.length := by
  simp only [MessageV2.encode, List.length_append, length_bytes, m.nonce.2, m.sender.2, m.recipient.2,
    m.destinationCaller.2, m.messageBody.length_encode, HEADER_BYTES]
  omega

def BurnMessageV2.decoded (b : BurnMessageV2) : CctpBurnBody :=
  { version := b.version
    burnToken := word b.burnToken.1
    mintRecipient := word b.mintRecipient.1
    amount := decimal b.amount
    messageSender := word b.messageSender.1
    maxFee := decimal b.maxFee
    feeExecuted := decimal b.feeExecuted
    expirationBlock := decimal b.expirationBlock
    hookData := word b.hookData }

def MessageV2.decoded (m : MessageV2) : CctpBurnMessage :=
  { version := m.version
    sourceDomain := m.sourceDomain
    destinationDomain := m.destinationDomain
    nonce := word m.nonce.1
    sender := word m.sender.1
    recipient := word m.recipient.1
    destinationCaller := word m.destinationCaller.1
    minFinalityThreshold := m.minFinalityThreshold
    finalityThresholdExecuted := m.finalityThresholdExecuted
    body := m.messageBody.decoded }

theorem decodeBurnBody_encode (b : BurnMessageV2) : decodeBurnBody b.encode = .ok b.decoded := by
  have h0 : b.encode.drop 0 = bytes 4 b.version ++ _ := rfl
  have h4 := drop_field 4 h0 (by rw [length_bytes])
  have h36 := drop_field 36 h4 (by rw [b.burnToken.2])
  have h68 := drop_field 68 h36 (by rw [b.mintRecipient.2])
  have h100 := drop_field 100 h68 (by rw [length_bytes])
  have h132 := drop_field 132 h100 (by rw [b.messageSender.2])
  have h164 := drop_field 164 h132 (by rw [length_bytes])
  have h196 := drop_field 196 h164 (by rw [length_bytes])
  have h228 := drop_field BODY_BYTES h196 (by rw [length_bytes]; rfl)
  unfold decodeBurnBody
  rw [readUInt32BE_eq h0, b32_eq h4, b32_eq h36, u256_eq h68, b32_eq h100, u256_eq h132, u256_eq h164,
    u256_eq h196, h228]
  rfl

theorem decodeBurnMessage_encode {text : Text} {m : MessageV2} (h : Spells text m.encode) :
    decodeBurnMessage text = .ok m.decoded := by
  have h0 : m.encode.drop 0 = bytes 4 m.version ++ _ := rfl
  have h4 := drop_field 4 h0 (by rw [length_bytes])
  have h8 := drop_field 8 h4 (by rw [length_bytes])
  have h12 := drop_field 12 h8 (by rw [length_bytes])
  have h44 := drop_field 44 h12 (by rw [m.nonce.2])
  have h76 := drop_field 76 h44 (by rw [m.sender.2])
  have h108 := drop_field 108 h76 (by rw [m.recipient.2])
  have h140 := drop_field 140 h108 (by rw [m.destinationCaller.2])
  have h144 := drop_field 144 h140 (by rw [length_bytes])
  have h148 := drop_field HEADER_BYTES h144 (by rw [length_bytes]; rfl)
  have hlong : ¬ m.encode.length < HEADER_BYTES + BODY_BYTES := by
    rw [m.length_encode]
    exact Nat.not_lt.mpr (Nat.le_add_right _ _)
  unfold decodeBurnMessage
  rw [hexToBytes_of_spells h]
  dsimp only [bind, Except.bind]
  rw [refuseIf, failIf, if_neg hlong]
  dsimp only
  rw [readUInt32BE_eq h0, readUInt32BE_eq h4, readUInt32BE_eq h8, readUInt32BE_eq h140,
    readUInt32BE_eq h144, h148, decodeBurnBody_encode, b32_eq h12, b32_eq h44, b32_eq h76, b32_eq h108]
  rfl

/-! ## Every long enough text has a layout -/

/-- The word at an offset. -/
def wordAt (bs : Bytes) (offset : Nat) (h : offset + 32 ≤ bs.length) : BytesN 32 :=
  ⟨(bs.drop offset).take 32, by rw [List.length_take, List.length_drop]; omega⟩

/-- The number in the bytes at an offset. -/
def numberAt (k : Nat) (bs : Bytes) (offset : Nat) : Fin (256 ^ k) :=
  ⟨LittleEndian.decode ((bs.drop offset).take k).reverse, by
    refine (LittleEndian.decode_lt _).trans_le (Nat.pow_le_pow_right (by decide) ?_)
    rw [List.length_reverse, List.length_take]
    exact min_le_left _ _⟩

theorem bytes_numberAt {k : Nat} {bs : Bytes} {offset : Nat} (h : offset + k ≤ bs.length) :
    bytes k (numberAt k bs offset) = (bs.drop offset).take k := by
  have hlen : ((bs.drop offset).take k).reverse.length = k := by
    rw [List.length_reverse, List.length_take, List.length_drop]
    omega
  have hencode := LittleEndian.encode_decode ((bs.drop offset).take k).reverse
  rw [hlen] at hencode
  rw [bytes, numberAt, hencode, List.reverse_reverse]

theorem take_append_next {bs : Bytes} {offset size next : Nat} (h : offset + size = next) :
    (bs.drop offset).take size ++ bs.drop next = bs.drop offset := by
  rw [← h, ← List.drop_drop, List.take_append_drop]

theorem exists_body {bs : Bytes} (h : BODY_BYTES ≤ bs.length) : ∃ b : BurnMessageV2, b.encode = bs := by
  have hlen : 228 ≤ bs.length := h
  refine ⟨
    { version := numberAt 4 bs 0
      burnToken := wordAt bs 4 (by omega)
      mintRecipient := wordAt bs 36 (by omega)
      amount := numberAt 32 bs 68
      messageSender := wordAt bs 100 (by omega)
      maxFee := numberAt 32 bs 132
      feeExecuted := numberAt 32 bs 164
      expirationBlock := numberAt 32 bs 196
      hookData := bs.drop 228 }, ?_⟩
  dsimp only [BurnMessageV2.encode, wordAt]
  rw [bytes_numberAt (by omega), bytes_numberAt (by omega), bytes_numberAt (by omega),
    bytes_numberAt (by omega), bytes_numberAt (by omega), take_append_next (by decide),
    take_append_next (by decide), take_append_next (by decide), take_append_next (by decide),
    take_append_next (by decide), take_append_next (by decide), take_append_next (by decide),
    take_append_next (by decide), List.drop_zero]

theorem exists_layout {bs : Bytes} (h : HEADER_BYTES + BODY_BYTES ≤ bs.length) :
    ∃ m : MessageV2, m.encode = bs := by
  have hlen : 376 ≤ bs.length := h
  have hrest : BODY_BYTES ≤ (bs.drop 148).length := by
    rw [List.length_drop, BODY_BYTES]
    omega
  obtain ⟨body, hbody⟩ := exists_body hrest
  refine ⟨
    { version := numberAt 4 bs 0
      sourceDomain := numberAt 4 bs 4
      destinationDomain := numberAt 4 bs 8
      nonce := wordAt bs 12 (by omega)
      sender := wordAt bs 44 (by omega)
      recipient := wordAt bs 76 (by omega)
      destinationCaller := wordAt bs 108 (by omega)
      minFinalityThreshold := numberAt 4 bs 140
      finalityThresholdExecuted := numberAt 4 bs 144
      messageBody := body }, ?_⟩
  dsimp only [MessageV2.encode, wordAt]
  rw [hbody, bytes_numberAt (by omega), bytes_numberAt (by omega), bytes_numberAt (by omega),
    bytes_numberAt (by omega), bytes_numberAt (by omega), take_append_next (by decide),
    take_append_next (by decide), take_append_next (by decide), take_append_next (by decide),
    take_append_next (by decide), take_append_next (by decide), take_append_next (by decide),
    take_append_next (by decide), take_append_next (by decide), List.drop_zero]

/-- A text is refused, or has a layout. -/
theorem decodeBurnMessage_cases (text : Text) :
    (∃ m : MessageV2, Spells text m.encode) ∨
      ∃ message, decodeBurnMessage text = .error (.refused message) := by
  rcases hexToBytes_cases text with ⟨bs, hbs⟩ | ⟨message, hmessage⟩
  · by_cases hshort : bs.length < HEADER_BYTES + BODY_BYTES
    · refine .inr ⟨"the transfer message is too short to be a CCTP V2 burn".toList, ?_⟩
      unfold decodeBurnMessage
      rw [hexToBytes_of_spells hbs]
      dsimp only [bind, Except.bind]
      rw [refuseIf, failIf, if_pos hshort]
    · obtain ⟨m, rfl⟩ := exists_layout (not_lt.mp hshort)
      exact .inl ⟨m, hbs⟩
  · refine .inr ⟨message, ?_⟩
    unfold decodeBurnMessage
    rw [hmessage]
    rfl

/-! ## The checks -/

/-- The address of Circle's TokenMessenger. -/
def tokenMessenger : Bytes := fromHex (strip0x BASE_SEPOLIA_TOKEN_MESSENGER)

theorem spells_tokenMessenger : Spells BASE_SEPOLIA_TOKEN_MESSENGER tokenMessenger :=
  spells_iff.mpr (by decide)

theorem recipient_iff {r : Bytes} : word r = addressToBytes32 BASE_SEPOLIA_TOKEN_MESSENGER ↔
    ∃ address, Spells BASE_SEPOLIA_TOKEN_MESSENGER address ∧ r = padded address := by
  have hword : addressToBytes32 BASE_SEPOLIA_TOKEN_MESSENGER = word (padded tokenMessenger) := by
    decide
  rw [hword]
  constructor
  · exact fun h => ⟨_, spells_tokenMessenger, word_injective h⟩
  · rintro ⟨address, haddress, rfl⟩
    rw [haddress.unique spells_tokenMessenger]

theorem destinationCaller_iff {r : Bytes} : word r = ZERO_BYTES32 ↔ r = List.replicate 32 0 := by
  have hword : ZERO_BYTES32 = word (List.replicate 32 0) := by decide
  rw [hword]
  exact ⟨word_injective, congrArg word⟩

theorem hookData_iff {r : Bytes} : word r = "0x".toList ↔ r = [] :=
  ⟨@word_injective r [], congrArg word⟩

theorem toLowerCase_word (bs : Bytes) : toLowerCase (word bs) = word bs := by
  have hdigits := Hex.encode_of_decode (Hex.decode_encode bs)
  rw [toLowerCase, word, List.map_append, hdigits]
  rfl

/-- A word with 12 leading zero bytes is the address in its other bytes. -/
theorem bytes32ToAddress_word {w : Bytes} (hlen : w.length = 32) :
    bytes32ToAddress (word w) =
      if w.take 12 = List.replicate 12 0 then some (word (w.drop 12)) else none := by
  have hsplit : Hex.encode w = Hex.encode (w.take 12) ++ Hex.encode (w.drop 12) := by
    rw [← Hex.encode_append, List.take_append_drop]
  have hhead : (Hex.encode (w.take 12)).length = 24 := by
    rw [Hex.length_encode, List.length_take, hlen]
    decide
  have hzero : List.replicate 24 '0' = Hex.encode (List.replicate 12 0) := by decide
  have hstrip : strip0x (word w) = Hex.encode w := rfl
  unfold bytes32ToAddress
  dsimp only
  rw [toLowerCase_word, hstrip, hsplit, List.take_left' hhead, List.drop_left' hhead, ← hsplit,
    Hex.length_encode, hlen, hzero]
  by_cases htake : w.take 12 = List.replicate 12 0
  · rw [if_neg (by rw [htake]; decide), if_pos htake]
    rfl
  · rw [if_neg htake, if_pos (.inr fun h => htake (Hex.encode_injective h))]

/-- The recipient of a mint, as the relay shows it. -/
theorem mintRecipient_iff {w : Bytes} (hlen : w.length = 32) :
    (∃ mintTo, bytes32ToAddress (word w) = some mintTo ∧ mintTo ≠ "0x".toList ++ List.replicate 40 '0') ↔
      ∃ address, w = padded address ∧ address ≠ List.replicate 20 0 := by
  have hzero : "0x".toList ++ List.replicate 40 '0' = word (List.replicate 20 0) := by decide
  rw [bytes32ToAddress_word hlen, hzero]
  constructor
  · rintro ⟨mintTo, hto, hne⟩
    split_ifs at hto with htake
    cases hto
    refine ⟨w.drop 12, ?_, fun h => hne (congrArg word h)⟩
    rw [padded, ← htake, List.take_append_drop]
  · rintro ⟨address, rfl, hne⟩
    have htake : (padded address).take 12 = List.replicate 12 0 := List.take_left' rfl
    have hdrop : (padded address).drop 12 = address := List.drop_left' rfl
    rw [if_pos htake, hdrop]
    exact ⟨_, rfl, fun h => hne (word_injective h)⟩

/-- A result, or a refusal. -/
def Gated {α : Type} (r : Except MessageError α) : Prop :=
  (∃ a, r = .ok a) ∨ ∃ message, r = .error (.refused message)

theorem Gated.refuseIf {α : Type} {c : Prop} [Decidable c] {message : String}
    {k : Unit → Except MessageError α} (h : ¬ c → Gated (k ())) :
    Gated (Cctp.refuseIf c message >>= k) := by
  by_cases hc : c
  · rw [Cctp.refuseIf, failIf, if_pos hc]
    exact .inr ⟨_, rfl⟩
  · rw [Cctp.refuseIf, failIf, if_neg hc]
    exact h hc

section

variable {text : Text} {m : MessageV2}

/-- A message with a layout is accepted or refused. -/
theorem assertRelayable_gated (h : decodeBurnMessage text = .ok m.decoded) :
    Gated (assertRelayable text) := by
  unfold assertRelayable
  rw [h]
  change Gated (refuseIf _ _ >>= _)
  refine .refuseIf fun _ => .refuseIf fun _ => .refuseIf fun _ => .refuseIf fun _ => .refuseIf fun _ =>
    .refuseIf fun _ => ?_
  cases bytes32ToAddress m.decoded.body.mintRecipient with
  | none => exact .inr ⟨_, rfl⟩
  | some mintRecipient =>
    refine .refuseIf fun _ => ?_
    have hamount : bigIntOfText m.decoded.body.amount = some (m.messageBody.amount.val : Int) :=
      bigIntOfText_decimal _
    rw [hamount]
    exact .refuseIf fun _ => .inl ⟨_, rfl⟩

theorem assertRelayable_eq_ok (h : decodeBurnMessage text = .ok m.decoded) {burn : RelayableBurn} :
    assertRelayable text = .ok burn ↔
      m.Relayable ∧ burn.message = m.decoded ∧
        bytes32ToAddress (word m.messageBody.mintRecipient.1) = some burn.mintRecipient := by
  have hamount : bigIntOfText m.decoded.body.amount = some (m.messageBody.amount.val : Int) :=
    bigIntOfText_decimal _
  have hmint := mintRecipient_iff m.messageBody.mintRecipient.2
  constructor
  · intro hok
    unfold assertRelayable at hok
    rw [h, bind_eq_ok] at hok
    obtain ⟨message, hmessage, hok⟩ := hok
    cases hmessage
    simp only [refuseIf, bind_eq_ok, failIf_eq_ok, exists_and_left, exists_const] at hok
    obtain ⟨hversion, hsource, hdestination, hrecipient, hcaller, hhook, hok⟩ := hok
    obtain ⟨hversion, hbodyVersion⟩ := not_or.mp hversion
    split at hok
    · cases hok
    · next mintRecipient hto =>
      rw [hamount] at hok
      simp only [bind_eq_ok, failIf_eq_ok, exists_and_left, exists_const] at hok
      obtain ⟨hne, hpos, hok⟩ := hok
      cases hok
      refine ⟨⟨not_not.mp hversion, not_not.mp hbodyVersion, not_not.mp hsource, not_not.mp hdestination,
        recipient_iff.mp (not_not.mp hrecipient), destinationCaller_iff.mp (not_not.mp hcaller),
        hookData_iff.mp (not_not.mp hhook), hmint.mp ⟨_, hto, hne⟩, by omega⟩, rfl, hto⟩
  · rintro ⟨hm, hmessage, hto⟩
    obtain ⟨mintTo, hto', hne⟩ := hmint.mpr hm.mintRecipient
    obtain rfl : mintTo = burn.mintRecipient := Option.some.inj (hto'.symm.trans hto)
    unfold assertRelayable
    rw [h, bind_eq_ok]
    refine ⟨_, rfl, ?_⟩
    simp only [refuseIf, bind_eq_ok, failIf_eq_ok, exists_and_left, exists_const]
    refine ⟨not_or.mpr ⟨not_not.mpr hm.version, not_not.mpr hm.bodyVersion⟩, not_not.mpr hm.sourceDomain,
      not_not.mpr hm.destinationDomain, not_not.mpr (recipient_iff.mpr hm.recipient),
      not_not.mpr (destinationCaller_iff.mpr hm.destinationCaller),
      not_not.mpr (hookData_iff.mpr hm.hookData), ?_⟩
    have hpos := hm.amount
    split
    · next hnone => cases hnone.symm.trans hto
    · next mintTo hsome =>
      obtain rfl : mintTo = burn.mintRecipient := Option.some.inj (hsome.symm.trans hto)
      rw [hamount]
      simp only [bind_eq_ok, failIf_eq_ok, exists_and_left, exists_const]
      refine ⟨hne, by omega, ?_⟩
      rw [← hmessage]

end

/-- What is accepted decodes to what was encoded. -/
theorem decodes_of_ok {text : Text} {m : MessageV2} {burn : RelayableBurn}
    (hspells : Spells text m.encode) (hok : assertRelayable text = .ok burn) : Decodes burn m := by
  obtain ⟨hm, hmessage, hto⟩ := (assertRelayable_eq_ok (decodeBurnMessage_encode hspells)).mp hok
  obtain ⟨address, haddress, -⟩ := hm.mintRecipient
  have hmint : ∃ address, Spells burn.mintRecipient address ∧
      m.messageBody.mintRecipient.1 = padded address := by
    rw [bytes32ToAddress_word m.messageBody.mintRecipient.2] at hto
    split_ifs at hto with htake
    rw [← Option.some.inj hto]
    refine ⟨_, spells_word _, ?_⟩
    rw [padded, ← htake, List.take_append_drop]
  constructor
  case mintTo => exact hmint
  all_goals rw [hmessage]
  case nonce | sender | recipient | destinationCaller | burnToken | mintRecipient | messageSender
    | hookData => exact spells_word _
  case amount | maxFee | feeExecuted | expirationBlock => exact bigIntOfText_decimal _
  all_goals rfl

/-- A text is completed exactly if it is the layout of a burn that anyone may complete on Base Sepolia,
and is refused otherwise. -/
theorem assertRelayable_gate (text : Text) :
    ((∃ burn, assertRelayable text = .ok burn) ↔
      ∃ m : MessageV2, Spells text m.encode ∧ m.encode.length = 376 ∧ m.Relayable) ∧
    (∀ burn m, assertRelayable text = .ok burn → Spells text m.encode → Decodes burn m) ∧
    ((¬ ∃ burn, assertRelayable text = .ok burn) →
      ∃ message, assertRelayable text = .error (.refused message)) := by
  refine ⟨?_, fun burn m hok hspells => decodes_of_ok hspells hok, ?_⟩
  · constructor
    · rintro ⟨burn, hok⟩
      rcases decodeBurnMessage_cases text with ⟨m, hspells⟩ | ⟨message, hmessage⟩
      · obtain ⟨hm, -, -⟩ := (assertRelayable_eq_ok (decodeBurnMessage_encode hspells)).mp hok
        refine ⟨m, hspells, ?_, hm⟩
        rw [m.length_encode, hm.hookData]
        rfl
      · unfold assertRelayable at hok
        rw [hmessage] at hok
        cases hok
    · rintro ⟨m, hspells, -, hm⟩
      obtain ⟨mintTo, hto, -⟩ := (mintRecipient_iff m.messageBody.mintRecipient.2).mpr hm.mintRecipient
      exact ⟨⟨m.decoded, mintTo⟩,
        (assertRelayable_eq_ok (decodeBurnMessage_encode hspells)).mpr ⟨hm, rfl, hto⟩⟩
  · intro hnot
    rcases decodeBurnMessage_cases text with ⟨m, hspells⟩ | ⟨message, hmessage⟩
    · exact (assertRelayable_gated (decodeBurnMessage_encode hspells)).resolve_left hnot
    · refine ⟨message, ?_⟩
      unfold assertRelayable
      rw [hmessage]
      rfl

end Writz.Relayer.Cctp

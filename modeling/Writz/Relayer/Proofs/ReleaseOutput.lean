import Writz.Relayer.Proofs.StripWitness
import Writz.Relayer.RepayWatcher.Handler

/-!
# Proofs: the output a release spends

What the relayer's parser reads of a serialized transaction, and when it finds the output whose value the
contract has credited.
-/

namespace Writz.Relayer

open Node Bitcoin BitcoinScript

/-- `Number.MAX_SAFE_INTEGER`. -/
def maxSafeInteger : Nat := 2 ^ 53 - 1

/-! ## Parsing what is located -/

section

variable {buf : Bytes} {i : Nat}

theorem skipInputs_located {inputs : List TxIn} (h : Located buf i (inputs.flatMap TxIn.serialize))
    (hscripts : ∀ input ∈ inputs, input.scriptSig.length < 2 ^ 32) :
    skipInputs buf inputs.length i = .ok (i + (inputs.flatMap TxIn.serialize).length) := by
  induction inputs generalizing i with
  | nil => simp [skipInputs]
  | cons input inputs ih =>
    rw [List.flatMap_cons] at h
    have hinput := h.left
    simp only [TxIn.serialize, List.append_assoc] at hinput
    rw [← List.append_assoc] at hinput
    have hpoint : (input.prevTxid ++ LittleEndian.encode 4 input.prevIndex.toNat).length = 36 := by
      rw [List.length_append, input.prevTxid_length, LittleEndian.length_encode]
    have hcount := (hinput.right' hpoint).left
    have hrest := ih h.right fun x hx => hscripts x (List.mem_cons_of_mem _ hx)
    have hnext : i + 36 + (compactSize input.scriptSig.length).length + input.scriptSig.length + 4
        = i + input.serialize.length := by
      simp only [TxIn.serialize, List.length_append, input.prevTxid_length, LittleEndian.length_encode]
      omega
    rw [List.length_cons, skipInputs, readVarInt_located hcount (hscripts input List.mem_cons_self)]
    change skipInputs buf inputs.length (i + 36 + _ + _ + 4) = _
    rw [hnext, hrest, List.flatMap_cons, List.length_append, Nat.add_assoc]

theorem parseOutputAt_located {o : TxOut} (h : Located buf i o.serialize)
    (hscript : o.scriptPubkey.length < 2 ^ 32) :
    parseOutputAt buf i
      = throwIf (maxSafeInteger < o.value.toNat) "value exceeds Number.MAX_SAFE_INTEGER" >>= fun _ =>
          .ok (⟨o.value.toNat, Hex.encode o.scriptPubkey⟩, i + o.serialize.length) := by
  rw [TxOut.serialize, List.append_assoc] at h
  have hspk := h.right' (LittleEndian.length_encode 8 _)
  have hnext : i + 8 + (compactSize o.scriptPubkey.length).length + o.scriptPubkey.length
      = i + o.serialize.length := by
    simp only [TxOut.serialize, List.length_append, LittleEndian.length_encode]
    omega
  unfold parseOutputAt
  rw [readUIntLE_encode h.left (UInt64.toNat_lt _)]
  change (throwIf _ _ >>= _) = _
  congr 1
  funext _
  change (readVarInt buf (i + 8) >>= _) = _
  rw [readVarInt_located hspk.left hscript]
  change (sliceExact buf _ _ >>= _) = _
  rw [sliceExact_located hspk.right rfl]
  change Except.ok (_, _) = _
  rw [hnext]

/-- An output is parsed if no value up to it is too large. -/
theorem parseOutputs_located {before : List TxOut} {o : TxOut} {after : List TxOut}
    (h : Located buf i ((before ++ o :: after).flatMap TxOut.serialize))
    (hscripts : ∀ x ∈ before ++ [o], x.scriptPubkey.length < 2 ^ 32) :
    (parseOutputs buf before.length i = .ok ⟨o.value.toNat, Hex.encode o.scriptPubkey⟩ ∧
      ∀ x ∈ before ++ [o], x.value.toNat ≤ maxSafeInteger) ∨
    ((∃ e, parseOutputs buf before.length i = .error e) ∧
      ∃ x ∈ before ++ [o], maxSafeInteger < x.value.toNat) := by
  induction before generalizing i with
  | nil =>
    rw [List.nil_append, List.flatMap_cons] at h
    rw [List.length_nil, parseOutputs, parseOutputAt_located h.left (hscripts o (by simp))]
    by_cases hvalue : maxSafeInteger < o.value.toNat
    · rw [throwIf, failIf, if_pos hvalue]
      exact .inr ⟨⟨_, rfl⟩, o, by simp, hvalue⟩
    · rw [throwIf, failIf, if_neg hvalue]
      refine .inl ⟨rfl, fun x hx => ?_⟩
      rw [List.nil_append, List.mem_singleton] at hx
      rw [hx]
      omega
  | cons p before ih =>
    rw [List.cons_append, List.flatMap_cons] at h
    have hrest := ih h.right fun x hx => hscripts x (List.mem_cons_of_mem _ hx)
    rw [List.length_cons, parseOutputs, parseOutputAt_located h.left (hscripts p (by simp))]
    by_cases hvalue : maxSafeInteger < p.value.toNat
    · rw [throwIf, failIf, if_pos hvalue]
      exact .inr ⟨⟨_, rfl⟩, p, by simp, hvalue⟩
    · rw [throwIf, failIf, if_neg hvalue]
      change (parseOutputs buf before.length _ = _ ∧ _) ∨ (∃ e, parseOutputs buf before.length _ = _) ∧ _
      rcases hrest with ⟨hok, hvalues⟩ | ⟨herror, x, hx, hlarge⟩
      · exact .inl ⟨hok, List.forall_mem_cons.mpr ⟨by omega, hvalues⟩⟩
      · exact .inr ⟨herror, x, List.mem_cons_of_mem _ hx, hlarge⟩

end

section

variable {tx : Tx} {raw : Bytes} {rawHex spkHex : Text} {spk : Bytes}

/-- The inputs, and what the code skips before them. -/
theorem start_located (hin : tx.inputs ≠ [])
    (hraw : raw = tx.serialize ∨ ∃ witnesses, raw = tx.serializeSegwit witnesses) :
    ∃ rest, Located raw (if (decide (raw[4]? = some 0x00) && decide (raw[5]? = some 0x01)) = true then 6
      else 4) (BtcParser.body tx rest) := by
  rcases hraw with rfl | ⟨witnesses, rfl⟩
  · have hraw : tx.serialize = LittleEndian.encode 4 tx.version.toNat
        ++ BtcParser.body tx (LittleEndian.encode 4 tx.lockTime.toNat) := by
      simp only [Tx.serialize, BtcParser.body, List.append_assoc]
    have hbody := (Located.of_eq hraw).right' (LittleEndian.length_encode 4 _)
    obtain ⟨b, bs, hcount, hb⟩ := compactSize_head (List.length_pos_of_ne_nil hin)
    have hfirst := hbody.left
    rw [hcount] at hfirst
    rw [hfirst.getElem?, decide_eq_false fun h0 => hb (Option.some.inj h0)]
    exact ⟨_, hbody⟩
  · have hraw : tx.serializeSegwit witnesses = LittleEndian.encode 4 tx.version.toNat
        ++ (0x00 :: 0x01 :: BtcParser.body tx
          (witnesses.flatMap writeWitness ++ LittleEndian.encode 4 tx.lockTime.toNat)) := by
      simp only [Tx.serializeSegwit, BtcParser.body, List.append_assoc, List.cons_append, List.nil_append]
    have hmarker := (Located.of_eq hraw).right' (LittleEndian.length_encode 4 _)
    rw [hmarker.getElem?, hmarker.tail.getElem?]
    exact ⟨_, hmarker.tail.tail⟩

/-- The transactions whose inputs and number of outputs are read. -/
structure Countable (tx : Tx) : Prop where
  nonempty : tx.inputs ≠ []
  inputs : tx.inputs.length < 2 ^ 32
  scripts : ∀ i ∈ tx.inputs, i.scriptSig.length < 2 ^ 32
  outputs : tx.outputs.length < 2 ^ 32

theorem parseOutput_serialized (hcount : Countable tx)
    (hraw : fromHex rawHex = tx.serialize ∨ ∃ witnesses, fromHex rawHex = tx.serializeSegwit witnesses)
    {before : List TxOut} {o : TxOut} {after : List TxOut} (houts : tx.outputs = before ++ o :: after)
    (hscripts : ∀ x ∈ before ++ [o], x.scriptPubkey.length < 2 ^ 32) :
    (parseOutput rawHex before.length = .ok ⟨o.value.toNat, Hex.encode o.scriptPubkey⟩ ∧
      ∀ x ∈ before ++ [o], x.value.toNat ≤ maxSafeInteger) ∨
    ((∃ e, parseOutput rawHex before.length = .error e) ∧
      ∃ x ∈ before ++ [o], maxSafeInteger < x.value.toNat) := by
  obtain ⟨rest, hbody⟩ := start_located hcount.nonempty hraw
  have hinputs := hbody.right
  have houtputCount := hinputs.right
  have houtputs := houtputCount.right.left
  rw [houts] at houtputs
  have hlt : ¬ tx.outputs.length ≤ before.length := by
    rw [houts, List.length_append, List.length_cons]
    omega
  have hparse := parseOutputs_located houtputs hscripts
  unfold parseOutput
  dsimp only
  rw [readVarInt_located hbody.left hcount.inputs]
  simp only [bind, Except.bind]
  rw [skipInputs_located hinputs.left hcount.scripts]
  dsimp only
  rw [readVarInt_located houtputCount.left hcount.outputs]
  dsimp only
  rw [throwIf, failIf, if_neg hlt, houts]
  exact hparse

end

/-! ## The search -/

section

variable {tx : Tx} {raw : Bytes} {rawHex spkHex : Text} {spk : Bytes}

/-- The search returns the first of `tries` outputs whose script matches, those before it being parsed. -/
theorem findOutputFrom_eq_some {tries i j : Nat} :
    findOutputFrom rawHex spkHex tries i = some j ↔ i ≤ j ∧ j < i + tries ∧
      (∃ out, parseOutput rawHex j = .ok out ∧ toLowerCase out.scriptPubKey = toLowerCase spkHex) ∧
      ∀ k, i ≤ k → k < j → ∃ out, parseOutput rawHex k = .ok out ∧
        toLowerCase out.scriptPubKey ≠ toLowerCase spkHex := by
  induction tries generalizing i with
  | zero =>
    refine ⟨fun h => (by cases h), ?_⟩
    rintro ⟨hle, hlt, -⟩
    omega
  | succ tries ih =>
    rw [findOutputFrom]
    cases hparse : parseOutput rawHex i with
    | error e =>
      refine ⟨fun h => (by cases h), ?_⟩
      rintro ⟨hle, -, ⟨out, hout, -⟩, hbefore⟩
      rcases Nat.eq_or_lt_of_le hle with rfl | hlt
      · rw [hparse] at hout
        cases hout
      · obtain ⟨out', hout', -⟩ := hbefore i le_rfl hlt
        rw [hparse] at hout'
        cases hout'
    | ok out =>
      dsimp only
      by_cases hmatch : toLowerCase out.scriptPubKey = toLowerCase spkHex
      · rw [if_pos hmatch]
        constructor
        · intro h
          cases h
          exact ⟨le_rfl, by omega, ⟨out, hparse, hmatch⟩, fun k hle hlt => by omega⟩
        · rintro ⟨hle, -, -, hbefore⟩
          rcases Nat.eq_or_lt_of_le hle with rfl | hlt
          · rfl
          · obtain ⟨out', hout', hne⟩ := hbefore i le_rfl hlt
            rw [hparse] at hout'
            cases hout'
            exact absurd hmatch hne
      · rw [if_neg hmatch, ih]
        constructor
        · rintro ⟨hle, hlt, hfound, hbefore⟩
          refine ⟨by omega, by omega, hfound, fun k hk hkj => ?_⟩
          rcases Nat.eq_or_lt_of_le hk with rfl | hlt'
          · exact ⟨out, hparse, hmatch⟩
          · exact hbefore k hlt' hkj
        · rintro ⟨hle, hlt, ⟨out', hout', hmatch'⟩, hbefore⟩
          have hne : i ≠ j := by
            rintro rfl
            rw [hparse] at hout'
            cases hout'
            exact hmatch hmatch'
          exact ⟨by omega, by omega, ⟨out', hout', hmatch'⟩, fun k hk => hbefore k (by omega)⟩

/-- Scripts are compared as byte strings. -/
theorem toLowerCase_eq_iff (hspk : Hex.decode spkHex = some spk) (script : Bytes) :
    toLowerCase (Hex.encode script) = toLowerCase spkHex ↔ script = spk := by
  have hleft : toLowerCase (Hex.encode script) = Hex.encode script :=
    Hex.encode_of_decode (Hex.decode_encode script)
  have hright : toLowerCase spkHex = Hex.encode spk := Hex.encode_of_decode hspk
  rw [hleft, hright]
  exact ⟨Hex.encode_injective, congrArg Hex.encode⟩

/-- What the scanner finds is the value of the first output with the script, and the scanner has read the
scripts up to it. -/
theorem paidTo_split {outputs : List TxOut} {v : Nat} (h : BtcParser.paidTo spk outputs = some v) :
    ∃ before o after, outputs = before ++ o :: after ∧ o.scriptPubkey = spk ∧ o.value.toNat = v ∧
      (∀ x ∈ before, x.scriptPubkey ≠ spk) ∧ ∀ x ∈ before ++ [o], x.scriptPubkey.length ≤ 0xffff := by
  induction outputs with
  | nil => cases h
  | cons p outputs ih =>
    rw [BtcParser.paidTo] at h
    split_ifs at h with hlen hspk
    · exact ⟨[], p, outputs, rfl, hspk, Option.some.inj h, fun x hx => (by cases hx), by simpa using hlen⟩
    · obtain ⟨before, o, after, rfl, ho, hv, hbefore, hlens⟩ := ih h
      exact ⟨p :: before, o, after, rfl, ho, hv, List.forall_mem_cons.mpr ⟨hspk, hbefore⟩,
        List.forall_mem_cons.mpr ⟨hlen, hlens⟩⟩

/-- The outputs up to one of the first few. -/
theorem split_before {before after : List TxOut} {o : TxOut} {k : Nat} (hk : k < before.length) :
    ∃ b p a, before ++ o :: after = b ++ p :: a ∧ b.length = k ∧ p ∈ before ∧
      ∀ x ∈ b ++ [p], x ∈ before := by
  have hsplit : before = before.take k ++ before[k] :: before.drop (k + 1) := by
    rw [← List.drop_eq_getElem_cons hk, List.take_append_drop]
  refine ⟨before.take k, before[k], before.drop (k + 1) ++ o :: after, ?_, ?_, List.getElem_mem hk,
    fun x hx => ?_⟩
  · conv_lhs => rw [hsplit]
    rw [List.append_assoc, List.cons_append]
  · rw [List.length_take]
    omega
  · rcases List.mem_append.mp hx with hx | hx
    · exact List.mem_of_mem_take hx
    · rw [List.mem_singleton.mp hx]
      exact List.getElem_mem hk

/-- What the search meets at an output: its script, or an error because of a value. -/
theorem parseOutput_step (hcount : Countable tx)
    (hraw : fromHex rawHex = tx.serialize ∨ ∃ witnesses, fromHex rawHex = tx.serializeSegwit witnesses)
    (hspk : Hex.decode spkHex = some spk) {before : List TxOut} {o : TxOut} {after : List TxOut}
    (houts : tx.outputs = before ++ o :: after)
    (hlens : ∀ x ∈ before ++ [o], x.scriptPubkey.length ≤ 0xffff) :
    (∃ out, parseOutput rawHex before.length = .ok out ∧
      (toLowerCase out.scriptPubKey = toLowerCase spkHex ↔ o.scriptPubkey = spk) ∧
      ∀ x ∈ before ++ [o], x.value.toNat ≤ maxSafeInteger) ∨
    ((∃ e, parseOutput rawHex before.length = .error e) ∧
      ∃ x ∈ before ++ [o], maxSafeInteger < x.value.toNat) := by
  have hscripts : ∀ x ∈ before ++ [o], x.scriptPubkey.length < 2 ^ 32 := fun x hx => by
    have := hlens x hx
    omega
  rcases parseOutput_serialized hcount hraw houts hscripts with ⟨hok, hvalues⟩ | herror
  · exact .inl ⟨_, hok, toLowerCase_eq_iff hspk _, hvalues⟩
  · exact .inr herror

/-- The search returns the first output with the script if it is among the first 64, and no value up to it
is too large. -/
theorem findOutputIndex_eq_ok_iff (hcount : Countable tx)
    (hraw : fromHex rawHex = tx.serialize ∨ ∃ witnesses, fromHex rawHex = tx.serializeSegwit witnesses)
    (hspk : Hex.decode spkHex = some spk) {before : List TxOut} {o : TxOut} {after : List TxOut}
    (houts : tx.outputs = before ++ o :: after) (ho : o.scriptPubkey = spk)
    (hbefore : ∀ x ∈ before, x.scriptPubkey ≠ spk)
    (hlens : ∀ x ∈ before ++ [o], x.scriptPubkey.length ≤ 0xffff) {i : Nat} :
    findOutputIndex rawHex spkHex = .ok i ↔
      i = before.length ∧ i < 64 ∧ ∀ x ∈ before ++ [o], x.value.toNat ≤ maxSafeInteger := by
  have hat := parseOutput_step hcount hraw hspk houts hlens
  have hearlier : ∀ k < before.length,
      (∃ out, parseOutput rawHex k = .ok out ∧ toLowerCase out.scriptPubKey ≠ toLowerCase spkHex) ∨
      ((∃ e, parseOutput rawHex k = .error e) ∧ ∃ x ∈ before, maxSafeInteger < x.value.toNat) := by
    intro k hk
    obtain ⟨b, p, a, hsplit, rfl, hp, hsub⟩ := @split_before before after o k hk
    rcases parseOutput_step hcount hraw hspk (houts.trans hsplit) fun x hx =>
        hlens x (List.mem_append_left _ (hsub x hx)) with
      ⟨out, hout, hmatch, -⟩ | ⟨herror, x, hx, hlarge⟩
    · exact .inl ⟨out, hout, fun h => hbefore p hp (hmatch.mp h)⟩
    · exact .inr ⟨herror, x, hsub x hx, hlarge⟩
  rw [findOutputIndex, okOr_eq_ok, findOutputFrom_eq_some]
  constructor
  · rintro ⟨-, hlt, ⟨out, hout, hmatch⟩, hall⟩
    rcases Nat.lt_trichotomy i before.length with hless | rfl | hmore
    · rcases hearlier i hless with ⟨out', hout', hne⟩ | ⟨⟨e, he⟩, -⟩
      · rw [hout] at hout'
        cases hout'
        exact absurd hmatch hne
      · rw [hout] at he
        cases he
    · refine ⟨rfl, by omega, ?_⟩
      rcases hat with ⟨-, -, -, hvalues⟩ | ⟨⟨e, he⟩, -⟩
      · exact hvalues
      · rw [hout] at he
        cases he
    · -- the search would have stopped at the match
      obtain ⟨out', hout', hne⟩ := hall before.length (Nat.zero_le _) hmore
      rcases hat with ⟨out'', hout'', hmatch'', -⟩ | ⟨⟨e, he⟩, -⟩
      · rw [hout'] at hout''
        cases hout''
        exact absurd (hmatch''.mpr ho) hne
      · rw [hout'] at he
        cases he
  · rintro ⟨rfl, hlt, hvalues⟩
    refine ⟨Nat.zero_le _, by omega, ?_, fun k _ hk => ?_⟩
    · rcases hat with ⟨out, hout, hmatch, -⟩ | ⟨-, x, hx, hlarge⟩
      · exact ⟨out, hout, hmatch.mpr ho⟩
      · exact absurd (hvalues x hx) (by omega)
    · rcases hearlier k hk with hout | ⟨-, x, hx, hlarge⟩
      · exact hout
      · exact absurd (hvalues x (List.mem_append_left _ hx)) (by omega)

end

/-! ## The release -/

/-- The search goes as far as the output behind these. -/
def InReach (before : List TxOut) : Prop :=
  before.length < 64 ∧ ∀ x ∈ before, x.value.toNat ≤ maxSafeInteger

/-- What the contract finds is in a transaction of countable size. -/
theorem countable_of_found {tx : Tx} (hin : tx.inputs ≠ []) {spk : Bytes} {v : Nat}
    (h : BtcParser.findP2wshOutput tx.serialize spk = .ok v) :
    Countable tx ∧ BtcParser.paidTo spk tx.outputs = some v := by
  have hfollows := BtcParser.findP2wshOutput_follows tx.serialize spk
  rw [h] at hfollows
  have hscan := hfollows.eq_some
  rw [BtcParser.Rest.findP2wshOutput, BtcParser.skipVersion_serialize hin, Option.bind_eq_bind,
    Option.bind_some, BtcParser.skipToOutputs_eq] at hscan
  split_ifs at hscan with hsizes
  · obtain ⟨hins, hscripts, houts⟩ := hsizes
    refine ⟨⟨hin, by omega, fun i hi => ?_, by omega⟩, ?_⟩
    · have := hscripts i hi
      omega
    · change BtcParser.Rest.scanOutputs spk tx.outputs.length _ = some v at hscan
      rwa [BtcParser.scanOutputs_serialize] at hscan
  · cases hscan

theorem numberOfU64_of_le {v : Nat} (h : v ≤ maxSafeInteger) : numberOfU64 v = v := by
  have hlt : v < 2 ^ 53 := by
    unfold maxSafeInteger at h
    omega
  rw [numberOfU64, Number.ofRat_natCast hlt]
  exact Rat.num_natCast v

namespace Demo

def dust : TxOut := ⟨1000, [0x6a]⟩

/-- 64 outputs before the one to the script. -/
def wideTx : Tx :=
  { BtcParser.Demo.tx with outputs := List.replicate 64 dust ++ [⟨77777, BtcParser.Demo.spk⟩] }

theorem wideTx_find : BtcParser.findP2wshOutput wideTx.serialize BtcParser.Demo.spk = .ok 77777 := by
  have hin : wideTx.inputs ≠ [] := by simp [wideTx, BtcParser.Demo.tx]
  have hsize : wideTx.serialize.length ≤ U32_MAX := by
    rw [wideTx, Tx.serialize, List.flatMap_append]
    simp only [List.length_append, List.length_flatMap, List.map_replicate, List.sum_replicate]
    decide
  rw [BtcParser.findP2wshOutput_serialized hin (.inl rfl) hsize]
  decide

end Demo

end Writz.Relayer

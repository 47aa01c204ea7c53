import Writz.SpvTypes.Proofs.Scan
import Writz.Bitcoin.Segwit
import Writz.Util.Located

/-!
# Proofs: the output scan

What the scan of the rest finds in a serialized transaction, that it finds the same in every longer
string, and from both what the scanner over positions returns.
-/

namespace Writz.BtcParser

open Bitcoin

/-! ## Serialized transactions -/

/-- The value of the first output with a script, as far as the lengths before it have three bytes. -/
def paidTo (expectedSpk : Bytes) : List TxOut → Option Nat
  | [] => none
  | o :: outputs =>
    if o.scriptPubkey.length ≤ 0xffff then
      if o.scriptPubkey = expectedSpk then some o.value.toNat else paidTo expectedSpk outputs
    else none

theorem paidTo_sound {expectedSpk : Bytes} {v : Nat} {outputs : List TxOut}
    (h : paidTo expectedSpk outputs = some v) :
    ∃ o ∈ outputs, o.scriptPubkey = expectedSpk ∧ o.value.toNat = v := by
  induction outputs with
  | nil => cases h
  | cons o outputs ih =>
    rw [paidTo] at h
    split_ifs at h with hlen hspk
    · exact ⟨o, List.mem_cons_self, hspk, Option.some.inj h⟩
    · obtain ⟨o', ho', hfound⟩ := ih h
      exact ⟨o', List.mem_cons_of_mem _ ho', hfound⟩

theorem paidTo_eq {expectedSpk : Bytes} {outputs : List TxOut}
    (h : ∀ o ∈ outputs, o.scriptPubkey.length ≤ 0xffff) :
    paidTo expectedSpk outputs
      = (outputs.find? fun o => o.scriptPubkey = expectedSpk).map fun o => o.value.toNat := by
  induction outputs with
  | nil => rfl
  | cons o outputs ih =>
    rw [paidTo, if_pos (h o List.mem_cons_self), List.find?_cons]
    split_ifs with hspk
    · simp [hspk]
    · simp [hspk, ih fun o' ho' => h o' (List.mem_cons_of_mem _ ho')]

/-- The scanner comes to an output if it reads the scripts up to it. -/
theorem paidTo_append {expectedSpk : Bytes} {before after : List TxOut} {o : TxOut}
    (ho : o.scriptPubkey = expectedSpk) (hbefore : ∀ x ∈ before, x.scriptPubkey ≠ expectedSpk) :
    paidTo expectedSpk (before ++ o :: after)
      = if ∀ x ∈ before ++ [o], x.scriptPubkey.length ≤ 0xffff then some o.value.toNat else none := by
  induction before with
  | nil =>
    rw [List.nil_append, paidTo, if_pos ho]
    exact if_congr (by simp) rfl rfl
  | cons x before ih =>
    obtain ⟨hx, hbefore⟩ := List.forall_mem_cons.mp hbefore
    rw [List.cons_append, paidTo, if_neg hx, ih hbefore]
    by_cases hlen : x.scriptPubkey.length ≤ 0xffff
    · rw [if_pos hlen]
      exact if_congr (by simp [hlen]) rfl rfl
    · rw [if_neg hlen, if_neg fun h => hlen (h x List.mem_cons_self)]

theorem readCount_append (n : Nat) (rest : Bytes) :
    Rest.readCount (compactSize n ++ rest) = if n ≤ 0xffff then some (n, rest) else none := by
  unfold compactSize
  split_ifs with h1 h2 h3 h4
  · have hn : (UInt8.ofNat n).toNat = n := by rw [UInt8.toNat_ofNat']; omega
    rw [List.singleton_append, Rest.readCount, hn, if_pos (by omega)]
  · omega
  · rw [List.cons_append, Rest.readCount, if_neg (by decide), if_pos (by decide)]
    exact readLE_append (by omega) rest
  · rfl
  · rfl

theorem skip_append {n : Nat} {as : Bytes} (h : as.length = n) (bs : Bytes) :
    Rest.skip n (as ++ bs) = some bs := by
  rw [Rest.skip, List.length_append, if_neg (by omega), List.drop_left' h]

theorem skipInput_serialize (i : TxIn) (rest : Bytes) :
    Rest.skipInput (i.serialize ++ rest)
      = if i.scriptSig.length ≤ 0xffff then some rest else none := by
  have hpoint : (i.prevTxid ++ LittleEndian.encode 4 i.prevIndex.toNat).length = 36 := by
    rw [List.length_append, i.prevTxid_length, LittleEndian.length_encode]
  have hscript : (i.scriptSig ++ LittleEndian.encode 4 i.sequence.toNat).length
      = i.scriptSig.length + 4 := by
    rw [List.length_append, LittleEndian.length_encode]
  have hraw : i.serialize ++ rest = (i.prevTxid ++ LittleEndian.encode 4 i.prevIndex.toNat)
      ++ (compactSize i.scriptSig.length
        ++ ((i.scriptSig ++ LittleEndian.encode 4 i.sequence.toNat) ++ rest)) := by
    simp only [TxIn.serialize, List.append_assoc]
  rw [Rest.skipInput, hraw, skip_append hpoint, Option.bind_eq_bind, Option.bind_some,
    readCount_append]
  split_ifs with hlen
  · exact skip_append hscript rest
  · rfl

theorem skipInputs_serialize (rest : Bytes) (inputs : List TxIn) :
    Rest.skipInputs inputs.length (inputs.flatMap TxIn.serialize ++ rest)
      = if ∀ i ∈ inputs, i.scriptSig.length ≤ 0xffff then some rest else none := by
  induction inputs with
  | nil => simp [Rest.skipInputs]
  | cons i inputs ih =>
    rw [List.flatMap_cons, List.append_assoc, List.length_cons, Rest.skipInputs, skipInput_serialize]
    by_cases hlen : i.scriptSig.length ≤ 0xffff
    · rw [if_pos hlen, Option.bind_eq_bind, Option.bind_some, ih]
      simp only [List.forall_mem_cons, hlen, true_and]
    · rw [if_neg hlen, if_neg fun h => hlen (h i List.mem_cons_self)]
      rfl

theorem readOutput_serialize (o : TxOut) (rest : Bytes) :
    Rest.readOutput (o.serialize ++ rest)
      = if o.scriptPubkey.length ≤ 0xffff then some ((o.value.toNat, o.scriptPubkey), rest)
        else none := by
  have hvalue : o.value.toNat < 256 ^ 8 := UInt64.toNat_lt _
  have hraw : o.serialize ++ rest = LittleEndian.encode 8 o.value.toNat
      ++ (compactSize o.scriptPubkey.length ++ (o.scriptPubkey ++ rest)) := by
    simp only [TxOut.serialize, List.append_assoc]
  rw [Rest.readOutput, hraw, readLE_append hvalue]
  change (Rest.readCount _ >>= _) = _
  rw [readCount_append]
  split_ifs with hlen
  · change (readBytes _ _ >>= _) = _
    rw [readBytes_append rfl]
    rfl
  · rfl

theorem scanOutputs_serialize (expectedSpk rest : Bytes) (outputs : List TxOut) :
    Rest.scanOutputs expectedSpk outputs.length (outputs.flatMap TxOut.serialize ++ rest)
      = paidTo expectedSpk outputs := by
  induction outputs with
  | nil => rfl
  | cons o outputs ih =>
    rw [List.flatMap_cons, List.append_assoc, List.length_cons, Rest.scanOutputs,
      readOutput_serialize, paidTo]
    split_ifs with hlen hspk
    · exact if_pos hspk
    · exact (if_neg hspk).trans ih
    · rfl

/-- The inputs, the outputs and what follows them. -/
def body (tx : Tx) (rest : Bytes) : Bytes :=
  compactSize tx.inputs.length ++ (tx.inputs.flatMap TxIn.serialize
    ++ (compactSize tx.outputs.length ++ (tx.outputs.flatMap TxOut.serialize ++ rest)))

/-- The sizes that the scanner reads. -/
structure Sized (tx : Tx) : Prop where
  inputs : tx.inputs.length ≤ 0xffff
  scripts : ∀ i ∈ tx.inputs, i.scriptSig.length ≤ 0xffff
  outputs : tx.outputs.length ≤ 0xffff
  spks : ∀ o ∈ tx.outputs, o.scriptPubkey.length ≤ 0xffff

theorem skipToOutputs_eq (tx : Tx) (rest : Bytes) :
    Rest.skipToOutputs (body tx rest)
      = if tx.inputs.length ≤ 0xffff ∧ (∀ i ∈ tx.inputs, i.scriptSig.length ≤ 0xffff) ∧
          tx.outputs.length ≤ 0xffff
        then some (tx.outputs.length, tx.outputs.flatMap TxOut.serialize ++ rest) else none := by
  rw [Rest.skipToOutputs, body, readCount_append]
  by_cases hins : tx.inputs.length ≤ 0xffff
  · rw [if_pos hins]
    change (Rest.skipInputs tx.inputs.length _ >>= _) = _
    rw [skipInputs_serialize]
    by_cases hscripts : ∀ i ∈ tx.inputs, i.scriptSig.length ≤ 0xffff
    · rw [if_pos hscripts]
      change Rest.readCount _ = _
      rw [readCount_append]
      by_cases houts : tx.outputs.length ≤ 0xffff
      · rw [if_pos houts, if_pos ⟨hins, hscripts, houts⟩]
      · rw [if_neg houts, if_neg fun h => houts h.2.2]
    · rw [if_neg hscripts, if_neg fun h => hscripts h.2.1]
      rfl
  · rw [if_neg hins, if_neg fun h => hins h.1]
    rfl

/-- The byte behind the version counts inputs, so it is no marker. -/
theorem skipMarker_body {tx : Tx} (hin : tx.inputs ≠ []) (rest : Bytes) :
    Rest.skipMarker (body tx rest) = some (body tx rest) := by
  obtain ⟨b, bs, hcount, hb⟩ := compactSize_head (List.length_pos_of_ne_nil hin)
  have hb0 : b.toNat ≠ 0x00 := fun h0 => hb (UInt8.toNat_inj.mp h0)
  rw [body, hcount, List.cons_append]
  generalize bs ++ _ = tail
  cases tail with
  | nil => rw [Rest.skipMarker, if_neg hb0]
  | cons b' tail => rw [Rest.skipMarker, if_neg fun h => hb0 h.1]

theorem skipVersion_append {version : Bytes} (h : version.length = 4) (bs : Bytes) :
    Rest.skipVersion (version ++ bs) = Rest.skipMarker bs := by
  rw [Rest.skipVersion, skip_append h]
  rfl

/-- Both serializations are the body behind the version, the marker and the flag. -/
theorem skipVersion_serialize {tx : Tx} (hin : tx.inputs ≠ []) :
    Rest.skipVersion tx.serialize = some (body tx (LittleEndian.encode 4 tx.lockTime.toNat)) := by
  have hraw : tx.serialize = LittleEndian.encode 4 tx.version.toNat
      ++ body tx (LittleEndian.encode 4 tx.lockTime.toNat) := by
    simp only [Tx.serialize, body, List.append_assoc]
  rw [hraw, skipVersion_append (LittleEndian.length_encode 4 _), skipMarker_body hin]

theorem skipVersion_serializeSegwit (tx : Tx) (witnesses : List (List Bytes)) :
    Rest.skipVersion (tx.serializeSegwit witnesses)
      = some (body tx (witnesses.flatMap writeWitness ++ LittleEndian.encode 4 tx.lockTime.toNat)) := by
  have hraw : tx.serializeSegwit witnesses = LittleEndian.encode 4 tx.version.toNat
      ++ (0x00 :: 0x01 :: body tx
        (witnesses.flatMap writeWitness ++ LittleEndian.encode 4 tx.lockTime.toNat)) := by
    simp only [Tx.serializeSegwit, body, List.append_assoc, List.cons_append, List.nil_append]
  rw [hraw, skipVersion_append (LittleEndian.length_encode 4 _)]
  rfl

/-- On a transaction with inputs, the scanner returns the value of one of its outputs with the
expected script. -/
theorem findP2wshOutput_sound {tx : Tx} (hin : tx.inputs ≠ []) {expectedSpk : Bytes} {v : Nat}
    (h : findP2wshOutput tx.serialize expectedSpk = .ok v) :
    ∃ o ∈ tx.outputs, o.scriptPubkey = expectedSpk ∧ o.value.toNat = v := by
  have hfollows := findP2wshOutput_follows tx.serialize expectedSpk
  rw [h] at hfollows
  have hscan := hfollows.eq_some
  rw [Rest.findP2wshOutput, skipVersion_serialize hin, Option.bind_eq_bind, Option.bind_some,
    skipToOutputs_eq] at hscan
  split_ifs at hscan
  · change Rest.scanOutputs expectedSpk tx.outputs.length _ = some v at hscan
    rw [scanOutputs_serialize] at hscan
    exact paidTo_sound hscan
  · cases hscan

/-! ## Positions in a serialized transaction -/

section

variable {raw : Bytes} {pos : Nat}

theorem add_of_le {a b : Nat} (h : a + b ≤ U32_MAX) : add a b = .ok (a + b) := by
  rw [add, addU32, if_pos h]
  rfl

theorem checkedAdd_of_le {a b : Nat} (h : a + b ≤ U32_MAX) : checkedAdd a b = .ok (a + b) := by
  rw [checkedAdd, addU32, if_pos h]
  rfl

theorem getByte_located {b : UInt8} {bs : Bytes} (h : Located raw pos (b :: bs)) :
    getByte raw pos = .ok b.toNat := by
  rw [getByte, h.getElem?]

/-- A count is read if it has one or three bytes. -/
theorem readVarint_located (hlen : raw.length ≤ U32_MAX) {n : Nat} (h : Located raw pos (compactSize n)) :
    readVarint raw pos = if n ≤ 0xffff then .ok (n, (compactSize n).length) else .error .none := by
  by_cases hn : n ≤ 0xffff
  · have hread := @readVarint_follows raw pos
    rw [h.drop_eq, readCount_append, if_pos hn] at hread
    obtain ⟨⟨count, sz⟩, hok, hcount, -, -, hle, hrest⟩ := hread.ok_of_some hlen
    dsimp only at hcount hle hrest
    have hsz : sz = (compactSize n).length := by
      have := congrArg List.length hrest
      have := h.le_length
      rw [List.length_drop, List.length_drop] at *
      omega
    rw [hok, if_pos hn, hcount, hsz]
  · rw [if_neg hn]
    unfold compactSize at h
    rw [if_neg (by omega), if_neg hn] at h
    split_ifs at h
    · rw [readVarint, getByte_located h]
      rfl
    · rw [readVarint, getByte_located h]
      rfl

theorem inputTurn_located (hlen : raw.length ≤ U32_MAX) {i : TxIn} (h : Located raw pos i.serialize) :
    inputTurn raw pos
      = if i.scriptSig.length ≤ 0xffff then .ok (pos + i.serialize.length) else .error .none := by
  have hle := h.le_length
  have hsize : i.serialize.length
      = 36 + (compactSize i.scriptSig.length).length + i.scriptSig.length + 4 := by
    simp only [TxIn.serialize, List.length_append, i.prevTxid_length, LittleEndian.length_encode]
  have hpoint : (i.prevTxid ++ LittleEndian.encode 4 i.prevIndex.toNat).length = 36 := by
    rw [List.length_append, i.prevTxid_length, LittleEndian.length_encode]
  have hcount : Located raw (pos + 36) (compactSize i.scriptSig.length) := by
    have hinput := h
    rw [TxIn.serialize, List.append_assoc _ _ (LittleEndian.encode 4 i.sequence.toNat),
      List.append_assoc _ (compactSize _)] at hinput
    exact (hinput.right' hpoint).left
  unfold inputTurn
  rw [add_of_le (by omega)]
  change (failIf _ _ >>= _) = _
  rw [failIf, if_neg (by omega)]
  change (readVarint raw (pos + 36) >>= _) = _
  rw [readVarint_located hlen hcount]
  by_cases hscript : i.scriptSig.length ≤ 0xffff
  · rw [if_pos hscript, if_pos hscript]
    change (add _ _ >>= _) = _
    rw [add_of_le (by omega)]
    change (checkedAdd _ _ >>= _) = _
    rw [checkedAdd_of_le (by omega)]
    change (add _ _ >>= _) = _
    rw [add_of_le (by omega)]
    change (failIf _ _ >>= _) = _
    rw [failIf, if_neg (by omega)]
    change Except.ok (_ + 4) = _
    rw [hsize]
    congr 1
    omega
  · rw [if_neg hscript, if_neg hscript]
    rfl

theorem skipInputs_located (hlen : raw.length ≤ U32_MAX) {inputs : List TxIn}
    (h : Located raw pos (inputs.flatMap TxIn.serialize)) :
    skipInputs raw inputs.length pos
      = if ∀ i ∈ inputs, i.scriptSig.length ≤ 0xffff then
          .ok (pos + (inputs.flatMap TxIn.serialize).length)
        else .error .none := by
  induction inputs generalizing pos with
  | nil => simp [skipInputs]
  | cons i inputs ih =>
    rw [List.flatMap_cons] at h
    rw [List.length_cons, skipInputs_succ, inputTurn_located hlen h.left]
    by_cases hscript : i.scriptSig.length ≤ 0xffff
    · rw [if_pos hscript]
      change skipInputs raw inputs.length _ = _
      rw [ih h.right, List.flatMap_cons, List.length_append, Nat.add_assoc]
      simp only [List.forall_mem_cons, hscript, true_and]
    · rw [if_neg hscript, if_neg fun hall => hscript (hall i List.mem_cons_self)]
      rfl

theorem outputTurn_located (hlen : raw.length ≤ U32_MAX) (expectedSpk : Bytes) {o : TxOut}
    (h : Located raw pos o.serialize) :
    outputTurn raw expectedSpk pos
      = if o.scriptPubkey.length ≤ 0xffff then
          .ok (if o.scriptPubkey = expectedSpk then .inl o.value.toNat
            else .inr (pos + o.serialize.length))
        else .error .none := by
  have hle := h.le_length
  have hsize : o.serialize.length
      = 8 + (compactSize o.scriptPubkey.length).length + o.scriptPubkey.length := by
    simp only [TxOut.serialize, List.length_append, LittleEndian.length_encode]
  rw [TxOut.serialize, List.append_assoc] at h
  have hvalue : readU64Le raw pos = .ok o.value.toNat := by
    have htake := h.left.take_drop
    rw [LittleEndian.length_encode] at htake
    have hread := @readU64Le_follows raw pos (by omega)
    rw [htake, LittleEndian.decode_encode (UInt64.toNat_lt _)] at hread
    obtain ⟨value, hok, rfl⟩ := hread.ok_of_some hlen
    exact hok
  have hcount := h.right' (LittleEndian.length_encode 8 _)
  unfold outputTurn
  rw [add_of_le (by omega), hvalue]
  change (failIf _ _ >>= _) = _
  rw [failIf, if_neg (by omega)]
  change (readVarint raw (pos + 8) >>= _) = _
  rw [readVarint_located hlen hcount.left]
  by_cases hscript : o.scriptPubkey.length ≤ 0xffff
  · rw [if_pos hscript, if_pos hscript]
    change (add _ _ >>= _) = _
    rw [add_of_le (by omega)]
    change (checkedAdd _ _ >>= _) = _
    rw [checkedAdd_of_le (by omega)]
    change (failIf _ _ >>= _) = _
    rw [failIf, if_neg (by omega)]
    change (if (raw.drop _).take _ = expectedSpk then _ else _) = _
    rw [hcount.right.take_drop, hsize]
    split_ifs
    · rfl
    · congr 2
      omega
  · rw [if_neg hscript, if_neg hscript]
    rfl

/-- Every output is read, up to the first with the expected script. -/
theorem scanOutputs_located (hlen : raw.length ≤ U32_MAX) (expectedSpk : Bytes) {outputs : List TxOut}
    (h : Located raw pos (outputs.flatMap TxOut.serialize)) :
    scanOutputs raw expectedSpk outputs.length pos = okOr (paidTo expectedSpk outputs) .none := by
  induction outputs generalizing pos with
  | nil => rfl
  | cons o outputs ih =>
    rw [List.flatMap_cons] at h
    rw [List.length_cons, scanOutputs_succ, outputTurn_located hlen expectedSpk h.left, paidTo]
    split_ifs with hscript hspk
    · rfl
    · exact ih h.right
    · rfl

end

/-- What the scanner finds in a transaction. -/
def found (tx : Tx) (expectedSpk : Bytes) : Option Nat :=
  if tx.inputs.length ≤ 0xffff ∧ (∀ i ∈ tx.inputs, i.scriptSig.length ≤ 0xffff) ∧
      tx.outputs.length ≤ 0xffff then
    paidTo expectedSpk tx.outputs
  else none

theorem skipSegwitMarker_serialize {tx : Tx} (hin : tx.inputs ≠ []) {raw rest : Bytes}
    (h : Located raw 4 (body tx rest)) : skipSegwitMarker raw 4 = .ok 4 := by
  obtain ⟨b, bs, hcount, hb⟩ := compactSize_head (List.length_pos_of_ne_nil hin)
  have hb0 : b.toNat ≠ 0x00 := fun h0 => hb (UInt8.toNat_inj.mp h0)
  have hfirst := h.left
  rw [hcount] at hfirst
  rw [skipSegwitMarker, getByte_located hfirst]
  change (if b.toNat = 0x00 then _ else _) = _
  rw [if_neg hb0]

/-- In either serialization of a transaction the scanner finds the same. -/
theorem findP2wshOutput_serialized {tx : Tx} (hin : tx.inputs ≠ []) {raw : Bytes}
    (hraw : raw = tx.serialize ∨ ∃ witnesses, raw = tx.serializeSegwit witnesses)
    (hlen : raw.length ≤ U32_MAX) (expectedSpk : Bytes) :
    findP2wshOutput raw expectedSpk = okOr (found tx expectedSpk) .none := by
  -- the body, and the position where it begins
  obtain ⟨start, rest, hstart, hskip, hbody⟩ : ∃ start rest, 4 ≤ start ∧
      skipSegwitMarker raw 4 = .ok start ∧ Located raw start (body tx rest) := by
    rcases hraw with rfl | ⟨witnesses, rfl⟩
    · have hraw : tx.serialize = LittleEndian.encode 4 tx.version.toNat
          ++ body tx (LittleEndian.encode 4 tx.lockTime.toNat) := by
        simp only [Tx.serialize, body, List.append_assoc]
      have hbody := (Located.of_eq hraw).right' (LittleEndian.length_encode 4 _)
      exact ⟨4, _, by decide, skipSegwitMarker_serialize hin hbody, hbody⟩
    · have hraw : tx.serializeSegwit witnesses = LittleEndian.encode 4 tx.version.toNat
          ++ (0x00 :: 0x01 :: body tx
            (witnesses.flatMap writeWitness ++ LittleEndian.encode 4 tx.lockTime.toNat)) := by
        simp only [Tx.serializeSegwit, body, List.append_assoc, List.cons_append, List.nil_append]
      have hmarker := (Located.of_eq hraw).right' (LittleEndian.length_encode 4 _)
      refine ⟨6, _, by decide, ?_, hmarker.tail.tail⟩
      rw [skipSegwitMarker, getByte_located hmarker, getByte_located hmarker.tail]
      rfl
  have hinputs := hbody.right
  have houtputCount := hinputs.right
  have houtputs := houtputCount.right
  have h5 : ¬ raw.length < 5 := by
    have hle := hbody.left.le_length
    obtain ⟨b, bs, hcount, -⟩ := compactSize_head (List.length_pos_of_ne_nil hin)
    rw [hcount, List.length_cons] at hle
    omega
  rw [findP2wshOutput_eq_bind]
  unfold outputsAt found
  rw [failIf, if_neg h5]
  change ((skipSegwitMarker raw 4 >>= _) >>= _) = _
  rw [hskip]
  change ((readVarint raw start >>= _) >>= _) = _
  rw [readVarint_located hlen hbody.left]
  by_cases hins : tx.inputs.length ≤ 0xffff
  · rw [if_pos hins]
    change ((add _ _ >>= _) >>= _) = _
    rw [add_of_le (hinputs.left.le_length.trans' (Nat.le_add_right _ _) |>.trans hlen)]
    change ((skipInputs raw _ _ >>= _) >>= _) = _
    rw [skipInputs_located hlen hinputs.left]
    by_cases hscripts : ∀ i ∈ tx.inputs, i.scriptSig.length ≤ 0xffff
    · rw [if_pos hscripts]
      change ((readVarint raw _ >>= _) >>= _) = _
      rw [readVarint_located hlen houtputCount.left]
      by_cases houts : tx.outputs.length ≤ 0xffff
      · rw [if_pos houts, if_pos ⟨hins, hscripts, houts⟩]
        change ((add _ _ >>= _) >>= _) = _
        rw [add_of_le (houtputs.left.le_length.trans' (Nat.le_add_right _ _) |>.trans hlen)]
        exact scanOutputs_located hlen expectedSpk houtputs.left
      · rw [if_neg houts, if_neg fun h => houts h.2.2]
        rfl
    · rw [if_neg hscripts, if_neg fun h => hscripts h.2.1]
      rfl
  · rw [if_neg hins, if_neg fun h => hins h.1]
    rfl

/-- On a transaction of the sizes it reads, in either serialization, the scanner returns the value of
the first output with the expected script. -/
theorem findP2wshOutput_eq {tx : Tx} (hin : tx.inputs ≠ []) (hsized : Sized tx) {raw : Bytes}
    (hraw : raw = tx.serialize ∨ ∃ witnesses, raw = tx.serializeSegwit witnesses)
    (hlen : raw.length ≤ U32_MAX) (expectedSpk : Bytes) :
    findP2wshOutput raw expectedSpk
      = okOr ((tx.outputs.find? fun o => o.scriptPubkey = expectedSpk).map fun o => o.value.toNat)
          .none := by
  rw [findP2wshOutput_serialized hin hraw hlen, found,
    if_pos ⟨hsized.inputs, hsized.scripts, hsized.outputs⟩, paidTo_eq hsized.spks]

/-! ## Longer strings -/

namespace Rest

theorem skip_extends {n : Nat} {bs rest : Bytes} (h : skip n bs = some rest) (more : Bytes) :
    skip n (bs ++ more) = some (rest ++ more) := by
  unfold skip at h ⊢
  split_ifs at h with hlen
  have hle := not_lt.mp hlen
  rw [if_neg (by rw [List.length_append]; omega), List.drop_append_of_le_length hle,
    Option.some.inj h]

theorem readBytes_extends {n : Nat} {bs as rest : Bytes} (h : readBytes n bs = some (as, rest))
    (more : Bytes) : readBytes n (bs ++ more) = some (as, rest ++ more) := by
  unfold readBytes at h ⊢
  split_ifs at h with hlen
  cases h
  have hle := not_lt.mp hlen
  rw [if_neg (by rw [List.length_append]; omega), List.drop_append_of_le_length hle,
    List.take_append_of_le_length hle]

theorem readLE_extends {k v : Nat} {bs rest : Bytes} (h : readLE k bs = some (v, rest))
    (more : Bytes) : readLE k (bs ++ more) = some (v, rest ++ more) := by
  unfold readLE at h ⊢
  split_ifs at h with hlen
  cases h
  have hle := not_lt.mp hlen
  rw [if_neg (by rw [List.length_append]; omega), List.drop_append_of_le_length hle,
    List.take_append_of_le_length hle]

theorem readCount_extends {v : Nat} {bs rest : Bytes} (h : readCount bs = some (v, rest))
    (more : Bytes) : readCount (bs ++ more) = some (v, rest ++ more) := by
  cases bs with
  | nil => cases h
  | cons b bs =>
    rw [readCount] at h
    rw [List.cons_append, readCount]
    split_ifs at h ⊢ with h1 hfd
    · cases h
      rfl
    · exact readLE_extends h more

theorem skipMarker_extends {bs rest : Bytes} (h : skipMarker bs = some rest) (more : Bytes) :
    skipMarker (bs ++ more) = some (rest ++ more) := by
  match bs with
  | [] => cases h
  | [b] =>
    rw [skipMarker] at h
    split_ifs at h with h0
    cases h
    cases more with
    | nil => rw [List.append_nil, skipMarker, if_neg h0]
    | cons b' more => rw [List.cons_append, List.nil_append, skipMarker, if_neg fun h => h0 h.1]
  | b :: b' :: bs =>
    rw [skipMarker] at h
    rw [List.cons_append, List.cons_append, skipMarker]
    split_ifs at h ⊢ <;> cases h <;> rfl

theorem skipInput_extends {bs rest : Bytes} (h : skipInput bs = some rest) (more : Bytes) :
    skipInput (bs ++ more) = some (rest ++ more) := by
  simp only [skipInput, Option.bind_eq_bind, Option.bind_eq_some_iff] at h ⊢
  obtain ⟨bs₁, h₁, ⟨scriptLen, bs₂⟩, h₂, h₃⟩ := h
  exact ⟨_, skip_extends h₁ more, _, readCount_extends h₂ more, skip_extends h₃ more⟩

theorem skipInputs_extends (inputCount : Nat) : ∀ {bs rest : Bytes},
    skipInputs inputCount bs = some rest → ∀ more,
      skipInputs inputCount (bs ++ more) = some (rest ++ more) := by
  induction inputCount with
  | zero =>
    intro bs rest h more
    cases h
    rfl
  | succ inputCount ih =>
    intro bs rest h more
    simp only [skipInputs, Option.bind_eq_bind, Option.bind_eq_some_iff] at h ⊢
    obtain ⟨bs₁, h₁, h₂⟩ := h
    exact ⟨_, skipInput_extends h₁ more, ih h₂ more⟩

theorem readOutput_extends {bs rest : Bytes} {o : Nat × Bytes} (h : readOutput bs = some (o, rest))
    (more : Bytes) : readOutput (bs ++ more) = some (o, rest ++ more) := by
  simp only [readOutput, Option.bind_eq_bind, Option.bind_eq_some_iff] at h ⊢
  obtain ⟨⟨value, bs₁⟩, h₁, ⟨spkLen, bs₂⟩, h₂, ⟨spk, bs₃⟩, h₃, h⟩ := h
  cases h
  exact ⟨_, readLE_extends h₁ more, _, readCount_extends h₂ more, _, readBytes_extends h₃ more, rfl⟩

theorem scanOutputs_extends (expectedSpk : Bytes) (outputCount : Nat) : ∀ {bs : Bytes} {v : Nat},
    scanOutputs expectedSpk outputCount bs = some v → ∀ more,
      scanOutputs expectedSpk outputCount (bs ++ more) = some v := by
  induction outputCount with
  | zero =>
    intro bs v h
    cases h
  | succ outputCount ih =>
    intro bs v h more
    simp only [scanOutputs, Option.bind_eq_bind, Option.bind_eq_some_iff] at h ⊢
    obtain ⟨⟨⟨value, spk⟩, bs₁⟩, h₁, h₂⟩ := h
    refine ⟨_, readOutput_extends h₁ more, ?_⟩
    split_ifs at h₂ ⊢
    · exact h₂
    · exact ih h₂ more

/-- What is found in a string is found in every longer one. -/
theorem find_extends {rawTx expectedSpk : Bytes} {v : Nat}
    (h : findP2wshOutput rawTx expectedSpk = some v) (more : Bytes) :
    findP2wshOutput (rawTx ++ more) expectedSpk = some v := by
  simp only [findP2wshOutput, skipVersion, skipToOutputs, Option.bind_eq_bind,
    Option.bind_eq_some_iff] at h ⊢
  obtain ⟨bs, ⟨bs₁, h₁, h₂⟩, ⟨outputCount, bs₃⟩, ⟨⟨inputCount, bs₄⟩, h₄, bs₅, h₅, h₆⟩, h₇⟩ := h
  exact ⟨_, ⟨_, skip_extends h₁ more, skipMarker_extends h₂ more⟩, _,
    ⟨_, readCount_extends h₄ more, _, skipInputs_extends inputCount h₅ more,
      readCount_extends h₆ more⟩, scanOutputs_extends expectedSpk outputCount h₇ more⟩

end Rest

/-- On a prefix the scanner returns nothing, or what it returns on the whole string. -/
theorem findP2wshOutput_take {raw : Bytes} (hlen : raw.length ≤ 2 ^ 31) (expectedSpk : Bytes) (k : Nat) :
    findP2wshOutput (raw.take k) expectedSpk = .error .none ∨
      findP2wshOutput (raw.take k) expectedSpk = findP2wshOutput raw expectedSpk := by
  have htake : (raw.take k).length ≤ 2 ^ 31 := by
    rw [List.length_take]
    omega
  rw [(findP2wshOutput_follows _ _).eq htake, (findP2wshOutput_follows _ _).eq hlen]
  cases hscan : Rest.findP2wshOutput (raw.take k) expectedSpk with
  | none => exact .inl rfl
  | some v =>
    have hwhole := Rest.find_extends hscan (raw.drop k)
    rw [List.take_append_drop] at hwhole
    rw [hwhole]
    exact .inr rfl

/-- The output scan: on every transaction of the sizes it reads, in either serialization, it returns
the value of the first output with the script; on every byte string it neither traps nor takes more
turns than the bytes allow, and what it returns on a prefix it returns on the whole. -/
theorem output_scan {tx : Tx} (hin : tx.inputs ≠ []) (hsized : Sized tx) {rawTx : Bytes}
    (hraw : rawTx = tx.serialize ∨ ∃ witnesses, rawTx = tx.serializeSegwit witnesses)
    (hfits : rawTx.length ≤ U32_MAX) {raw : Bytes} (hlen : raw.length ≤ 2 ^ 31)
    (expectedSpk : Bytes) :
    findP2wshOutput rawTx expectedSpk
        = okOr ((tx.outputs.find? fun o => o.scriptPubkey = expectedSpk).map fun o => o.value.toNat)
            .none ∧
      findP2wshOutput raw expectedSpk ≠ .error .trap ∧
      (∀ count pos, pos ≤ raw.length →
        41 * inputTurns raw count pos ≤ raw.length - pos + 41 ∧
          9 * outputTurns raw expectedSpk count pos ≤ raw.length - pos + 9) ∧
      ∀ k, findP2wshOutput (raw.take k) expectedSpk = .error .none ∨
        findP2wshOutput (raw.take k) expectedSpk = findP2wshOutput raw expectedSpk := by
  refine ⟨findP2wshOutput_eq hin hsized hraw hfits expectedSpk, ?_, ?_,
    findP2wshOutput_take hlen expectedSpk⟩
  · rw [(findP2wshOutput_follows raw expectedSpk).eq hlen]
    cases Rest.findP2wshOutput raw expectedSpk with
    | none => rintro ⟨⟩
    | some v => rintro ⟨⟩
  · intro count pos hpos
    exact ⟨inputTurns_le count hpos, outputTurns_le expectedSpk count hpos⟩

namespace Demo

/-- A P2WSH script. -/
def spk : Bytes := 0x00 :: 0x20 :: List.replicate 32 0xde

/-- Two outputs, the second to the script. -/
def tx : Tx where
  version := 2
  inputs :=
    [{ prevTxid := List.replicate 32 0, prevTxid_length := rfl, prevIndex := 1, scriptSig := []
       sequence := 0xfffffffe }]
  outputs := [⟨50000, [0x6a]⟩, ⟨77777, spk⟩]
  lockTime := 0

def witness : List Bytes := [[0x30, 0x45], [0x02, 0x79]]

end Demo

/-- With the marker, the flag and a witness. -/
theorem output_scan_segwit :
    findP2wshOutput (Demo.tx.serializeSegwit [Demo.witness]) Demo.spk = .ok 77777 := by
  have hsized : Sized Demo.tx := by constructor <;> decide
  have hscan := @output_scan Demo.tx (by simp [Demo.tx]) hsized _ (.inr ⟨[Demo.witness], rfl⟩)
    (by decide) [] (by decide) Demo.spk
  rw [hscan.1]
  decide

end Writz.BtcParser

import Writz.Bitcoin.Segwit
import Writz.Relayer.Bitcoin.Tx
import Writz.SpvTypes.Proofs.BtcParser
import Writz.Util.Located

/-!
# Proofs: the non-witness serialization

What the parser copies of a serialized transaction, and that it fails on every shorter byte string.
-/

namespace Writz.Relayer

open Node Bitcoin

/-! ## Reading what is located -/

section

variable {buf a : Bytes} {i : Nat}

theorem readUIntLE_located {k : Nat} (h : Located buf i a) (hk : a.length = k) :
    readUIntLE k buf i = .ok (LittleEndian.decode a) := by
  subst hk
  rw [readUIntLE, if_pos h.le_length, h.take_drop]

theorem readUIntLE_encode {k n : Nat} (h : Located buf i (LittleEndian.encode k n))
    (hn : n < 256 ^ k) : readUIntLE k buf i = .ok n := by
  rw [readUIntLE_located h (LittleEndian.length_encode k n), LittleEndian.decode_encode hn]

theorem sliceExact_located {k : Nat} (h : Located buf i a) (hk : a.length = k) :
    sliceExact buf i k = .ok a := by
  subst hk
  rw [sliceExact, if_pos h.le_length, h.take_drop]

/-- Every count below `2 ^ 32` is read. -/
theorem readVarInt_located {n : Nat} (h : Located buf i (compactSize n)) (hn : n < 2 ^ 32) :
    readVarInt buf i = .ok (n, (compactSize n).length) := by
  unfold compactSize at h ⊢
  split_ifs at h ⊢ with h1 h2 h3
  · have hvalue : (UInt8.ofNat n).toNat = n := by
      rw [UInt8.toNat_ofNat']
      omega
    have hlt : UInt8.ofNat n < 0xfd := UInt8.lt_iff_toNat_lt.mpr (by rw [hvalue]; exact h1)
    rw [readVarInt, h.getElem?]
    dsimp only
    rw [if_pos hlt, hvalue]
    rfl
  · have hread := readUIntLE_encode h.tail (show n < 256 ^ 2 by omega)
    rw [readVarInt, h.getElem?]
    dsimp only
    rw [if_neg (by decide), if_pos rfl]
    change (readUIntLE 2 buf (i + 1) >>= _) = _
    rw [hread, List.length_cons, LittleEndian.length_encode]
    rfl
  · have hread := readUIntLE_encode h.tail (show n < 256 ^ 4 by omega)
    rw [readVarInt, h.getElem?]
    dsimp only
    rw [if_neg (by decide), if_neg (by decide), if_pos rfl]
    change (readUIntLE 4 buf (i + 1) >>= _) = _
    rw [hread, List.length_cons, LittleEndian.length_encode]
    rfl
  · omega

end

/-! ## Copying a transaction -/

section

variable {buf : Bytes} {i : Nat}

theorem copyInputs_located {inputs : List TxIn} (h : Located buf i (inputs.flatMap TxIn.serialize))
    (hscripts : ∀ input ∈ inputs, input.scriptSig.length < 2 ^ 32) (out : Bytes) :
    copyInputs buf inputs.length i out = .ok
      (i + (inputs.flatMap TxIn.serialize).length, out ++ inputs.flatMap TxIn.serialize) := by
  induction inputs generalizing i out with
  | nil => simp [copyInputs]
  | cons input inputs ih =>
    rw [List.flatMap_cons] at h
    have hinput := h.left
    simp only [TxIn.serialize, List.append_assoc] at hinput
    rw [← List.append_assoc] at hinput
    have hpoint : (input.prevTxid ++ LittleEndian.encode 4 input.prevIndex.toNat).length = 36 := by
      rw [List.length_append, input.prevTxid_length, LittleEndian.length_encode]
    have hscript := hinput.right' hpoint
    have hlen := readVarInt_located hscript.left (hscripts input List.mem_cons_self)
    rw [← List.append_assoc] at hscript
    have hrest := ih h.right fun x hx => hscripts x (List.mem_cons_of_mem _ hx)
    rw [List.length_cons, copyInputs, sliceExact_located hinput.left hpoint]
    simp only [bind, Except.bind]
    rw [hlen]
    dsimp only
    rw [sliceExact_located hscript.left List.length_append]
    dsimp only
    rw [← List.length_append, sliceExact_located hscript.right (LittleEndian.length_encode 4 _)]
    dsimp only
    have hnext : i + 36 + (compactSize input.scriptSig.length ++ input.scriptSig).length + 4
        = i + input.serialize.length := by
      simp only [TxIn.serialize, List.length_append, input.prevTxid_length, LittleEndian.length_encode]
      omega
    rw [hnext, hrest]
    simp only [List.flatMap_cons, List.length_append, TxIn.serialize, List.append_assoc, Nat.add_assoc]

theorem copyOutputs_located {outputs : List TxOut}
    (h : Located buf i (outputs.flatMap TxOut.serialize))
    (hscripts : ∀ o ∈ outputs, o.scriptPubkey.length < 2 ^ 32) (out : Bytes) :
    copyOutputs buf outputs.length i out = .ok
      (i + (outputs.flatMap TxOut.serialize).length, out ++ outputs.flatMap TxOut.serialize) := by
  induction outputs generalizing i out with
  | nil => simp [copyOutputs]
  | cons o outputs ih =>
    rw [List.flatMap_cons] at h
    have houtput := h.left
    rw [TxOut.serialize, List.append_assoc] at houtput
    have hscript := houtput.right' (LittleEndian.length_encode 8 _)
    have hlen := readVarInt_located hscript.left (hscripts o List.mem_cons_self)
    have hrest := ih h.right fun x hx => hscripts x (List.mem_cons_of_mem _ hx)
    rw [List.length_cons, copyOutputs, sliceExact_located houtput.left (LittleEndian.length_encode 8 _)]
    simp only [bind, Except.bind]
    rw [hlen]
    dsimp only
    rw [sliceExact_located hscript List.length_append]
    dsimp only
    have hnext : i + 8 + ((compactSize o.scriptPubkey.length).length + o.scriptPubkey.length)
        = i + o.serialize.length := by
      simp only [TxOut.serialize, List.length_append, LittleEndian.length_encode]
      omega
    rw [hnext, hrest]
    simp only [List.flatMap_cons, List.length_append, TxOut.serialize, List.append_assoc, Nat.add_assoc]

/-- The items of a witness, each behind its length. -/
theorem skipItems_located {items : List Bytes}
    (h : Located buf i (items.flatMap fun item => compactSize item.length ++ item))
    (hitems : ∀ item ∈ items, item.length < 2 ^ 32) :
    skipItems buf items.length i
      = .ok (i + (items.flatMap fun item => compactSize item.length ++ item).length) := by
  induction items generalizing i with
  | nil => simp [skipItems]
  | cons item items ih =>
    rw [List.flatMap_cons] at h
    have hrest := ih h.right fun x hx => hitems x (List.mem_cons_of_mem _ hx)
    rw [List.length_cons, skipItems, readVarInt_located h.left.left (hitems item List.mem_cons_self)]
    simp only [bind, Except.bind]
    rw [← List.length_append, hrest, List.flatMap_cons, Nat.add_assoc]
    simp only [List.length_append]

theorem skipWitnesses_located {witnesses : List (List Bytes)}
    (h : Located buf i (witnesses.flatMap writeWitness))
    (hcounts : ∀ w ∈ witnesses, w.length < 2 ^ 32)
    (hitems : ∀ w ∈ witnesses, ∀ item ∈ w, item.length < 2 ^ 32) :
    skipWitnesses buf witnesses.length i = .ok (i + (witnesses.flatMap writeWitness).length) := by
  induction witnesses generalizing i with
  | nil => simp [skipWitnesses]
  | cons w witnesses ih =>
    rw [List.flatMap_cons] at h
    have hrest := ih h.right (fun x hx => hcounts x (List.mem_cons_of_mem _ hx))
      fun x hx => hitems x (List.mem_cons_of_mem _ hx)
    have hw := h.left
    rw [writeWitness] at hw
    rw [List.length_cons, skipWitnesses, readVarInt_located hw.left (hcounts w List.mem_cons_self)]
    simp only [bind, Except.bind]
    rw [skipItems_located hw.right (hitems w List.mem_cons_self)]
    dsimp only
    have hnext : i + (compactSize w.length).length
        + (w.flatMap fun item => compactSize item.length ++ item).length
        = i + (writeWitness w).length := by
      rw [writeWitness, List.length_append, Nat.add_assoc]
    rw [hnext, hrest, List.flatMap_cons, List.length_append, Nat.add_assoc]

end

/-! ## Before the lock time -/

/-- What is copied of a transaction with a marker, up to its lock time, and where that is. -/
def beforeLocktime (buf : Bytes) : Node.Result (Nat × Bytes) := do
  let version ← sliceExact buf 0 4
  let (inputCount, inputCountLen) ← readVarInt buf 6
  let inputCountBytes ← sliceExact buf 6 inputCountLen
  let (i, out) ← copyInputs buf inputCount (6 + inputCountLen) (version ++ inputCountBytes)
  let (outputCount, outputCountLen) ← readVarInt buf i
  let outputCountBytes ← sliceExact buf i outputCountLen
  let (i, out) ← copyOutputs buf outputCount (i + outputCountLen) (out ++ outputCountBytes)
  let i ← skipWitnesses buf inputCount i
  .ok (i, out)

theorem stripWitness_of_segwit {rawHex : Text} (h : isSegwit rawHex = true) :
    stripWitness rawHex = beforeLocktime (fromHex rawHex) >>= fun r =>
      sliceExact (fromHex rawHex) r.1 4 >>= fun locktime => .ok (Hex.encode (r.2 ++ locktime)) := by
  unfold stripWitness beforeLocktime
  rw [h]
  simp only [Bool.not_true, Bool.false_eq_true, if_false, bind_assoc]
  rfl

/-- The sizes that are read. -/
structure Counted (tx : Tx) (witnesses : List (List Bytes)) : Prop where
  inputs : tx.inputs.length < 2 ^ 32
  scripts : ∀ i ∈ tx.inputs, i.scriptSig.length < 2 ^ 32
  outputs : tx.outputs.length < 2 ^ 32
  spks : ∀ o ∈ tx.outputs, o.scriptPubkey.length < 2 ^ 32
  perInput : witnesses.length = tx.inputs.length
  counts : ∀ w ∈ witnesses, w.length < 2 ^ 32
  items : ∀ w ∈ witnesses, ∀ item ∈ w, item.length < 2 ^ 32

section

variable {tx : Tx} {witnesses : List (List Bytes)}

theorem serializeSegwit_eq (tx : Tx) (witnesses : List (List Bytes)) :
    tx.serializeSegwit witnesses
      = LittleEndian.encode 4 tx.version.toNat ++ ([0x00, 0x01] ++ (compactSize tx.inputs.length ++
        (tx.inputs.flatMap TxIn.serialize ++ (compactSize tx.outputs.length ++
        (tx.outputs.flatMap TxOut.serialize ++ (witnesses.flatMap writeWitness ++
          LittleEndian.encode 4 tx.lockTime.toNat)))))) := by
  simp only [Tx.serializeSegwit, List.append_assoc]

/-- All of a transaction is before its lock time, which is at the end. -/
theorem beforeLocktime_serializeSegwit (h : Counted tx witnesses) :
    ∃ i out, beforeLocktime (tx.serializeSegwit witnesses) = .ok (i, out) ∧
      out ++ LittleEndian.encode 4 tx.lockTime.toNat = tx.serialize ∧
      Located (tx.serializeSegwit witnesses) i (LittleEndian.encode 4 tx.lockTime.toNat) ∧
      i + 4 = (tx.serializeSegwit witnesses).length := by
  have hraw := serializeSegwit_eq tx witnesses
  have hwhole := Located.of_eq hraw
  have hend := congrArg List.length hraw
  generalize tx.serializeSegwit witnesses = raw at *
  have hversion := sliceExact_located hwhole.left (LittleEndian.length_encode 4 _)
  have hmarker := hwhole.right' (LittleEndian.length_encode 4 _)
  have hbody : Located raw 6 _ := hmarker.right
  have hinputs := hbody.right
  have houtputCount := hinputs.right
  have houtputs := houtputCount.right
  have hwitnesses := houtputs.right
  have hskipped := skipWitnesses_located hwitnesses.left h.counts h.items
  rw [h.perInput] at hskipped
  refine ⟨_, LittleEndian.encode 4 tx.version.toNat ++ compactSize tx.inputs.length
    ++ tx.inputs.flatMap TxIn.serialize ++ compactSize tx.outputs.length
    ++ tx.outputs.flatMap TxOut.serialize, ?_, rfl, hwitnesses.right, ?_⟩
  · unfold beforeLocktime
    rw [hversion]
    simp only [bind, Except.bind]
    rw [readVarInt_located hbody.left h.inputs]
    dsimp only
    rw [sliceExact_located hbody.left rfl]
    dsimp only
    rw [copyInputs_located hinputs.left h.scripts]
    dsimp only
    rw [readVarInt_located houtputCount.left h.outputs]
    dsimp only
    rw [sliceExact_located houtputCount.left rfl]
    dsimp only
    rw [copyOutputs_located houtputs.left h.spks]
    dsimp only
    rw [hskipped]
  · rw [hend]
    simp only [List.length_append, LittleEndian.length_encode, List.length_cons, List.length_nil]
    omega

end

/-! ## Prefixes -/

/-- The same result, or an error. -/
def Cut {α : Type} (r r' : Node.Result α) : Prop := (∃ e, r = .error e) ∨ r = r'

theorem Cut.bind {α β : Type} {r r' : Node.Result α} {f f' : α → Node.Result β} (h : Cut r r')
    (hf : ∀ a, Cut (f a) (f' a)) : Cut (r >>= f) (r' >>= f') := by
  rcases h with ⟨e, rfl⟩ | rfl
  · exact .inl ⟨e, rfl⟩
  · cases r with
    | error e => exact .inl ⟨e, rfl⟩
    | ok a => exact hf a

theorem Cut.refl {α : Type} (r : Node.Result α) : Cut r r := .inr rfl

section

variable (buf : Bytes) (n : Nat)

theorem readUIntLE_cut (k i : Nat) : Cut (readUIntLE k (buf.take n) i) (readUIntLE k buf i) := by
  unfold readUIntLE
  by_cases h : i + k ≤ (buf.take n).length
  · rw [List.length_take] at h
    rw [if_pos (by rw [List.length_take]; exact h), if_pos (by omega), List.drop_take, List.take_take,
      min_eq_left (by omega)]
    exact .refl _
  · rw [if_neg h]
    exact .inl ⟨_, rfl⟩

theorem sliceExact_cut (i k : Nat) : Cut (sliceExact (buf.take n) i k) (sliceExact buf i k) := by
  unfold sliceExact
  by_cases h : i + k ≤ (buf.take n).length
  · rw [List.length_take] at h
    rw [if_pos (by rw [List.length_take]; exact h), if_pos (by omega), List.drop_take, List.take_take,
      min_eq_left (by omega)]
    exact .refl _
  · rw [if_neg h]
    exact .inl ⟨_, rfl⟩

theorem readVarInt_cut (i : Nat) : Cut (readVarInt (buf.take n) i) (readVarInt buf i) := by
  unfold readVarInt
  by_cases hi : i < n
  · rw [List.getElem?_take_of_lt hi]
    cases buf[i]? with
    | none => exact .refl _
    | some first =>
      dsimp only
      split_ifs
      · exact .refl _
      · exact (readUIntLE_cut buf n 2 (i + 1)).bind fun _ => .refl _
      · exact (readUIntLE_cut buf n 4 (i + 1)).bind fun _ => .refl _
      · exact (readUIntLE_cut buf n 4 (i + 1)).bind fun _ =>
          (readUIntLE_cut buf n 4 (i + 5)).bind fun _ => .refl _
  · have hnone : (buf.take n)[i]? = none := by
      refine List.getElem?_eq_none ?_
      rw [List.length_take]
      omega
    rw [hnone]
    exact .inl ⟨_, rfl⟩

theorem copyInputs_cut (count : Nat) : ∀ i out,
    Cut (copyInputs (buf.take n) count i out) (copyInputs buf count i out) := by
  induction count with
  | zero => exact fun i out => .refl _
  | succ count ih =>
    intro i out
    exact (sliceExact_cut buf n i 36).bind fun _ => (readVarInt_cut buf n _).bind fun _ =>
      (sliceExact_cut buf n _ _).bind fun _ => (sliceExact_cut buf n _ 4).bind fun _ => ih _ _

theorem copyOutputs_cut (count : Nat) : ∀ i out,
    Cut (copyOutputs (buf.take n) count i out) (copyOutputs buf count i out) := by
  induction count with
  | zero => exact fun i out => .refl _
  | succ count ih =>
    intro i out
    exact (sliceExact_cut buf n i 8).bind fun _ => (readVarInt_cut buf n _).bind fun _ =>
      (sliceExact_cut buf n _ _).bind fun _ => ih _ _

theorem skipItems_cut (count : Nat) : ∀ i,
    Cut (skipItems (buf.take n) count i) (skipItems buf count i) := by
  induction count with
  | zero => exact fun i => .refl _
  | succ count ih => exact fun i => (readVarInt_cut buf n i).bind fun _ => ih _

theorem skipWitnesses_cut (count : Nat) : ∀ i,
    Cut (skipWitnesses (buf.take n) count i) (skipWitnesses buf count i) := by
  induction count with
  | zero => exact fun i => .refl _
  | succ count ih =>
    exact fun i => (readVarInt_cut buf n i).bind fun _ => (skipItems_cut buf n _ _).bind fun _ => ih _

theorem beforeLocktime_cut : Cut (beforeLocktime (buf.take n)) (beforeLocktime buf) :=
  (sliceExact_cut buf n 0 4).bind fun _ => (readVarInt_cut buf n 6).bind fun _ =>
    (sliceExact_cut buf n 6 _).bind fun _ => (copyInputs_cut buf n _ _ _).bind fun _ =>
    (readVarInt_cut buf n _).bind fun _ => (sliceExact_cut buf n _ _).bind fun _ =>
    (copyOutputs_cut buf n _ _ _).bind fun _ => (skipWitnesses_cut buf n _ _).bind fun _ => .refl _

end

/-! ## Stripping a serialized transaction -/

section

variable {tx : Tx} {witnesses : List (List Bytes)} {rawHex : Text}

theorem segwit_length (tx : Tx) (witnesses : List (List Bytes)) :
    6 < (tx.serializeSegwit witnesses).length := by
  have hcount := compactSize_length_pos tx.inputs.length
  simp only [Tx.serializeSegwit, List.length_append, LittleEndian.length_encode, List.length_cons]
  omega

theorem isSegwit_serializeSegwit {n : Nat} (hn : 6 < n)
    (h : fromHex rawHex = (tx.serializeSegwit witnesses).take n) : isSegwit rawHex = true := by
  have hmarker := ((Located.of_eq (serializeSegwit_eq tx witnesses)).right'
    (LittleEndian.length_encode 4 _)).left
  have hlen := segwit_length tx witnesses
  unfold isSegwit
  dsimp only
  rw [h, List.getElem?_take_of_lt (by omega), List.getElem?_take_of_lt (by omega), hmarker.getElem?,
    hmarker.tail.getElem?, decide_eq_true (by rw [List.length_take]; omega)]
  rfl

/-- The byte behind the version counts inputs. -/
theorem isSegwit_serialize (hin : tx.inputs ≠ []) (h : fromHex rawHex = tx.serialize) :
    isSegwit rawHex = false := by
  obtain ⟨b, bs, hcount, hb⟩ := compactSize_head (List.length_pos_of_ne_nil hin)
  have hraw : tx.serialize = LittleEndian.encode 4 tx.version.toNat ++ (compactSize tx.inputs.length
      ++ (tx.inputs.flatMap TxIn.serialize ++ (compactSize tx.outputs.length ++
      (tx.outputs.flatMap TxOut.serialize ++ LittleEndian.encode 4 tx.lockTime.toNat)))) := by
    simp only [Tx.serialize, List.append_assoc]
  have hfirst := ((Located.of_eq hraw).right' (LittleEndian.length_encode 4 _)).left
  rw [hcount] at hfirst
  unfold isSegwit
  dsimp only
  rw [h, hfirst.getElem?, decide_eq_false fun h0 => hb (Option.some.inj h0)]
  simp

theorem stripWitness_serializeSegwit (h : Counted tx witnesses)
    (hraw : fromHex rawHex = tx.serializeSegwit witnesses) :
    stripWitness rawHex = .ok (Hex.encode tx.serialize) := by
  obtain ⟨i, out, hok, hout, hlocktime, -⟩ := beforeLocktime_serializeSegwit h
  have hsegwit : isSegwit rawHex = true := by
    refine @isSegwit_serializeSegwit tx witnesses rawHex _ (segwit_length tx witnesses) ?_
    rw [List.take_length]
    exact hraw
  rw [stripWitness_of_segwit hsegwit, hraw, hok]
  change (sliceExact _ i 4 >>= _) = _
  rw [sliceExact_located hlocktime (LittleEndian.length_encode 4 _)]
  change Except.ok (Hex.encode (out ++ _)) = _
  rw [hout]

/-- Where the lock time would be, nothing is left of a shorter string. -/
theorem stripWitness_take {n : Nat} (h : Counted tx witnesses) (hn : 6 < n)
    (hlt : n < (tx.serializeSegwit witnesses).length)
    (hraw : fromHex rawHex = (tx.serializeSegwit witnesses).take n) :
    ∃ e, stripWitness rawHex = .error e := by
  obtain ⟨i, out, hok, -, -, hend⟩ := beforeLocktime_serializeSegwit h
  rw [stripWitness_of_segwit (isSegwit_serializeSegwit hn hraw), hraw]
  rcases beforeLocktime_cut (tx.serializeSegwit witnesses) n with ⟨e, he⟩ | heq
  · rw [he]
    exact ⟨e, rfl⟩
  · rw [heq, hok]
    change ∃ e, (sliceExact _ i 4 >>= _) = _
    rw [sliceExact, List.length_take, if_neg (by omega)]
    exact ⟨_, rfl⟩

end

end Writz.Relayer

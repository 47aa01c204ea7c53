import Writz.Util.LittleEndian

/-!
# Bitcoin transactions

Transactions and their serialization without witness data, the one that is hashed into a txid.
-/

namespace Bitcoin

/-- A transaction input. -/
structure TxIn where
  prevTxid : List UInt8
  prevTxid_length : prevTxid.length = 32
  prevIndex : UInt32
  scriptSig : List UInt8
  sequence : UInt32

/-- A transaction output. -/
structure TxOut where
  value : UInt64
  scriptPubkey : List UInt8

/-- A transaction. -/
structure Tx where
  version : UInt32
  inputs : List TxIn
  outputs : List TxOut
  lockTime : UInt32

/-- The variable-length encoding of a count. -/
def compactSize (n : Nat) : List UInt8 :=
  if n < 0xfd then [UInt8.ofNat n]
  else if n ≤ 0xffff then 0xfd :: LittleEndian.encode 2 n
  else if n ≤ 0xffffffff then 0xfe :: LittleEndian.encode 4 n
  else 0xff :: LittleEndian.encode 8 n

def TxIn.serialize (i : TxIn) : List UInt8 :=
  i.prevTxid ++ LittleEndian.encode 4 i.prevIndex.toNat
    ++ compactSize i.scriptSig.length ++ i.scriptSig ++ LittleEndian.encode 4 i.sequence.toNat

def TxOut.serialize (o : TxOut) : List UInt8 :=
  LittleEndian.encode 8 o.value.toNat ++ compactSize o.scriptPubkey.length ++ o.scriptPubkey

/-- The serialization without witness data. -/
def Tx.serialize (tx : Tx) : List UInt8 :=
  LittleEndian.encode 4 tx.version.toNat
    ++ compactSize tx.inputs.length ++ tx.inputs.flatMap TxIn.serialize
    ++ compactSize tx.outputs.length ++ tx.outputs.flatMap TxOut.serialize
    ++ LittleEndian.encode 4 tx.lockTime.toNat

/-- The first byte of a count is zero for zero only. -/
theorem compactSize_head {n : Nat} (h : 0 < n) : ∃ b bs, compactSize n = b :: bs ∧ b ≠ 0 := by
  unfold compactSize
  split_ifs with h1 h2 h3
  · refine ⟨_, _, rfl, fun hb => ?_⟩
    have hn : (UInt8.ofNat n).toNat = 0 := congrArg UInt8.toNat hb
    rw [UInt8.toNat_ofNat'] at hn
    omega
  · exact ⟨_, _, rfl, by decide⟩
  · exact ⟨_, _, rfl, by decide⟩
  · exact ⟨_, _, rfl, by decide⟩

theorem compactSize_length_pos (n : Nat) : 0 < (compactSize n).length := by
  unfold compactSize
  split_ifs <;> simp

/-! ## Reading a count -/

/-- The little-endian number in the first `k` bytes, and the rest. -/
def readLE (k : Nat) (bs : List UInt8) : Option (Nat × List UInt8) :=
  if bs.length < k then none else some (LittleEndian.decode (bs.take k), bs.drop k)

/-- The count at the front of a byte string, and the rest. -/
def readCompactSize : List UInt8 → Option (Nat × List UInt8)
  | [] => none
  | b :: bs =>
    if b.toNat < 0xfd then some (b.toNat, bs)
    else if b = 0xfd then readLE 2 bs
    else if b = 0xfe then readLE 4 bs
    else readLE 8 bs

theorem readLE_append {k n : Nat} (h : n < 256 ^ k) (rest : List UInt8) :
    readLE k (LittleEndian.encode k n ++ rest) = some (n, rest) := by
  have hlen : (LittleEndian.encode k n).length = k := LittleEndian.length_encode k n
  rw [readLE, if_neg (by rw [List.length_append]; omega), List.take_left' hlen, List.drop_left' hlen,
    LittleEndian.decode_encode h]

/-- A count is read back whatever follows it. -/
theorem readCompactSize_append {n : Nat} (h : n < 2 ^ 64) (rest : List UInt8) :
    readCompactSize (compactSize n ++ rest) = some (n, rest) := by
  unfold compactSize
  split_ifs with h1 h2 h3
  · have hn : (UInt8.ofNat n).toNat = n := by rw [UInt8.toNat_ofNat']; omega
    rw [List.singleton_append, readCompactSize, hn, if_pos h1]
  · rw [List.cons_append, readCompactSize, if_neg (by decide), if_pos rfl]
    exact readLE_append (by omega) rest
  · rw [List.cons_append, readCompactSize, if_neg (by decide), if_neg (by decide), if_pos rfl]
    exact readLE_append (by omega) rest
  · rw [List.cons_append, readCompactSize, if_neg (by decide), if_neg (by decide),
      if_neg (by decide)]
    exact readLE_append (by omega) rest

/-- Byte strings behind their lengths are equal only if they are. -/
theorem compactSize_append_inj {m n : Nat} {as bs : List UInt8} (hm : m < 2 ^ 64) (hn : n < 2 ^ 64)
    (h : compactSize m ++ as = compactSize n ++ bs) : m = n ∧ as = bs := by
  have hread := readCompactSize_append hm as
  rw [h, readCompactSize_append hn] at hread
  cases hread
  exact ⟨rfl, rfl⟩

end Bitcoin

import Writz.SpvTypes.Types
import Writz.Util.LittleEndian

/-!
# Block headers

Hashing, and the fields of an 80-byte header.
-/

namespace Writz.Spv

/-- SHA-256d. -/
def sha256d (C : Crypto) (data : Bytes) : BytesN 32 := C.sha256 (C.sha256 data).1

/-- The hash of a Merkle tree node. -/
def hashMerklePair (C : Crypto) (left right : BytesN 32) : BytesN 32 :=
  sha256d C (left.1 ++ right.1)

/-- The block hash, in internal byte order. -/
def hashHeader (C : Crypto) (header : BytesN 80) : BytesN 32 := sha256d C header.1

/-- The 32-byte field at an offset. -/
def extract32Bytes (header : BytesN 80) (offset : Nat) (h : offset + 32 ≤ 80) : BytesN 32 :=
  ⟨(header.1.drop offset).take 32, by simp [header.2]; omega⟩

def prevHashOf (header : BytesN 80) : BytesN 32 := extract32Bytes header 4 (by decide)
def merkleRootOf (header : BytesN 80) : BytesN 32 := extract32Bytes header 36 (by decide)

/-- The little-endian `u32` at an offset. -/
def u32At (header : BytesN 80) (offset : Nat) : Nat :=
  LittleEndian.decode ((header.1.drop offset).take 4)

def timeOf (header : BytesN 80) : Nat := u32At header 68
def bitsOf (header : BytesN 80) : Nat := u32At header 72

end Writz.Spv

import Writz.BitcoinSpv.Types
import Writz.BitcoinSpv.Header

/-!
# Merkle inclusion

The fold of a Merkle proof, leaf to root.
-/

namespace Writz.Spv

/-- The parent of `current` and a sibling: an odd index is a right child. -/
def parentNode (C : Crypto) (current : BytesN 32) (index : Nat) (sibling : BytesN 32) : BytesN 32 :=
  if index &&& 1 = 1 then hashMerklePair C sibling current else hashMerklePair C current sibling

/-- The loop of `verify_merkle_inclusion`. -/
def foldProof (C : Crypto) : BytesN 32 → Nat → List (BytesN 32) → BytesN 32
  | current, _, [] => current
  | current, index, sibling :: proof =>
    foldProof C (parentNode C current index sibling) (index >>> 1) proof

/-- Whether a transaction is included, by its Merkle proof. -/
def verifyMerkleInclusion (C : Crypto) (txid : BytesN 32) (txIndex : Nat)
    (proof : List (BytesN 32)) (merkleRoot : BytesN 32) : Except SPVError Unit :=
  if foldProof C txid txIndex proof = merkleRoot then .ok () else .error .MerkleProofInvalid

end Writz.Spv

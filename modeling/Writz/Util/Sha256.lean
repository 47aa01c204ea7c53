import Mathlib.Data.Nat.Notation

/-!
# SHA-256

The hash function of FIPS 180-4 on byte strings, on words kept as natural numbers below `2 ^ 32`. It is
here to be evaluated on concrete inputs; what is proved about programs that hash takes the hash
function as a parameter.
-/

namespace Sha256

def WORD : ℕ := 4294967296

/-- The round constants. -/
def K : List ℕ :=
  [0x428a2f98, 0x71374491, 0xb5c0fbcf, 0xe9b5dba5, 0x3956c25b, 0x59f111f1, 0x923f82a4, 0xab1c5ed5,
   0xd807aa98, 0x12835b01, 0x243185be, 0x550c7dc3, 0x72be5d74, 0x80deb1fe, 0x9bdc06a7, 0xc19bf174,
   0xe49b69c1, 0xefbe4786, 0x0fc19dc6, 0x240ca1cc, 0x2de92c6f, 0x4a7484aa, 0x5cb0a9dc, 0x76f988da,
   0x983e5152, 0xa831c66d, 0xb00327c8, 0xbf597fc7, 0xc6e00bf3, 0xd5a79147, 0x06ca6351, 0x14292967,
   0x27b70a85, 0x2e1b2138, 0x4d2c6dfc, 0x53380d13, 0x650a7354, 0x766a0abb, 0x81c2c92e, 0x92722c85,
   0xa2bfe8a1, 0xa81a664b, 0xc24b8b70, 0xc76c51a3, 0xd192e819, 0xd6990624, 0xf40e3585, 0x106aa070,
   0x19a4c116, 0x1e376c08, 0x2748774c, 0x34b0bcb5, 0x391c0cb3, 0x4ed8aa4a, 0x5b9cca4f, 0x682e6ff3,
   0x748f82ee, 0x78a5636f, 0x84c87814, 0x8cc70208, 0x90befffa, 0xa4506ceb, 0xbef9a3f7, 0xc67178f2]

/-! ## Word functions -/

def rotr (x n : ℕ) : ℕ := (x >>> n) ||| ((x <<< (32 - n)) % WORD)
def bigSigma0 (x : ℕ) : ℕ := rotr x 2 ^^^ rotr x 13 ^^^ rotr x 22
def bigSigma1 (x : ℕ) : ℕ := rotr x 6 ^^^ rotr x 11 ^^^ rotr x 25
def smallSigma0 (x : ℕ) : ℕ := rotr x 7 ^^^ rotr x 18 ^^^ (x >>> 3)
def smallSigma1 (x : ℕ) : ℕ := rotr x 17 ^^^ rotr x 19 ^^^ (x >>> 10)
def ch (x y z : ℕ) : ℕ := (x &&& y) ^^^ ((WORD - 1 ^^^ x) &&& z)
def maj (x y z : ℕ) : ℕ := (x &&& y) ^^^ (x &&& z) ^^^ (y &&& z)

/-! ## Compression -/

/-- The eight working variables. -/
structure Working where
  a : ℕ
  b : ℕ
  c : ℕ
  d : ℕ
  e : ℕ
  f : ℕ
  g : ℕ
  h : ℕ

def initial : Working :=
  ⟨0x6a09e667, 0xbb67ae85, 0x3c6ef372, 0xa54ff53a, 0x510e527f, 0x9b05688c, 0x1f83d9ab, 0x5be0cd19⟩

/-- The word of the message schedule that follows a window of sixteen, oldest first. -/
def nextWord (w : List ℕ) : ℕ :=
  (smallSigma1 (w.getD 14 0) + w.getD 9 0 + smallSigma0 (w.getD 1 0) + w.getD 0 0) % WORD

def round (s : Working) (k w : ℕ) : Working :=
  let t1 := s.h + bigSigma1 s.e + ch s.e s.f s.g + k + w
  let t2 := bigSigma0 s.a + maj s.a s.b s.c
  ⟨(t1 + t2) % WORD, s.a, s.b, s.c, (s.d + t1) % WORD, s.e, s.f, s.g⟩

/-- The rounds with the constants `ks`, from a window of the message schedule. -/
def rounds : List ℕ → List ℕ → Working → Working
  | [], _, s => s
  | k :: ks, w, s => rounds ks (w.tail ++ [nextWord w]) (round s k (w.headD 0))

def add (s t : Working) : Working :=
  ⟨(s.a + t.a) % WORD, (s.b + t.b) % WORD, (s.c + t.c) % WORD, (s.d + t.d) % WORD,
    (s.e + t.e) % WORD, (s.f + t.f) % WORD, (s.g + t.g) % WORD, (s.h + t.h) % WORD⟩

def compress (s : Working) (w : List ℕ) : Working := add s (rounds K w s)

/-! ## The hash -/

/-- The first `n` big-endian words of a byte string. -/
def toWords : ℕ → List ℕ → List ℕ
  | 0, _ => []
  | n + 1, l => (l.take 4).foldl (fun a b => a * 256 + b) 0 :: toWords n (l.drop 4)

/-- Compresses the first `n` blocks. -/
def blocks : ℕ → List ℕ → Working → Working
  | 0, _, s => s
  | n + 1, l, s => blocks n (l.drop 64) (compress s (toWords 16 (l.take 64)))

def pad (m : List ℕ) : List ℕ :=
  m ++ [0x80] ++ List.replicate ((119 - m.length % 64) % 64) 0
    ++ (List.range 8).map fun i => (m.length * 8) >>> (8 * (7 - i)) % 256

/-- The big-endian bytes of a word. -/
def ofWord (w : ℕ) : List ℕ := [w / 16777216 % 256, w / 65536 % 256, w / 256 % 256, w % 256]

def digest (s : Working) : List ℕ :=
  ofWord s.a ++ ofWord s.b ++ ofWord s.c ++ ofWord s.d
    ++ ofWord s.e ++ ofWord s.f ++ ofWord s.g ++ ofWord s.h

/-- SHA-256. -/
def hash (m : List UInt8) : List UInt8 :=
  let padded := pad (m.map UInt8.toNat)
  (digest (blocks (padded.length / 64) padded initial)).map UInt8.ofNat

@[simp] theorem length_hash (m : List UInt8) : (hash m).length = 32 := rfl

set_option maxRecDepth 100000 in
example : hash [] = [0xe3, 0xb0, 0xc4, 0x42, 0x98, 0xfc, 0x1c, 0x14, 0x9a, 0xfb, 0xf4, 0xc8, 0x99,
    0x6f, 0xb9, 0x24, 0x27, 0xae, 0x41, 0xe4, 0x64, 0x9b, 0x93, 0x4c, 0xa4, 0x95, 0x99, 0x1b, 0x78,
    0x52, 0xb8, 0x55] := by
  decide +kernel

end Sha256

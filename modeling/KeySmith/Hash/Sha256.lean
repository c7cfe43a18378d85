import KeySmith.Hash.Words
import KeySmith.Hash.Function

/-!
# SHA-256 and SHA-224

Sixty-four rounds over eight words of 32 bits. SHA-224 starts from other words and leaves out the
last one of the digest.
-/

namespace KeySmith.Hash.Sha256

/-- The chaining value: eight words of 32 bits. -/
structure State where
  (a b c d e f g h : UInt32)

/-- The constants of the rounds: the first 32 bits of the fractional parts of the cube roots of the
first sixty-four primes. -/
def roundConstants : List UInt32 :=
  [0x428a2f98, 0x71374491, 0xb5c0fbcf, 0xe9b5dba5, 0x3956c25b, 0x59f111f1, 0x923f82a4, 0xab1c5ed5,
    0xd807aa98, 0x12835b01, 0x243185be, 0x550c7dc3, 0x72be5d74, 0x80deb1fe, 0x9bdc06a7, 0xc19bf174,
    0xe49b69c1, 0xefbe4786, 0x0fc19dc6, 0x240ca1cc, 0x2de92c6f, 0x4a7484aa, 0x5cb0a9dc, 0x76f988da,
    0x983e5152, 0xa831c66d, 0xb00327c8, 0xbf597fc7, 0xc6e00bf3, 0xd5a79147, 0x06ca6351, 0x14292967,
    0x27b70a85, 0x2e1b2138, 0x4d2c6dfc, 0x53380d13, 0x650a7354, 0x766a0abb, 0x81c2c92e, 0x92722c85,
    0xa2bfe8a1, 0xa81a664b, 0xc24b8b70, 0xc76c51a3, 0xd192e819, 0xd6990624, 0xf40e3585, 0x106aa070,
    0x19a4c116, 0x1e376c08, 0x2748774c, 0x34b0bcb5, 0x391c0cb3, 0x4ed8aa4a, 0x5b9cca4f, 0x682e6ff3,
    0x748f82ee, 0x78a5636f, 0x84c87814, 0x8cc70208, 0x90befffa, 0xa4506ceb, 0xbef9a3f7, 0xc67178f2]

/-- Extends the message words, of which there are sixteen or more, by `count` words. -/
def schedule : (count : Nat) → Array UInt32 → Array UInt32
  | 0, w => w
  | count + 1, w =>
    let n := w.size
    let x := w.getD (n - 15) 0
    let y := w.getD (n - 2) 0
    let s0 := rotateRight32 x 7 ^^^ rotateRight32 x 18 ^^^ x >>> 3
    let s1 := rotateRight32 y 17 ^^^ rotateRight32 y 19 ^^^ y >>> 10
    schedule count (w.push (w.getD (n - 16) 0 + s0 + w.getD (n - 7) 0 + s1))

/-- Does one round for each of the constants, with the message words from `round` on. -/
def rounds (w : Array UInt32) : List UInt32 → (round : Nat) → (a b c d e f g h : UInt32) → State
  | [], _, a, b, c, d, e, f, g, h => ⟨a, b, c, d, e, f, g, h⟩
  | k :: ks, round, a, b, c, d, e, f, g, h =>
    let t := h + (rotateRight32 e 6 ^^^ rotateRight32 e 11 ^^^ rotateRight32 e 25)
      + ((e &&& f) ^^^ (~~~e &&& g)) + k + w.getD round 0
    let u := (rotateRight32 a 2 ^^^ rotateRight32 a 13 ^^^ rotateRight32 a 22)
      + ((a &&& b) ^^^ (a &&& c) ^^^ (b &&& c))
    rounds w ks (round + 1) (t + u) a b c (d + t) e f g

/-- Takes blocks of 64 octets into the chaining value. -/
def absorb : (count : Nat) → Bytes → State → State
  | 0, _, s => s
  | count + 1, bs, s =>
    let (block, rest) := takeWords32 16 (Array.emptyWithCapacity 64) bs
    let t := rounds (schedule 48 block) roundConstants 0 s.a s.b s.c s.d s.e s.f s.g s.h
    absorb count rest ⟨s.a + t.a, s.b + t.b, s.c + t.c, s.d + t.d,
      s.e + t.e, s.f + t.f, s.g + t.g, s.h + t.h⟩

end Sha256

/-- SHA-256, with digests of 32 octets. -/
def sha256 : Function where
  State := Sha256.State
  blockSize := 64
  digestSize := 32
  initial := ⟨0x6a09e667, 0xbb67ae85, 0x3c6ef372, 0xa54ff53a,
    0x510e527f, 0x9b05688c, 0x1f83d9ab, 0x5be0cd19⟩
  absorb := Sha256.absorb
  ending := padding 64 8
  output s := ⟨bytes32 s.a ++ bytes32 s.b ++ bytes32 s.c ++ bytes32 s.d
    ++ bytes32 s.e ++ bytes32 s.f ++ bytes32 s.g ++ bytes32 s.h, rfl⟩

/-- SHA-224, with digests of 28 octets. -/
def sha224 : Function where
  State := Sha256.State
  blockSize := 64
  digestSize := 28
  initial := ⟨0xc1059ed8, 0x367cd507, 0x3070dd17, 0xf70e5939,
    0xffc00b31, 0x68581511, 0x64f98fa7, 0xbefa4fa4⟩
  absorb := Sha256.absorb
  ending := padding 64 8
  output s := ⟨bytes32 s.a ++ bytes32 s.b ++ bytes32 s.c ++ bytes32 s.d
    ++ bytes32 s.e ++ bytes32 s.f ++ bytes32 s.g, rfl⟩

end KeySmith.Hash

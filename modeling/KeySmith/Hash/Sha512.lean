import KeySmith.Hash.Words
import KeySmith.Hash.Function

/-!
# SHA-512 and SHA-384

Eighty rounds over eight words of 64 bits. SHA-384 starts from other words and leaves out the last
two of the digest.
-/

namespace KeySmith.Hash.Sha512

/-- The chaining value: eight words of 64 bits. -/
structure State where
  (a b c d e f g h : UInt64)

/-- The constants of the rounds: the first 64 bits of the fractional parts of the cube roots of the
first eighty primes. -/
def roundConstants : List UInt64 :=
  [0x428a2f98d728ae22, 0x7137449123ef65cd, 0xb5c0fbcfec4d3b2f, 0xe9b5dba58189dbbc,
    0x3956c25bf348b538, 0x59f111f1b605d019, 0x923f82a4af194f9b, 0xab1c5ed5da6d8118,
    0xd807aa98a3030242, 0x12835b0145706fbe, 0x243185be4ee4b28c, 0x550c7dc3d5ffb4e2,
    0x72be5d74f27b896f, 0x80deb1fe3b1696b1, 0x9bdc06a725c71235, 0xc19bf174cf692694,
    0xe49b69c19ef14ad2, 0xefbe4786384f25e3, 0x0fc19dc68b8cd5b5, 0x240ca1cc77ac9c65,
    0x2de92c6f592b0275, 0x4a7484aa6ea6e483, 0x5cb0a9dcbd41fbd4, 0x76f988da831153b5,
    0x983e5152ee66dfab, 0xa831c66d2db43210, 0xb00327c898fb213f, 0xbf597fc7beef0ee4,
    0xc6e00bf33da88fc2, 0xd5a79147930aa725, 0x06ca6351e003826f, 0x142929670a0e6e70,
    0x27b70a8546d22ffc, 0x2e1b21385c26c926, 0x4d2c6dfc5ac42aed, 0x53380d139d95b3df,
    0x650a73548baf63de, 0x766a0abb3c77b2a8, 0x81c2c92e47edaee6, 0x92722c851482353b,
    0xa2bfe8a14cf10364, 0xa81a664bbc423001, 0xc24b8b70d0f89791, 0xc76c51a30654be30,
    0xd192e819d6ef5218, 0xd69906245565a910, 0xf40e35855771202a, 0x106aa07032bbd1b8,
    0x19a4c116b8d2d0c8, 0x1e376c085141ab53, 0x2748774cdf8eeb99, 0x34b0bcb5e19b48a8,
    0x391c0cb3c5c95a63, 0x4ed8aa4ae3418acb, 0x5b9cca4f7763e373, 0x682e6ff3d6b2b8a3,
    0x748f82ee5defb2fc, 0x78a5636f43172f60, 0x84c87814a1f0ab72, 0x8cc702081a6439ec,
    0x90befffa23631e28, 0xa4506cebde82bde9, 0xbef9a3f7b2c67915, 0xc67178f2e372532b,
    0xca273eceea26619c, 0xd186b8c721c0c207, 0xeada7dd6cde0eb1e, 0xf57d4f7fee6ed178,
    0x06f067aa72176fba, 0x0a637dc5a2c898a6, 0x113f9804bef90dae, 0x1b710b35131c471b,
    0x28db77f523047d84, 0x32caab7b40c72493, 0x3c9ebe0a15c9bebc, 0x431d67c49c100d4c,
    0x4cc5d4becb3e42b6, 0x597f299cfc657e2a, 0x5fcb6fab3ad6faec, 0x6c44198c4a475817]

/-- Extends the message words, of which there are sixteen or more, by `count` words. -/
def schedule : (count : Nat) → Array UInt64 → Array UInt64
  | 0, w => w
  | count + 1, w =>
    let n := w.size
    let x := w.getD (n - 15) 0
    let y := w.getD (n - 2) 0
    let s0 := rotateRight64 x 1 ^^^ rotateRight64 x 8 ^^^ x >>> 7
    let s1 := rotateRight64 y 19 ^^^ rotateRight64 y 61 ^^^ y >>> 6
    schedule count (w.push (w.getD (n - 16) 0 + s0 + w.getD (n - 7) 0 + s1))

/-- Does one round for each of the constants, with the message words from `round` on. -/
def rounds (w : Array UInt64) : List UInt64 → (round : Nat) → (a b c d e f g h : UInt64) → State
  | [], _, a, b, c, d, e, f, g, h => ⟨a, b, c, d, e, f, g, h⟩
  | k :: ks, round, a, b, c, d, e, f, g, h =>
    let t := h + (rotateRight64 e 14 ^^^ rotateRight64 e 18 ^^^ rotateRight64 e 41)
      + ((e &&& f) ^^^ (~~~e &&& g)) + k + w.getD round 0
    let u := (rotateRight64 a 28 ^^^ rotateRight64 a 34 ^^^ rotateRight64 a 39)
      + ((a &&& b) ^^^ (a &&& c) ^^^ (b &&& c))
    rounds w ks (round + 1) (t + u) a b c (d + t) e f g

/-- Takes blocks of 128 octets into the chaining value. -/
def absorb : (count : Nat) → Bytes → State → State
  | 0, _, s => s
  | count + 1, bs, s =>
    let (block, rest) := takeWords64 16 (Array.emptyWithCapacity 80) bs
    let t := rounds (schedule 64 block) roundConstants 0 s.a s.b s.c s.d s.e s.f s.g s.h
    absorb count rest ⟨s.a + t.a, s.b + t.b, s.c + t.c, s.d + t.d,
      s.e + t.e, s.f + t.f, s.g + t.g, s.h + t.h⟩

end Sha512

/-- SHA-512, with digests of 64 octets. -/
def sha512 : Function where
  State := Sha512.State
  blockSize := 128
  digestSize := 64
  initial := ⟨0x6a09e667f3bcc908, 0xbb67ae8584caa73b, 0x3c6ef372fe94f82b, 0xa54ff53a5f1d36f1,
    0x510e527fade682d1, 0x9b05688c2b3e6c1f, 0x1f83d9abfb41bd6b, 0x5be0cd19137e2179⟩
  absorb := Sha512.absorb
  ending := padding 128 16
  output s := ⟨bytes64 s.a ++ bytes64 s.b ++ bytes64 s.c ++ bytes64 s.d
    ++ bytes64 s.e ++ bytes64 s.f ++ bytes64 s.g ++ bytes64 s.h, rfl⟩

/-- SHA-384, with digests of 48 octets. -/
def sha384 : Function where
  State := Sha512.State
  blockSize := 128
  digestSize := 48
  initial := ⟨0xcbbb9d5dc1059ed8, 0x629a292a367cd507, 0x9159015a3070dd17, 0x152fecd8f70e5939,
    0x67332667ffc00b31, 0x8eb44a8768581511, 0xdb0c2e0d64f98fa7, 0x47b5481dbefa4fa4⟩
  absorb := Sha512.absorb
  ending := padding 128 16
  output s := ⟨bytes64 s.a ++ bytes64 s.b ++ bytes64 s.c ++ bytes64 s.d
    ++ bytes64 s.e ++ bytes64 s.f, rfl⟩

end KeySmith.Hash

import KeySmith.Hash.Words
import KeySmith.Hash.Function

/-!
# SHA-1

Eighty rounds over five words of 32 bits. It serves the authentication tag of hybrid ciphertexts
only, where its weakness against collisions does not matter.
-/

namespace KeySmith.Hash.Sha1

/-- The chaining value: five words of 32 bits. -/
structure State where
  (a b c d e : UInt32)

/-- The chaining value before the first block. -/
def initial : State :=
  ⟨0x67452301, 0xefcdab89, 0x98badcfe, 0x10325476, 0xc3d2e1f0⟩

/-- Extends the message words, of which there are sixteen or more, by `count` words. -/
def schedule : (count : Nat) → Array UInt32 → Array UInt32
  | 0, w => w
  | count + 1, w =>
    let n := w.size
    schedule count (w.push (rotateLeft32
      (w.getD (n - 3) 0 ^^^ w.getD (n - 8) 0 ^^^ w.getD (n - 14) 0 ^^^ w.getD (n - 16) 0) 1))

/-- The Boolean function of a round, and its constant. -/
@[inline] def mix (round : Nat) (b c d : UInt32) : UInt32 :=
  if round < 20 then ((b &&& c) ||| (~~~b &&& d)) + 0x5a827999
  else if round < 40 then (b ^^^ c ^^^ d) + 0x6ed9eba1
  else if round < 60 then ((b &&& c) ||| (b &&& d) ||| (c &&& d)) + 0x8f1bbcdc
  else (b ^^^ c ^^^ d) + 0xca62c1d6

/-- Does the rounds from `round` on, `count` of them. -/
def rounds (w : Array UInt32) : (count round : Nat) → (a b c d e : UInt32) → State
  | 0, _, a, b, c, d, e => ⟨a, b, c, d, e⟩
  | count + 1, round, a, b, c, d, e =>
    rounds w count (round + 1) (rotateLeft32 a 5 + mix round b c d + e + w.getD round 0) a
      (rotateLeft32 b 30) c d

/-- Takes blocks of 64 octets into the chaining value. -/
def absorb : (count : Nat) → Bytes → State → State
  | 0, _, s => s
  | count + 1, bs, s =>
    let (block, rest) := takeWords32 16 (Array.emptyWithCapacity 80) bs
    let t := rounds (schedule 64 block) 80 0 s.a s.b s.c s.d s.e
    absorb count rest ⟨s.a + t.a, s.b + t.b, s.c + t.c, s.d + t.d, s.e + t.e⟩

end Sha1

/-- SHA-1, with digests of twenty octets. -/
def sha1 : Function where
  State := Sha1.State
  blockSize := 64
  digestSize := 20
  initial := Sha1.initial
  absorb := Sha1.absorb
  ending := padding 64 8
  output s := ⟨bytes32 s.a ++ bytes32 s.b ++ bytes32 s.c ++ bytes32 s.d ++ bytes32 s.e, rfl⟩

end KeySmith.Hash

import KeySmith.Bytes
import KeySmith.Number.Modular
import KeySmith.Hash.Sha512

/-!
# The twisted Edwards curve of Ed25519

The curve is `-x² + y² = 1 + d x² y²` modulo `2^255 - 19`. Its addition has no exceptions, so a
point is a pair of coordinates and nothing else. A point is stored in 32 octets: the ordinate, the
lowest octet first, and in the top bit the parity of the abscissa.
-/

namespace KeySmith.Edwards25519

/-- The modulus. -/
def p : Nat :=
  twoTo 255 - 19

/-- The coefficient of `x² y²`. -/
def d : Nat :=
  0x52036cee2b6ffe738cc740797779e89800700a4d4141d8ab75eb4dca135978a3

/-- A square root of -1. -/
def i : Nat :=
  0x2b8324804fc1df0b2b4d00993dfbd7a72f431806ad2fe478c4ee1b274a0ea0b0

/-- A point, by its coordinates. -/
structure Point where
  (x y : Nat)
deriving DecidableEq

/-- The neutral point. -/
def zero : Point :=
  ⟨0, 1⟩

/-- The base point, of prime order. -/
def base : Point :=
  ⟨0x216936d3cd6e53fec0a4e231fdd6dc5c692cc7609525a7b2c9562d608f25d51a,
    0x6666666666666666666666666666666666666666666666666666666666666658⟩

/-- The sum of two points. The two denominators are inverted together. -/
def add (P Q : Point) : Point :=
  let cross := P.x * Q.x % p * (P.y * Q.y % p) % p * d % p
  let plus := 1 + cross
  let minus := 1 + (p - cross)
  let inv := Modular.inverse p (plus * minus)
  ⟨(P.x * Q.y + P.y * Q.x) % p * (minus * inv % p) % p,
    (P.y * Q.y + P.x * Q.x) % p * (plus * inv % p) % p⟩

/-- `acc` plus `k` times `P`. -/
def mulLoop (acc P : Point) (k : Nat) : Point :=
  if k = 0 then acc
  else mulLoop (if k % 2 = 1 then add acc P else acc) (add P P) (k / 2)
termination_by k
decreasing_by omega

/-- `k` times `P`. -/
def mul (k : Nat) (P : Point) : Point :=
  mulLoop zero P k

/-- A square root of `u / v`, if there is one. -/
def sqrtRatio? (u v : Nat) : Option Nat :=
  let v3 := v * v % p * v % p
  let v7 := v3 * v3 % p * v % p
  let r := u * v3 % p * Modular.pow p (u * v7) ((p - 5) / 8) % p
  let check := v * (r * r % p) % p
  if check = u % p then some r
  else if check = (p - u % p) % p then some (r * i % p)
  else none

/-- The stored form of a point. -/
def compress (P : Point) : Octets 32 :=
  LittleEndian.octets 32 (P.y + twoTo 255 * (P.x % 2))

/-- The point with the stored form `bs`, if there is one. An ordinate that is not reduced is taken
modulo `p`, and the top bit is ignored where the abscissa is zero. -/
def decompress? (bs : Octets 32) : Option Point :=
  let n := LittleEndian.toNat bs.bytes
  let y := n % twoTo 255 % p
  let square := y * y % p
  (sqrtRatio? (square + (p - 1)) ((d * square + 1) % p)).map fun x =>
    ⟨if x % 2 = n / twoTo 255 then x else (p - x) % p, y⟩

/-- The abscissa of the same point on the Montgomery form of the curve, `(1 + y) / (1 - y)`; it is
zero at the neutral point. -/
def toMontgomery (P : Point) : Nat :=
  (1 + P.y) * Modular.inverse p (1 + (p - P.y)) % p

/-! ### Secret scalars -/

/-- Clears the three lowest bits and the highest one and sets the bit below it. -/
def clamp : Octets 32 → Octets 32
  | ⟨bs, h⟩ =>
    ⟨bs.mapIdx fun place b =>
        if place = 0 then b &&& 248 else if place = 31 then b &&& 127 ||| 64 else b,
      by simpa using h⟩

/-- The scalar of a seed, the clamped lower half of its digest. -/
def secretScalar (seed : Octets 32) : Octets 32 :=
  clamp (.firstOf 32 (Hash.sha512.digest seed.bytes).bytes)

/-- The stored point of a seed. -/
def publicPoint (seed : Octets 32) : Octets 32 :=
  compress (mul (LittleEndian.toNat (secretScalar seed).bytes) base)

end KeySmith.Edwards25519

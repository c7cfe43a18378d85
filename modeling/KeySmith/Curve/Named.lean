import KeySmith.Curve.Weierstrass

/-!
# The named curves

Keys lie on one of the three curves P-256, P-384 and P-521. Each has a name, an identifier in SSH
formats, the name of the signature algorithm that goes with it, and an object identifier.
-/

namespace KeySmith

/-- The curves that keys may lie on. -/
inductive Curve where
  | p256
  | p384
  | p521
deriving DecidableEq, Repr

namespace Curve

/-- The curves, the smallest first. -/
def all : List Curve :=
  [p256, p384, p521]

/-- The size of a coordinate in bits. -/
def bits : Curve → Nat
  | p256 => 256
  | p384 => 384
  | p521 => 521

/-- The name of the curve. -/
def name : Curve → String
  | p256 => "P-256"
  | p384 => "P-384"
  | p521 => "P-521"

/-- What the curve is called inside SSH formats. -/
def sshId : Curve → String
  | p256 => "nistp256"
  | p384 => "nistp384"
  | p521 => "nistp521"

/-- The signature algorithm that goes with the curve. -/
def signatureName : Curve → String
  | p256 => "ES256"
  | p384 => "ES384"
  | p521 => "ES512"

/-- The defining numbers. -/
def params : Curve → Weierstrass.Params
  | p256 => {
    p := 0xffffffff00000001000000000000000000000000ffffffffffffffffffffffff
    b := 0x5ac635d8aa3a93e7b3ebbd55769886bc651d06b0cc53b0f63bce3c3e27d2604b
    gx := 0x6b17d1f2e12c4247f8bce6e563a440f277037d812deb33a0f4a13945d898c296
    gy := 0x4fe342e2fe1a7f9b8ee7eb4a7c0f9e162bce33576b315ececbb6406837bf51f5
    order := 0xffffffff00000000ffffffffffffffffbce6faada7179e84f3b9cac2fc632551
    size := 32 }
  | p384 => {
    p := 0xfffffffffffffffffffffffffffffffffffffffffffffffffffffffffffffffeffffffff0000000000000000ffffffff
    b := 0xb3312fa7e23ee7e4988e056be3f82d19181d9c6efe8141120314088f5013875ac656398d8a2ed19d2a85c8edd3ec2aef
    gx := 0xaa87ca22be8b05378eb1c71ef320ad746e1d3b628ba79b9859f741e082542a385502f25dbf55296c3a545e3872760ab7
    gy := 0x3617de4a96262c6f5d9e98bf9292dc29f8f41dbd289a147ce9da3113b5f0b8c00a60b1ce1d7e819d7a431d7c90ea0e5f
    order := 0xffffffffffffffffffffffffffffffffffffffffffffffffc7634d81f4372ddf581a0db248b0a77aecec196accc52973
    size := 48 }
  | p521 => {
    p := twoTo 521 - 1
    b := 0x0051953eb9618e1c9a1f929a21a0b68540eea2da725b99b315f3b8b489918ef109e156193951ec7e937b1652c0bd3bb1bf073573df883d2c34f1ef451fd46b503f00
    gx := 0x00c6858e06b70404e9cd9e3ecb662395b4429c648139053fb521f828af606b4d3dbaa14b5e77efe75928fe1dc127a2ffa8de3348b3c1856a429bf97e7e31c2e5bd66
    gy := 0x011839296a789a3bc0045c8a5fb42c7d1bd998f54449579b446817afbd17273e662c97ee72995ef42640c550b9013fad0761353c7086a272c24088be94769fd16650
    order := 0x01fffffffffffffffffffffffffffffffffffffffffffffffffffffffffffffffffa51868783bf2f966b7fcc0148f709a5d03bb5c9b8899c47aebb6fb71e91386409
    size := 66 }

/-- The octets of a coordinate, and of a secret scalar. -/
def size (c : Curve) : Nat :=
  c.params.size

/-- The curve with the given size in bits. -/
def ofBits? (n : Nat) : Option Curve :=
  all.find? (·.bits == n)

/-- The curve with the given SSH identifier. -/
def ofSshId? (id : String) : Option Curve :=
  all.find? (·.sshId == id)

/-- The spellings of a curve that a person may use, in lower case. -/
def spellings (c : Curve) : List String :=
  let bits := toString c.bits
  ["p-" ++ bits, "p" ++ bits, "nistp" ++ bits, bits]

/-- The curve that a person means, in letters of any case. -/
def ofSpelling? (s : String) : Option Curve :=
  let lower := s.map Char.toLower
  all.find? fun c => c.spellings.contains lower

/-- The point of a secret scalar, which has to be positive and below the order. The point is held
against the equation of the curve before it is handed out. -/
def publicPoint? (c : Curve) (scalar : Nat) : Option Weierstrass.Point :=
  if 0 < scalar ∧ scalar < c.params.order then
    (Weierstrass.mul c.params scalar (Weierstrass.base c.params)).filter fun P =>
      decide (Weierstrass.Contains c.params P)
  else none

end Curve

end KeySmith

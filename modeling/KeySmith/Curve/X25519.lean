import KeySmith.Bytes
import KeySmith.Curve.Edwards25519

/-!
# Multiplication on the Montgomery curve

Both sides of a key agreement multiply an abscissa on `v² = u³ + 486662 u² + u` by their scalar.
The ladder keeps the abscissas of two neighbouring multiples, as fractions.
-/

namespace KeySmith.X25519

open Edwards25519 (p)

/-- An abscissa as a fraction. -/
structure Fraction where
  (num den : Nat)

/-- From the multiples `k` and `k + 1` of the point with abscissa `u`, the multiples `2 k` and
`2 k + 1`. -/
def step (u : Nat) (P Q : Fraction) : Fraction × Fraction :=
  let a := P.num + P.den
  let b := Modular.sub p P.num P.den
  let aa := a * a % p
  let bb := b * b % p
  let e := Modular.sub p aa bb
  let da := Modular.sub p Q.num Q.den * a % p
  let cb := (Q.num + Q.den) * b % p
  let s := da + cb
  let t := Modular.sub p da cb
  (⟨aa * bb % p, e * (aa + 121665 * e) % p⟩, ⟨s * s % p, u * (t * t % p) % p⟩)

/-- Goes through the `count` lowest bits of the scalar, the highest first. -/
def ladder (u scalar : Nat) : (count : Nat) → (P Q : Fraction) → Fraction
  | 0, P, _ => P
  | count + 1, P, Q =>
    if scalar.testBit count then
      let (Q', P') := step u Q P
      ladder u scalar count P' Q'
    else
      let (P', Q') := step u P Q
      ladder u scalar count P' Q'

/-- The abscissa of the point with abscissa `u`, taken `scalar` times, for a scalar below `2^255`. -/
def mul (scalar u : Nat) : Nat :=
  let r := ladder u scalar 255 ⟨1, 0⟩ ⟨u, 1⟩
  r.num * Modular.inverse p r.den % p

/-- The shared value of a secret, which is clamped, and a public value. The top bit of the public
value is ignored. -/
def agree (secret other : Octets 32) : Octets 32 :=
  LittleEndian.octets 32
    (mul (LittleEndian.toNat (clamp secret).bytes) (LittleEndian.toNat other.bytes % twoTo 255 % p))
where
  clamp := Edwards25519.clamp

/-- The public value that belongs to a secret. -/
def publicValue (secret : Octets 32) : Octets 32 :=
  agree secret (LittleEndian.octets 32 9)

end KeySmith.X25519

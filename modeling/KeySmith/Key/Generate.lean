import KeySmith.Cipher.Hybrid
import KeySmith.Key.Basic
import KeySmith.Number.Primality

/-!
# New keys

New RSA keys have two primes of half the size each, both with the two highest bits set, so that the
modulus has exactly the size asked for, and the exponent 65537. The scalars and seeds of the other
keys are drawn directly.
-/

namespace KeySmith

/-- What kind of key to make. -/
inductive KeySpec where
  | rsa (bits : Nat)
  | ecdsa (curve : Curve)
  | ed25519
deriving DecidableEq, Repr

namespace KeySpec

/-- A description of the kind of key, for a person. -/
def describe : KeySpec → String
  | rsa bits => "Rsa \x7b bits: " ++ toString bits ++ " \x7d"
  | ecdsa curve => "Ecdsa(" ++ Key.curveTag curve ++ ")"
  | ed25519 => "Ed25519"

/-- The algorithm of the keys. -/
def algorithm : KeySpec → Algorithm
  | rsa _ => .rsa
  | ecdsa _ => .ecdsa
  | ed25519 => .ed25519

end KeySpec

/-- The size of the smallest modulus, in bits, of new keys. -/
def smallestRsaBits : Nat :=
  1024

/-- Whether new keys may have a modulus of that size. -/
def isRsaSize (bits : Nat) : Bool :=
  smallestRsaBits ≤ bits && bits % 8 == 0

namespace RsaKey

/-- The exponent of new keys. -/
def newExponent : Nat :=
  65537

/-- Draws `count` bases for the test of primes. -/
def drawBases : (count : Nat) → Draw (List Nat)
  | 0 => pure [2]
  | count + 1 => do
    let base ← Draw.below (twoTo 64)
    return (base + 3) :: (← drawBases count)

/-- Draws a prime of the given size with its two highest bits set. It is the first one behind a
random number, less than which one is coprime to the exponent. -/
def drawPrime? (bits : Nat) : Draw (Option Nat) := do
  let offset ← Draw.below (twoTo (bits - 2))
  let bases ← drawBases 20
  let start := 3 * twoTo (bits - 2) + (offset / 2 * 2 + 1)
  let wanted p := p < twoTo bits && Nat.gcd (p - 1) newExponent == 1
  return Primality.search? bases wanted (40 * bits) start

/-- The key of two primes, if they make one. -/
def ofPrimes? (p q : Nat) : Option RsaKey := do
  let d ← Modular.inverse? ((p - 1) * (q - 1)) newExponent
  (ofSecret (fun _ => .failure .rsaGeneration) (p * q) newExponent ⟨d, [p, q]⟩).toOption

/-- Makes a key with a modulus of the given size. -/
def generate (bits : Nat) : Draw (Result RsaKey) := do
  let p? ← drawPrime? (bits / 2)
  let q? ← drawPrime? (bits - bits / 2)
  return Result.ofOption (.failure .rsaGeneration) do
    let p ← p?
    let q ← q?
    ofPrimes? p q

end RsaKey

namespace Key

/-- Makes a key of the given kind. -/
def generate : KeySpec → Draw (Result Key)
  | .rsa bits => do
    if isRsaSize bits then return (← RsaKey.generate bits).map .rsa
    else return .error (.failure (.rsaKeySize bits))
  | .ecdsa curve => do
    let key? ← Cipher.Hybrid.drawKey? curve Cipher.Hybrid.scalarTries
    return (Result.ofOption .pointNotOnCurve key?).map .ecdsa
  | .ed25519 => do
    let seed ← Draw.octets 32
    return (Result.ofOption .pointNotOnCurve (Ed25519Key.ofSeed? seed)).map .ed25519

end Key

end KeySmith

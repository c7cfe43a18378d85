import KeySmith.Key.Rsa
import KeySmith.Key.Ec
import KeySmith.Key.Ed25519
import KeySmith.Text.Quoted

/-!
# Keys

A key belongs to one of three algorithms and may hold a secret beside its public half. Keys are
equal when all their numbers are.
-/

namespace KeySmith

/-- A key of any algorithm. -/
inductive Key where
  | rsa (key : RsaKey)
  | ecdsa (key : EcKey)
  | ed25519 (key : Ed25519Key)
deriving DecidableEq

namespace Key

/-- The algorithm of a key. -/
def algorithm : Key → Algorithm
  | rsa _ => .rsa
  | ecdsa _ => .ecdsa
  | ed25519 _ => .ed25519

/-- Whether a key holds a secret. -/
def isPrivate : Key → Bool
  | rsa k => k.secret.isSome
  | ecdsa k => k.scalar.isSome
  | ed25519 k => k.seed.isSome

/-- The key without its secret. -/
def toPublic : Key → Key
  | rsa k => .rsa k.toPublic
  | ecdsa k => .ecdsa k.toPublic
  | ed25519 k => .ed25519 k.toPublic

/-- The error that a key of one algorithm meets where another is expected. -/
def mismatch (expected found : Algorithm) : Error :=
  .algorithmMismatch expected.name found.name

/-- Fails unless a key belongs to the given algorithm. -/
def expect (k : Key) (expected : Algorithm) : Result Unit :=
  if k.algorithm = expected then .ok () else .error (mismatch expected k.algorithm)

/-- The RSA key that a key has to be. -/
def toRsa : Key → Result RsaKey
  | rsa k => .ok k
  | k => .error (mismatch .rsa k.algorithm)

/-- The curve key that a key has to be. -/
def toEcdsa : Key → Result EcKey
  | ecdsa k => .ok k
  | k => .error (mismatch .ecdsa k.algorithm)

/-- The Ed25519 key that a key has to be. -/
def toEd25519 : Key → Result Ed25519Key
  | ed25519 k => .ok k
  | k => .error (mismatch .ed25519 k.algorithm)

/-- The size of a key in words: the bits of a modulus, or the name of a curve. -/
def sizeText : Key → String
  | rsa k => s!"{k.bits} бит"
  | ecdsa k => k.curve.name
  | ed25519 _ => "Curve25519"

/-- The name of the type of a curve in descriptions. -/
def curveTag : Curve → String
  | .p256 => "P256"
  | .p384 => "P384"
  | .p521 => "P521"

/-- What a description says in place of a secret. -/
def secretMark (present : Bool) : String :=
  if present then "Some(\"[REDACTED]\")" else "None"

/-- A description of a key for logs. It shows the public half and tells of the secret only whether
there is one. -/
def describe : Key → String
  | rsa k =>
    "Rsa(RsaKey \x7b bits: " ++ toString k.bits ++ ", private: " ++ secretMark k.secret.isSome
      ++ " \x7d)"
  | ecdsa k =>
    "Ecdsa(EcdsaKey \x7b curve: " ++ curveTag k.curve ++ ", public: "
      ++ Text.quoted (Hex.encode k.pointBytes) ++ ", private: " ++ secretMark k.scalar.isSome
      ++ " \x7d)"
  | ed25519 k =>
    "Ed25519(Ed25519Key \x7b public: " ++ Text.quoted (Hex.encode k.point.bytes) ++ ", private: "
      ++ secretMark k.seed.isSome ++ " \x7d)"

end Key

end KeySmith

import KeySmith.Aes.Modes
import KeySmith.Entropy
import KeySmith.Hash.Hmac
import KeySmith.Hash.Sha1
import KeySmith.Hash.Sha256
import KeySmith.Key.Ec

/-!
# Hybrid encryption to a curve key

A ciphertext is the length of an ephemeral point, the point with both coordinates, an initialisation
vector, the message encrypted by AES-128 with chaining, and a tag of twenty octets over the vector
and the encrypted message. Both keys are halves of the SHA-256 digest of the abscissa of the shared
point, without leading zeros. The tag is checked before anything is decrypted.
-/

namespace KeySmith.Cipher.Hybrid

/-- The octets of a tag. -/
def tagSize : Nat :=
  20

/-- The fewest octets behind the ephemeral point: a vector, a block and a tag. -/
def shortestBody : Nat :=
  52

/-- The keys of one message. -/
structure SessionKeys where
  cipher : Bytes
  tag : Bytes

/-- The keys that a shared point gives. -/
def SessionKeys.derive (c : Curve) (shared : Option Weierstrass.Point) : SessionKeys :=
  let x := (shared.map (·.x)).getD 0
  let digest := (Hash.sha256.digest (Bytes.stripZeros (BigEndian.fixed c.size x))).bytes
  ⟨digest.take 16, digest.drop 16⟩

/-- The tag of a vector and an encrypted message. -/
def SessionKeys.tagOf (k : SessionKeys) (authenticated : Bytes) : Bytes :=
  (Hash.hmac Hash.sha1 k.tag authenticated).bytes

/-- Fails unless a tag is the one of a vector and an encrypted message. -/
def SessionKeys.verify (k : SessionKeys) (authenticated tag : Bytes) : Result Unit :=
  if k.tagOf authenticated = tag then .ok () else .error .tagMismatch

/-- A ciphertext from its parts: the form of the ephemeral point, the keys, the vector and the
message. -/
def sealWith (point : Bytes) (keys : SessionKeys) (iv : Octets 16) (message : Bytes) : Bytes :=
  let authenticated := iv.bytes ++ Aes.encryptChained keys.cipher iv message
  point.length.toUInt8 :: (point ++ authenticated ++ keys.tagOf authenticated)

/-- Encrypts a message with the ephemeral key and the vector given. -/
def encryptWith (recipient ephemeral : EcKey) (iv : Octets 16) (message : Bytes) : Bytes :=
  let shared := Weierstrass.mul recipient.curve.params (ephemeral.scalar.getD 0) recipient.point
  sealWith ephemeral.pointBytes (.derive recipient.curve shared) iv message

/-- Draws a key on a curve; `tries` scalars are looked at. -/
def drawKey? (c : Curve) : (tries : Nat) → Draw (Option EcKey)
  | 0 => pure none
  | tries + 1 => do
    match EcKey.ofScalar? c (← Draw.below c.params.order) with
    | some k => return some k
    | none => drawKey? c tries

/-- The scalars that are looked at for one key. The first is almost always right. -/
def scalarTries : Nat :=
  128

/-- Encrypts a message. -/
def encrypt (recipient : EcKey) (message : Bytes) : Draw (Result Bytes) := do
  let ephemeral? ← drawKey? recipient.curve scalarTries
  let iv ← Draw.octets 16
  return (Result.ofOption .pointNotOnCurve ephemeral?).map fun ephemeral =>
    encryptWith recipient ephemeral iv message

/-- Decrypts AES with chaining and takes the padding off. -/
def unchain (key : Bytes) (iv : Octets 16) (ciphertext : Bytes) : Result Bytes :=
  Result.ofOption (.failure .chainPadding) (Aes.decryptChained? key iv ciphertext)

/-- Decrypts what stands behind the ephemeral point. -/
def openWith (keys : SessionKeys) (body : Bytes) : Result Bytes := do
  let authenticated := body.take (body.length - tagSize)
  keys.verify authenticated (body.drop (body.length - tagSize))
  unchain keys.cipher (.firstOf 16 authenticated) (authenticated.drop 16)

/-- The error of a fault of a ciphertext. -/
def fault (f : TextFault) : Error :=
  .malformed (.text f)

/-- Decrypts a ciphertext. -/
def decrypt (k : EcKey) (ciphertext : Bytes) : Result Bytes := do
  let d ← Result.ofOption .missingPrivate k.scalar
  match ciphertext with
  | [] => throw (fault .hybridEmpty)
  | length :: rest =>
    if rest.length < length.toNat then throw (fault .hybridTruncated)
    let body := rest.drop length.toNat
    let point ← Result.ofOption .pointNotOnCurve
      (Weierstrass.ofBytes? k.curve.params (rest.take length.toNat))
    if body.length < shortestBody then throw (fault (.hybridTooShort body.length))
    openWith (.derive k.curve (Weierstrass.mul k.curve.params d point)) body

end KeySmith.Cipher.Hybrid

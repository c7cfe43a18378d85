import KeySmith.Curve.X25519
import KeySmith.Entropy
import KeySmith.Key.Ed25519

/-!
# Stream encryption to an Ed25519 key

The key is carried over to the Montgomery form of its curve, where an ephemeral secret agrees on a
value with it. The SHA-512 digest of that value is added to the message, so a message has at most 64
octets. Nothing tells a changed ciphertext: it decrypts to a changed message.
-/

namespace KeySmith

namespace Ed25519Key

/-- The abscissa of a stored point on the Montgomery form of the curve. -/
def montgomeryOf (point : Octets 32) : Result (Octets 32) :=
  (Result.ofOption .pointNotOnCurve (Edwards25519.decompress? point)).map fun P =>
    LittleEndian.octets 32 (Edwards25519.toMontgomery P)

/-- The public value of a key on the Montgomery form of the curve. -/
def montgomeryPublic (k : Ed25519Key) : Result (Octets 32) :=
  montgomeryOf k.point

/-- The secret of a key on the Montgomery form of the curve. -/
def montgomerySecret (k : Ed25519Key) : Result (Octets 32) :=
  (Result.ofOption .missingPrivate k.seed).map Edwards25519.secretScalar

end Ed25519Key

namespace Cipher.Stream

/-- The longest message. -/
def messageLimit : Nat :=
  64

/-- The octets of an ephemeral public value. -/
def publicSize : Nat :=
  32

/-- The octets that are added to a message. -/
def keystream (shared : Octets 32) : Bytes :=
  (Hash.sha512.digest shared.bytes).bytes

/-- Encrypts a message with the ephemeral secret given. -/
def encryptWith (k : Ed25519Key) (ephemeral : Octets 32) (message : Bytes) : Result Bytes :=
  if messageLimit < message.length then
    .error (.inputTooLarge message.length messageLimit)
  else
    k.montgomeryPublic.map fun recipient =>
      (X25519.publicValue ephemeral).bytes
        ++ Bytes.xor message (keystream (X25519.agree ephemeral recipient))

/-- Encrypts a message. -/
def encrypt (k : Ed25519Key) (message : Bytes) : Draw (Result Bytes) := do
  return encryptWith k (← Draw.octets 32) message

/-- Decrypts a ciphertext. -/
def decrypt (k : Ed25519Key) (ciphertext : Bytes) : Result Bytes := do
  let secret ← k.montgomerySecret
  if ciphertext.length < publicSize then throw (.malformed (.text .noEphemeralKey))
  if publicSize + messageLimit < ciphertext.length then
    throw (.inputTooLarge ciphertext.length (publicSize + messageLimit))
  let shared := X25519.agree secret (.firstOf 32 ciphertext)
  return Bytes.xor (ciphertext.drop publicSize) (keystream shared)

end Cipher.Stream

end KeySmith

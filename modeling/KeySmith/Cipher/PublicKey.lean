import KeySmith.Cipher.Hybrid
import KeySmith.Cipher.Rsa
import KeySmith.Cipher.Shared
import KeySmith.Cipher.Stream
import KeySmith.Key.Basic

/-!
# Encryption to a key

The algorithm of a key decides how messages to it are encrypted. Encryption uses the public half of
the key only.
-/

namespace KeySmith.Cipher

/-- Encrypts a message to a key. -/
def encrypt (k : Key) (message : Bytes) : Draw (Result Bytes) :=
  match k with
  | .rsa k => Rsa.encrypt k message
  | .ecdsa k => Hybrid.encrypt k message
  | .ed25519 k => Stream.encrypt k message

/-- Decrypts a ciphertext to a key, which has to be private. -/
def decrypt (k : Key) (ciphertext : Bytes) : Result Bytes :=
  match k with
  | .rsa k => Rsa.decrypt k ciphertext
  | .ecdsa k => Hybrid.decrypt k ciphertext
  | .ed25519 k => Stream.decrypt k ciphertext

/-- Encrypts a message to a key, in Base64. -/
def encryptBase64 (k : Key) (message : Bytes) : Draw (Result String) := do
  return (← encrypt k message).map toBase64

/-- Decrypts a ciphertext in Base64. -/
def decryptBase64 (k : Key) (text : String) : Result Bytes :=
  ofBase64 text >>= decrypt k

/-- A description, for logs, of what encrypts to a key. -/
def describe (k : Key) : String :=
  "PublicKeyCipher \x7b key: " ++ k.describe ++ " \x7d"

end KeySmith.Cipher

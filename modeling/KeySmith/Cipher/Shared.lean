import KeySmith.Aes.Modes
import KeySmith.Base64
import KeySmith.Entropy
import KeySmith.Error
import KeySmith.Text.Blank

/-!
# Encryption under a shared key

A ciphertext is an initialisation vector and the message with the keystream of the vector added to
it. The length of the key, 16, 24 or 32 octets, selects the cipher. A wrong key gives a wrong message
and no error.
-/

namespace KeySmith

/-- A shared key. -/
structure SharedKey where
  bytes : Bytes
  isKey : bytes.length = 16 ∨ bytes.length = 24 ∨ bytes.length = 32
deriving DecidableEq

namespace SharedKey

/-- The octets of a vector. -/
def vectorSize : Nat :=
  16

/-- The error for a key of the wrong length. -/
def lengthError (count : Nat) : Error :=
  .failure (.aesKeyLength count)

/-- The key with the given octets. -/
def ofBytes (bs : Bytes) : Result SharedKey :=
  if h : bs.length = 16 ∨ bs.length = 24 ∨ bs.length = 32 then .ok ⟨bs, h⟩
  else .error (lengthError bs.length)

/-- The lengths of keys. -/
def lengths : List Nat :=
  [16, 24, 32]

/-- Draws a key of the given length. -/
def generate (count : Nat) : Draw (Result SharedKey) := do
  if lengths.contains count then return ofBytes (← Draw.octets count).bytes
  else return .error (lengthError count)

/-- The size of a key in bits. -/
def bits (k : SharedKey) : Nat :=
  8 * k.bytes.length

/-- A description of a key for logs. It shows the size only. -/
def describe (k : SharedKey) : String :=
  "CommonKeyCipher \x7b bits: " ++ toString k.bits ++ " \x7d"

/-- Encrypts a message with the vector given. -/
def encryptWith (k : SharedKey) (iv : Octets 16) (message : Bytes) : Bytes :=
  iv.bytes ++ Aes.applyKeystream k.bytes iv message

/-- Encrypts a message. -/
def encrypt (k : SharedKey) (message : Bytes) : Draw Bytes := do
  return k.encryptWith (← Draw.octets 16) message

/-- Decrypts a ciphertext. -/
def decrypt (k : SharedKey) (ciphertext : Bytes) : Result Bytes :=
  if ciphertext.length < vectorSize then .error (.malformed (.text .noVector))
  else
    .ok (Aes.applyKeystream k.bytes (.firstOf 16 ciphertext) (ciphertext.drop vectorSize))

end SharedKey

namespace Cipher

/-- The ciphertext that a text gives in Base64. White space around it does not matter. -/
def ofBase64 (text : String) : Result Bytes :=
  Result.of (fun f => .malformed (.text (.notBase64 f)))
    (Base64.decodeText Base64.standard (String.ofList (Text.trim text.toList)))

/-- The Base64 form of a ciphertext. -/
def toBase64 (ciphertext : Bytes) : String :=
  Base64.encode Base64.standard ciphertext

end Cipher

end KeySmith

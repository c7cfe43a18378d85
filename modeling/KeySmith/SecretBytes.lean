import KeySmith.Error

/-!
# Secret octets

Decrypted messages are kept in a wrapper whose description never shows them.
-/

namespace KeySmith

/-- Octets that are not to be shown. -/
structure SecretBytes where
  bytes : Bytes
deriving DecidableEq

namespace SecretBytes

/-- No octets. -/
def empty : SecretBytes :=
  ⟨[]⟩

/-- Zero octets. -/
def zeros (count : Nat) : SecretBytes :=
  ⟨List.replicate count 0⟩

/-- Changes the octet at a place, if there is one. -/
def set? (s : SecretBytes) (place : Nat) (octet : UInt8) : Option SecretBytes :=
  if place < s.bytes.length then some ⟨s.bytes.set place octet⟩ else none

/-- The text that the octets are the UTF-8 form of. -/
def toText (s : SecretBytes) : Result String :=
  Result.ofOption (.malformed (.text .plaintextNotUtf8)) (Text.ofBytes? s.bytes)

/-- A description for logs. It shows the length only. -/
def describe (s : SecretBytes) : String :=
  "SecureBytes \x7b len: " ++ toString s.bytes.length ++ ", data: \"[REDACTED]\" \x7d"

end SecretBytes

end KeySmith

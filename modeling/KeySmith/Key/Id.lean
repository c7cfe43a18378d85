import KeySmith.Der.Spki
import KeySmith.Hash.Sha256

/-!
# Key identifiers

A key is identified by the first sixteen octets of the SHA-256 digest of its public key description,
in hexadecimal. A private key and its public half have the same identifier.
-/

namespace KeySmith.Key

/-- The identifier of a key. -/
def id (k : Key) : Result String := do
  let description ← Der.Spki.encode k
  return Hex.encode ((Hash.sha256.digest description).bytes.take 16)

end KeySmith.Key

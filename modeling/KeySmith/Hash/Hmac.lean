import KeySmith.Hash.Function

/-!
# Message authentication and key derivation by hashing

HMAC hashes a message twice under a key. PBKDF2 derives octets from a passphrase by iterating HMAC,
so that each guess costs as much as the iteration count says. Both work with any hash function.
-/

namespace KeySmith.Hash

/-- A key of HMAC, as the chaining values that the two hashings start from. -/
structure HmacKey (h : Function) where
  inner : h.State
  outer : h.State

namespace HmacKey

variable {h : Function}

/-- Prepares a key: one longer than a block is hashed first. -/
def ofBytes (h : Function) (key : Bytes) : HmacKey h :=
  let short := if h.blockSize < key.length then (h.digest key).bytes else key
  let full := (Octets.firstOf h.blockSize short).bytes
  { inner := h.absorb 1 (full.map (· ^^^ 0x36)) h.initial
    outer := h.absorb 1 (full.map (· ^^^ 0x5c)) h.initial }

/-- The tag of a message. -/
def tag (k : HmacKey h) (message : Bytes) : Octets h.digestSize :=
  h.finish k.outer h.blockSize (h.finish k.inner h.blockSize message).bytes

end HmacKey

/-- The authentication tag of a message under a key. -/
def hmac (h : Function) (key message : Bytes) : Octets h.digestSize :=
  (HmacKey.ofBytes h key).tag message

namespace Pbkdf2

variable {h : Function}

/-- Adds `count` more tags, each of the one before it, to `sum` by exclusive or. -/
def iterate (k : HmacKey h) : (count : Nat) → (last sum : Bytes) → Bytes
  | 0, _, sum => sum
  | count + 1, last, sum =>
    let next := (k.tag last).bytes
    iterate k count next (Bytes.xor sum next)

/-- The derived octets of the block with the given number, counted from one. -/
def block (k : HmacKey h) (salt : Bytes) (iterations number : Nat) : Bytes :=
  let first := (k.tag (salt ++ BigEndian.fixed 4 number)).bytes
  iterate k (iterations - 1) first first

/-- The derived octets of `count` blocks, the first with the given number. -/
def blocks (k : HmacKey h) (salt : Bytes) (iterations : Nat) : (count number : Nat) → Bytes
  | 0, _ => []
  | count + 1, number =>
    block k salt iterations number ++ blocks k salt iterations count (number + 1)

end Pbkdf2

/-- The first `length` octets that PBKDF2 derives from a passphrase. -/
def pbkdf2 (h : Function) (passphrase salt : Bytes) (iterations length : Nat) : Octets length :=
  let count := (length + h.digestSize - 1) / h.digestSize
  Octets.firstOf length (Pbkdf2.blocks (HmacKey.ofBytes h passphrase) salt iterations count 1)

end KeySmith.Hash

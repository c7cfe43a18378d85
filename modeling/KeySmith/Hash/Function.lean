import KeySmith.Bytes

/-!
# Iterated hash functions

A hash function here takes its message block by block into a chaining value. The message
authentication code and the key derivations are built on this interface alone.
-/

namespace KeySmith.Hash

/-- A hash function with its chaining value laid open. -/
structure Function where
  /-- Chaining values. -/
  State : Type
  /-- The octets in a block. -/
  blockSize : Nat
  /-- The octets in a digest. -/
  digestSize : Nat
  /-- The chaining value before the first block. -/
  initial : State
  /-- Takes `count` whole blocks from the front of the octets into the chaining value. -/
  absorb : (count : Nat) → Bytes → State → State
  /-- The octets that end a message of the given length. -/
  ending : (total : Nat) → Bytes
  /-- The digest that a chaining value stands for. -/
  output : State → Octets digestSize

namespace Function

variable (h : Function)

/-- The digest of a message whose first `taken` octets, whole blocks, led to `s`. -/
def finish (s : h.State) (taken : Nat) (rest : Bytes) : Octets h.digestSize :=
  let closed := rest ++ h.ending (taken + rest.length)
  h.output (h.absorb (closed.length / h.blockSize) closed s)

/-- The digest of a message. -/
def digest (message : Bytes) : Octets h.digestSize :=
  h.finish h.initial 0 message

end Function

end KeySmith.Hash

import KeySmith.Bytes
import KeySmith.Hash.Sha512

/-!
# Random choices

Random octets are drawn from a seed: each draw is a digest of the seed and of the number of draws
before it. What an operation does is thus a function of its arguments and of the source that it
draws from, and every operation that draws also has a form that takes the choices as arguments.
-/

namespace KeySmith

/-- A source of random octets: a seed, and the number of draws so far. -/
structure Entropy where
  seed : Bytes
  draws : Nat

/-- An operation that makes random choices. -/
abbrev Draw (α : Type) : Type :=
  StateM Entropy α

namespace Draw

/-- Draws 64 octets. -/
def block : Draw Bytes :=
  fun s => ((Hash.sha512.digest (s.seed ++ BigEndian.fixed 8 s.draws)).bytes,
    { s with draws := s.draws + 1 })

/-- Draws `count` times 64 octets. -/
def blocks : (count : Nat) → Draw Bytes
  | 0 => pure []
  | count + 1 => do
    let first ← block
    return first ++ (← blocks count)

/-- Draws `n` octets. -/
def octets (n : Nat) : Draw (Octets n) := do
  return .firstOf n (← blocks ((n + 63) / 64))

/-- Draws a number below `limit`, which is positive. -/
def below (limit : Nat) : Draw Nat := do
  let wide ← octets (BigEndian.size limit + 16)
  return BigEndian.toNat wide.bytes % limit

/-- Draws `count` nonzero octets. -/
def nonzero : (count : Nat) → Draw Bytes
  | 0 => pure []
  | count + 1 => do
    let n ← below 255
    return (n + 1).toUInt8 :: (← nonzero count)

/-- Draws a number of 32 bits. -/
def uint32 : Draw UInt32 := do
  return (← below (twoTo 32)).toUInt32

end Draw

end KeySmith

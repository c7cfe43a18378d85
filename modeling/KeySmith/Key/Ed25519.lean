import KeySmith.Error
import KeySmith.Curve.Edwards25519

/-!
# Ed25519 keys

A key is a stored point and perhaps the seed that it was derived from. A key of type `Ed25519Key`
has been checked: the point can be read back, and it is the one that belongs to the seed.
-/

namespace KeySmith

/-- A checked Ed25519 key. -/
structure Ed25519Key where
  point : Octets 32
  seed : Option (Octets 32)
  onCurve : (Edwards25519.decompress? point).isSome
  isPair : ∀ s, seed = some s → point = Edwards25519.publicPoint s
deriving DecidableEq

namespace Ed25519Key

/-- The key of a seed. The point is read back before it is handed out. -/
def ofSeed? (seed : Octets 32) : Option Ed25519Key :=
  let point := Edwards25519.publicPoint seed
  if h : (Edwards25519.decompress? point).isSome then
    some ⟨point, some seed, h, by
      intro s hs
      cases hs
      rfl⟩
  else none

/-- The public key at a stored point. -/
def ofPoint? (point : Octets 32) : Option Ed25519Key :=
  if h : (Edwards25519.decompress? point).isSome then some ⟨point, none, h, by simp⟩ else none

/-- The key without its seed. -/
def toPublic (k : Ed25519Key) : Ed25519Key :=
  ⟨k.point, none, k.onCurve, by simp⟩

/-- The seed followed by the point. -/
def pairBytes? (k : Ed25519Key) : Option Bytes :=
  k.seed.map fun s => s.bytes ++ k.point.bytes

end Ed25519Key

end KeySmith

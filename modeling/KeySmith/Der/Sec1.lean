import KeySmith.Der.AlgorithmId
import KeySmith.Key.Ec

/-!
# Elliptic curve private key bodies

A body holds the scalar and may name the curve and give the point. Outside of a wrapping that names
the curve, the body has to name it. A point that is given has to be the one of the scalar.
-/

namespace KeySmith.Der.Sec1

/-- The parts of a body. -/
structure Body where
  scalar : Bytes
  curve : Option ObjectId
  point : Option Bytes

/-- Reads a bit string all of whose bits count. -/
def wholeBits : Reader Bytes := do
  Reader.ofOption (← bitString).whole?

/-- Reads a body. -/
def readBody : Reader Body :=
  sequence do
    let version ← naturalBelow 256
    if version ≠ 1 then Reader.fail
    else
      let scalar ← octetString
      let curve ← field? 0 (inside (explicitTag 0) objectId)
      let point ← field? 1 (inside (explicitTag 1) wholeBits)
      return ⟨scalar, curve, point⟩

/-- Whether an octet form of a point, with one coordinate or both, is the form of a key. -/
def isFormOf (form : Bytes) (k : EcKey) : Bool :=
  form == k.pointBytes || form == Weierstrass.compressed k.curve.params k.point

/-- The key of a body on a curve. -/
def Body.key? (b : Body) (c : Curve) : Option EcKey :=
  (EcKey.ofScalarBytes? c b.scalar).filter fun k => b.point.all (isFormOf · k)

/-- The octets of a body. -/
def Body.encode (b : Body) : Bytes :=
  sequenceBytes [naturalBytes 1, octetStringBytes b.scalar,
    (b.curve.map fun oid => element (explicitTag 0) (objectIdBytes oid)).getD [],
    (b.point.map fun form => element (explicitTag 1) (bitStringBytes form)).getD []]

/-- The body of a key with a scalar; it gives the point, and names the curve if asked to. -/
def body? (k : EcKey) (named : Bool) : Option Body :=
  k.scalarBytes?.map fun scalar =>
    ⟨scalar, if named then some k.curve.objectId else none, some k.pointBytes⟩

/-- Reads a key from a body that names its curve. -/
def decode (bs : Bytes) : Result EcKey := do
  let body ← Result.ofOption (.malformed (.der .ecStructure)) (readDocument? readBody bs)
  let oid ← Result.ofOption (.malformed (.der .ecCurveMissing)) body.curve
  let curve ← Result.ofOption (.malformed (.der (.unsupportedCurve oid))) (Curve.ofObjectId? oid)
  Result.ofOption (.malformed (.der .ecValue)) (body.key? curve)

/-- The body of a key, with the curve named. -/
def encode (k : EcKey) : Result Bytes := do
  let body ← Result.ofOption .missingPrivate (body? k true)
  return body.encode

end KeySmith.Der.Sec1

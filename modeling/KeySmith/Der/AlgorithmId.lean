import KeySmith.Der.Element
import KeySmith.Error

/-!
# Algorithm identifiers

An algorithm is named by an object identifier and may have parameters, which can be any element.
For elliptic curve keys they name the curve.
-/

namespace KeySmith

namespace Curve

/-- The object identifier of a curve. -/
def objectId : Curve → Der.ObjectId
  | p256 => .ofArcs [1, 2, 840, 10045, 3, 1, 7]
  | p384 => .ofArcs [1, 3, 132, 0, 34]
  | p521 => .ofArcs [1, 3, 132, 0, 35]

/-- The curve with the given object identifier. -/
def ofObjectId? (oid : Der.ObjectId) : Option Curve :=
  all.find? (·.objectId == oid)

end Curve

namespace Der

/-- The identifier of RSA keys. -/
def rsaEncryption : ObjectId :=
  .ofArcs [1, 2, 840, 113549, 1, 1, 1]

/-- The identifier of elliptic curve keys. -/
def ecPublicKey : ObjectId :=
  .ofArcs [1, 2, 840, 10045, 2, 1]

/-- The identifier of Ed25519 keys. -/
def ed25519 : ObjectId :=
  .ofArcs [1, 3, 101, 112]

/-- An algorithm with its parameters. -/
structure AlgorithmId where
  oid : ObjectId
  parameters : Option Element
deriving DecidableEq

namespace AlgorithmId

/-- Reads any one element if something is left. -/
def anyElement? : Reader (Option Element)
  | [] => some (none, [])
  | tag :: rest => (Element.read (tag :: rest)).map fun (e, more) => (some e, more)

/-- Reads an algorithm. -/
def read : Reader AlgorithmId :=
  sequence do
    let oid ← objectId
    return ⟨oid, ← anyElement?⟩

/-- The octets of an algorithm. -/
def encode (a : AlgorithmId) : Bytes :=
  sequenceBytes [objectIdBytes a.oid, (a.parameters.map Element.encode).getD []]

/-- The octets of an RSA algorithm, whose parameters are the null value. -/
def rsa : AlgorithmId :=
  ⟨rsaEncryption, some nullElement⟩

/-- The algorithm of keys on a curve. -/
def ec (c : Curve) : AlgorithmId :=
  ⟨ecPublicKey, some ⟨objectIdTag, c.objectId.bytes⟩⟩

/-- The fault of the parameters of an RSA algorithm, if they are not the null value. -/
def rsaFault? (a : AlgorithmId) : Option PublicInfoFault :=
  match a.parameters with
  | none => some .parametersMissing
  | some e => if e = nullElement then none else some .keyMalformed

/-- The curve that the parameters of an elliptic curve algorithm name. -/
def curve (a : AlgorithmId) : Result Curve :=
  match a.parameters with
  | none => .error (.malformed (.der (.noNamedCurve .parametersMissing)))
  | some e =>
    match (if e.tag = objectIdTag then ObjectId.ofBytes? e.content else none) with
    | none => .error (.malformed (.der (.noNamedCurve .notDer)))
    | some oid => Result.ofOption (.malformed (.der (.unsupportedCurve oid))) (Curve.ofObjectId? oid)

end AlgorithmId

end Der

end KeySmith

import KeySmith.Error

/-!
# Elliptic curve keys

A key is a point of a named curve and perhaps the scalar that leads from the base point to it. A key
of type `EcKey` has been checked: the point lies on the curve, and it is the one that belongs to the
scalar.
-/

namespace KeySmith

namespace Curve

/-- The curve that a person means. -/
def parse (s : String) : Result Curve :=
  Result.ofOption (.malformed (.unknownCurve s)) (ofSpelling? s)

/-- The curve with the given size in bits. -/
def ofBits (n : Nat) : Result Curve :=
  Result.ofOption (.malformed (.curveBits n)) (ofBits? n)

end Curve

/-- A checked key on a named curve. -/
structure EcKey where
  curve : Curve
  point : Weierstrass.Point
  scalar : Option Nat
  onCurve : Weierstrass.Contains curve.params point
  isPair : ∀ d, scalar = some d → curve.publicPoint? d = some point
deriving DecidableEq

namespace EcKey

/-- The key of a scalar, which has to be positive and below the order of the curve. -/
def ofScalar? (curve : Curve) (d : Nat) : Option EcKey :=
  match h : curve.publicPoint? d with
  | none => none
  | some P => some ⟨curve, P, some d, by
      unfold Curve.publicPoint? at h
      split at h
      · exact of_decide_eq_true (Option.filter_eq_some_iff.1 h).2
      · simp at h, by
      intro d' hd
      cases hd
      exact h⟩

/-- The public key at a point, given in one of its octet forms. -/
def ofPoint? (curve : Curve) (form : Bytes) : Option EcKey :=
  match h : Weierstrass.ofBytes? curve.params form with
  | none => none
  | some P => some ⟨curve, P, none, Weierstrass.contains_of_ofBytes? curve.params h, by simp⟩

/-- The shortest octet string that is taken for a scalar. -/
def shortestScalar : Nat :=
  24

/-- The key of a scalar that is written in as many octets as a coordinate, or in fewer. -/
def ofScalarBytes? (curve : Curve) (bs : Bytes) : Option EcKey :=
  if bs.length = curve.size ∨ (shortestScalar ≤ bs.length ∧ bs.length < curve.size) then
    ofScalar? curve (BigEndian.toNat bs)
  else none

/-- The key at a point and of a scalar, if one is given. The two have to match. -/
def ofParts (curve : Curve) (point : Bytes) (scalar? : Option Bytes) : Result EcKey := do
  let key ← Result.ofOption .pointNotOnCurve (ofPoint? curve point)
  match scalar? with
  | none => return key
  | some bs =>
    let pair ← Result.ofOption (.malformed .scalar) (ofScalarBytes? curve bs)
    if pair.point = key.point then return pair else throw (.malformed .scalarMismatch)

/-- The key without its scalar. -/
def toPublic (k : EcKey) : EcKey :=
  ⟨k.curve, k.point, none, k.onCurve, by simp⟩

/-- The point with both coordinates. -/
def pointBytes (k : EcKey) : Bytes :=
  Weierstrass.uncompressed k.curve.params k.point

/-- The scalar in as many octets as a coordinate. -/
def scalarBytes? (k : EcKey) : Option Bytes :=
  k.scalar.map (BigEndian.fixed k.curve.size)

end EcKey

end KeySmith

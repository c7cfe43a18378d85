import KeySmith.Jwk
import KeySmith.Proofs.Key
import KeySmith.Proofs.Strict.Run

/-!
# Reading keys in bounds

The coordinates of a point are split apart only after the length of both has been looked at, and a
point that is written has twice as many octets as a coordinate behind its first one, so both
coordinates are found where they are cut out for a JSON Web Key.
-/

namespace KeySmith.Strict

/-! ### Keys on a curve -/

/-- Fails unless a point is there and lies on the curve. -/
def onCurve (E : Weierstrass.Params) (P? : Option Weierstrass.Point) :
    Result Weierstrass.Point :=
  Result.ofOption .pointNotOnCurve (P?.filter fun P => decide (Weierstrass.Contains E P))

/-- Reads a point in one of its octet forms, with the coordinates split apart. -/
def readForm (E : Weierstrass.Params) (form : Bytes) : Run Error Weierstrass.Point :=
  match form with
  | [] => throw .pointNotOnCurve
  | tag :: body =>
    if tag = 4 ∧ body.length = 2 * E.size then do
      let (x, y) ← splitAt? E.size body
      onCurve E (some ⟨BigEndian.toNat x, BigEndian.toNat y⟩)
    else if (tag = 2 ∨ tag = 3) ∧ body.length = E.size ∧ BigEndian.toNat body < E.p then
      onCurve E (Weierstrass.lift? E (BigEndian.toNat body) (tag == 3))
    else if tag = 5 ∧ body.length = E.size ∧ BigEndian.toNat body < E.p then
      onCurve E (Weierstrass.liftSmaller? E (BigEndian.toNat body))
    else throw .pointNotOnCurve

/-- A key without a scalar has none that its point could differ from. -/
theorem isPair_none (curve : Curve) (P : Weierstrass.Point) :
    ∀ d, none = some d → curve.publicPoint? d = some P := by
  intro d hd
  cases hd

/-- The public key at a point that is read. -/
def ofPoint (curve : Curve) (form : Bytes) : Run Error EcKey := do
  let P ← readForm curve.params form
  if h : Weierstrass.Contains curve.params P then return ⟨curve, P, none, h, isPair_none curve P⟩
  else throw .pointNotOnCurve

/-- The key at a point and of a scalar, if one is given. -/
def ofParts (curve : Curve) (form : Bytes) (scalar? : Option Bytes) : Run Error EcKey := do
  let key ← ofPoint curve form
  match scalar? with
  | none => return key
  | some bs =>
    let pair ← Result.ofOption (.malformed .scalar) (EcKey.ofScalarBytes? curve bs)
    if pair.point = key.point then return pair else throw (.malformed .scalarMismatch)

/-- The coordinates are split apart behind the check of their length. -/
theorem readForm_agrees (E : Weierstrass.Params) (form : Bytes) :
    Agrees (readForm E form) (Result.ofOption .pointNotOnCurve (Weierstrass.ofBytes? E form)) := by
  cases form with
  | nil => exact .throw _
  | cons tag body =>
    unfold readForm Weierstrass.ofBytes?
    dsimp only
    split_ifs
    · exact .step (splitAt?_of_le (by omega)) (.lift _)
    · exact .lift _
    · exact .lift _
    · exact .throw _

/-- What is read lies on the curve, so it is a key. -/
theorem ofPoint_agrees (curve : Curve) (form : Bytes) :
    Agrees (ofPoint curve form) (Result.ofOption .pointNotOnCurve (EcKey.ofPoint? curve form)) := by
  have hread := readForm_agrees curve.params form
  cases hP : Weierstrass.ofBytes? curve.params form with
  | none =>
    rw [hP] at hread
    have hkey : EcKey.ofPoint? curve form = none := by
      rw [Option.eq_none_iff_forall_ne_some]
      intro k hk
      rw [(EcKey.ofPoint?_eq_some_iff.mp hk).2.2] at hP
      cases hP
    rw [hkey]
    exact .error hread
  | some P =>
    rw [hP] at hread
    have honCurve := Weierstrass.contains_of_ofBytes? curve.params hP
    have hkey : EcKey.ofPoint? curve form = some ⟨curve, P, none, honCurve, isPair_none curve P⟩ :=
      EcKey.ofPoint?_eq_some_iff.mpr ⟨rfl, rfl, hP⟩
    rw [hkey]
    refine .value hread ?_
    rw [dif_pos honCurve]
    exact .pure _

theorem ofParts_agrees (curve : Curve) (form : Bytes) (scalar? : Option Bytes) :
    Agrees (ofParts curve form scalar?) (EcKey.ofParts curve form scalar?) := by
  refine .bind (ofPoint_agrees curve form) fun key _ => ?_
  cases scalar? with
  | none => exact .pure key
  | some bs => exact .bind (.lift _) fun pair _ => .ite (fun _ => .pure _) fun _ => .throw _

/-! ### JSON Web Keys -/

namespace Jwk

open KeySmith (Jwk)
open KeySmith.Jwk (required memberOctets scalar? fault rsaKey rsaType curveType octetType unsupported)

/-- The curve key of a form. -/
def ecKey (j : Jwk) : Run Error EcKey := do
  let name ← required "crv" j.crv
  let curve ← Result.ofOption (.malformed (.unknownCurve name)) (Curve.ofSpelling? name)
  let x ← memberOctets "x" j.x
  let y ← memberOctets "y" j.y
  if x.length ≠ curve.size ∨ y.length ≠ curve.size then throw (fault (.coordinateLength curve))
  let d ← scalar? j curve
  ofParts curve (4 :: (x ++ y)) d

/-- The key of a form. -/
def toKey (j : Jwk) : Run Error Key := do
  if j.kty = rsaType then return .rsa (← rsaKey j)
  else if j.kty = curveType then return .ecdsa (← ecKey j)
  else if j.kty = octetType then throw unsupported
  else throw (fault (.unsupportedType j.kty))

/-- The form of a curve key, with the coordinates cut out of the form of its point. -/
def ofEc (k : EcKey) : Option Jwk := do
  let (x, y) ← splitAt? k.curve.size (← from? 1 k.pointBytes)
  return {
    kty := curveType
    alg := some k.curve.signatureName
    crv := some k.curve.name
    x := KeySmith.Jwk.octets x
    y := KeySmith.Jwk.octets y
    d := k.scalarBytes?.bind KeySmith.Jwk.octets }

theorem ecKey_agrees (j : Jwk) : Agrees (ecKey j) j.ecKey := by
  refine .bind (.lift _) fun name _ => .bind (.lift _) fun curve _ => ?_
  refine .bind (.lift _) fun x _ => .bind (.lift _) fun y _ => .guard fun _ => ?_
  exact .bind (.lift _) fun d _ => ofParts_agrees curve _ d

theorem toKey_agrees (j : Jwk) : Agrees (toKey j) j.toKey := by
  refine .ite (fun _ => ?_) fun _ => .ite (fun _ => ?_) fun _ => ?_
  · exact .bind (.lift _) fun _ _ => .pure _
  · exact .bind (ecKey_agrees j) fun _ _ => .pure _
  · exact .ite (fun _ => .throw _) fun _ => .throw _

/-- Both coordinates of every key are found in the form of its point. -/
theorem ofEc_eq (k : EcKey) : ofEc k = some (KeySmith.Jwk.ofEc k) := by
  have hlength := k.length_pointBytes
  have hbehind : from? 1 k.pointBytes =
      some (BigEndian.fixed k.curve.size k.point.x ++ BigEndian.fixed k.curve.size k.point.y) :=
    from?_of_le (by omega)
  have hsplit : splitAt? k.curve.size
      (BigEndian.fixed k.curve.size k.point.x ++ BigEndian.fixed k.curve.size k.point.y) =
      some (BigEndian.fixed k.curve.size k.point.x, BigEndian.fixed k.curve.size k.point.y) := by
    rw [splitAt?_of_le (by simp), List.take_left' (BigEndian.length_fixed _ _),
      List.drop_left' (BigEndian.length_fixed _ _)]
  unfold ofEc
  rw [hbehind]
  simp only [Option.bind_eq_bind, Option.bind_some, hsplit]
  rfl

end Jwk

end KeySmith.Strict

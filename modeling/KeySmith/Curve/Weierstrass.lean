import KeySmith.Bytes
import KeySmith.Number.Modular

/-!
# Points of a Weierstrass curve

The curves are `y² = x³ - 3 x + b` modulo a prime. A point is given by its coordinates, and the
points together with one more, `none`, form a group under the addition of chords and tangents. The
formulas divide, by `Modular.inverse`.
-/

namespace KeySmith.Weierstrass

/-- The numbers that define a curve with its base point. -/
structure Params where
  /-- The prime modulus; it is 3 modulo 4. -/
  p : Nat
  /-- The constant term of the cubic. -/
  b : Nat
  /-- The coordinates of the base point. -/
  (gx gy : Nat)
  /-- The order of the base point, a prime. -/
  order : Nat
  /-- The number of octets of a coordinate. -/
  size : Nat

/-- A point other than the neutral one. -/
structure Point where
  (x y : Nat)
deriving DecidableEq

variable (E : Params)

/-- The cubic `x³ - 3 x + b`. -/
def cubic (x : Nat) : Nat :=
  Modular.sub E.p (x * x % E.p * x + E.b) (3 * x % E.p)

/-- Whether a point is reduced and lies on the curve. -/
def Contains (P : Point) : Prop :=
  P.x < E.p ∧ P.y < E.p ∧ P.y * P.y % E.p = cubic E P.x

instance (P : Point) : Decidable (Contains E P) :=
  inferInstanceAs (Decidable (_ ∧ _ ∧ _))

/-- The third point, reflected, on the line through `P` with the given slope that also meets the
abscissa `x`. -/
def reflect (P : Point) (slope x : Nat) : Point :=
  let x' := Modular.sub E.p (slope * slope) ((P.x + x) % E.p)
  ⟨x', Modular.sub E.p (slope * (P.x + (E.p - x'))) P.y⟩

/-- A point added to itself, along its tangent. -/
def double (P : Point) : Option Point :=
  if P.y = 0 then none
  else
    let slope := 3 * (P.x * P.x + (E.p - 1)) % E.p * Modular.inverse E.p (2 * P.y) % E.p
    some (reflect E P slope P.x)

/-- The sum of two points. -/
def add : Option Point → Option Point → Option Point
  | none, Q => Q
  | P, none => P
  | some P, some Q =>
    if P.x = Q.x then
      if P.y = Q.y then double E P else none
    else
      let rise := Modular.sub E.p Q.y P.y
      let slope := rise * Modular.inverse E.p (Modular.sub E.p Q.x P.x) % E.p
      some (reflect E P slope Q.x)

/-- `acc` plus `k` times `P`. -/
def mulLoop (acc P : Option Point) (k : Nat) : Option Point :=
  if k = 0 then acc
  else mulLoop (if k % 2 = 1 then add E acc P else acc) (add E P P) (k / 2)
termination_by k
decreasing_by omega

/-- `k` times `P`. -/
def mul (k : Nat) (P : Point) : Option Point :=
  mulLoop E none (some P) k

/-- The base point. -/
def base : Point :=
  ⟨E.gx, E.gy⟩

/-! ### Octet forms -/

/-- The point with a given abscissa and a given parity of the ordinate. The ordinate is a power of
the cubic, since the modulus is 3 modulo 4. -/
def lift? (x : Nat) (odd : Bool) : Option Point :=
  let square := cubic E x
  let root := Modular.pow E.p square ((E.p + 1) / 4)
  if root * root % E.p = square then
    let y := if (root % 2 == 1) == odd then root else (E.p - root) % E.p
    some ⟨x, y⟩
  else none

/-- The point with a given abscissa and the smaller one of its two ordinates. -/
def liftSmaller? (x : Nat) : Option Point :=
  (lift? E x false).map fun P => ⟨x, min P.y ((E.p - P.y) % E.p)⟩

/-- The form with both coordinates: the octet 4, then each in full width. -/
def uncompressed (P : Point) : Bytes :=
  4 :: (BigEndian.fixed E.size P.x ++ BigEndian.fixed E.size P.y)

/-- The form with one coordinate: the octet 2 or 3, which tells the parity of the ordinate, and the
abscissa. -/
def compressed (P : Point) : Bytes :=
  (if P.y % 2 = 0 then 2 else 3) :: BigEndian.fixed E.size P.x

/-- Reads a point in one of its octet forms: with both coordinates, with the parity of the
ordinate, or, after the octet 5, with the abscissa of the point whose ordinate is the smaller one.
The coordinates have to be reduced and the point has to lie on the curve. -/
def ofBytes? (bs : Bytes) : Option Point :=
  match bs with
  | [] => none
  | tag :: body =>
    let P? :=
      if tag = 4 ∧ body.length = 2 * E.size then
        some ⟨BigEndian.toNat (body.take E.size), BigEndian.toNat (body.drop E.size)⟩
      else if (tag = 2 ∨ tag = 3) ∧ body.length = E.size ∧ BigEndian.toNat body < E.p then
        lift? E (BigEndian.toNat body) (tag == 3)
      else if tag = 5 ∧ body.length = E.size ∧ BigEndian.toNat body < E.p then
        liftSmaller? E (BigEndian.toNat body)
      else none
    P?.filter fun P => decide (Contains E P)

/-- Every point that is read lies on the curve. -/
theorem contains_of_ofBytes? {bs : Bytes} {P : Point} (h : ofBytes? E bs = some P) :
    Contains E P := by
  unfold ofBytes? at h
  split at h
  · simp at h
  · exact of_decide_eq_true (Option.filter_eq_some_iff.1 h).2

end KeySmith.Weierstrass

import KeySmith.Proofs.Curve.Primes
import KeySmith.Proofs.Curve.Weierstrass
import KeySmith.Proofs.Key

/-!
# The orders of the base points

The order of the base point of a curve is the prime that is given for it.  The multiple by this
prime is computed without divisions, in Jacobian coordinates: a point with the coordinates `x` and
`y` is held as `x z²`, `y z³` and `z`.  Every step multiplies `z` by the denominator that it does
without, so when `z` is not zero in the end, no denominator has been zero on the way.
-/

namespace KeySmith

namespace Weierstrass

open WeierstrassCurve

/-! ### Multiples in Jacobian coordinates -/

/-- Jacobian coordinates. -/
structure Jacobian where
  (x y z : Nat)

namespace Jacobian

/-- The third point on a line, reflected, from the numerators of the slope and of the coordinates of
the first point, and from the new denominator. -/
def third (E : Params) (slope x₁ y₁ sum z : Nat) : Jacobian :=
  let x := Modular.sub E.p (slope * slope) (sum % E.p)
  ⟨x, Modular.sub E.p (slope * (x₁ + (E.p - x))) (y₁ % E.p), z % E.p⟩

/-- A point added to itself. -/
def double (E : Params) (J : Jacobian) : Jacobian :=
  let zz := J.z * J.z % E.p
  let yy := J.y * J.y % E.p
  let x₁ := 4 * J.x * yy % E.p
  third E (3 * Modular.sub E.p (J.x * J.x) (zz * zz % E.p)) x₁ (8 * yy * yy) (2 * x₁)
    (2 * J.y * J.z)

/-- The base point added to a point. -/
def addBase (E : Params) (J : Jacobian) : Jacobian :=
  let zz := J.z * J.z % E.p
  let run := Modular.sub E.p (E.gx * zz) (J.x % E.p)
  let rise := Modular.sub E.p (E.gy * zz % E.p * J.z) (J.y % E.p)
  let square := run * run % E.p
  let cube := run * square % E.p
  third E rise (J.x * square) (J.y * cube) (cube + 2 * J.x * square) (J.z * run)

/-- Goes through the `count` lowest bits of the scalar, the highest first: doubles, and adds the
base point where there is a bit. -/
def multiple (E : Params) (scalar : Nat) : (count : Nat) → Jacobian → Jacobian
  | 0, J => J
  | count + 1, J =>
    let D := double E J
    multiple E scalar count (if scalar.testBit count then addBase E D else D)

variable {E : Params}

/-- Coordinates represent a point unless their denominator is zero. -/
def Represents (J : Jacobian) (Q : (curve E).Point) : Prop :=
  (J.z : ZMod E.p) ≠ 0 → ∃ x y, ∃ h : (curve E).Nonsingular x y, Q = .some x y h ∧
    (J.x : ZMod E.p) = x * J.z ^ 2 ∧ (J.y : ZMod E.p) = y * J.z ^ 3

variable [Fact E.p.Prime]

theorem cast_third_x (slope x₁ y₁ sum z : Nat) :
    ((third E slope x₁ y₁ sum z).x : ZMod E.p) = slope ^ 2 - sum := by
  rw [third, Modular.cast_sub (Modular.mod_le sum), ZMod.natCast_mod, Nat.cast_mul, sq]

theorem cast_third_y (slope x₁ y₁ sum z : Nat) :
    ((third E slope x₁ y₁ sum z).y : ZMod E.p) = slope * (x₁ - (slope ^ 2 - sum)) - y₁ := by
  have hx := cast_third_x (E := E) slope x₁ y₁ sum z
  rw [third] at hx ⊢
  rw [Modular.cast_sub (Modular.mod_le y₁), ZMod.natCast_mod, Nat.cast_mul, Nat.cast_add,
    Nat.cast_sub (Modular.sub_lt (NeZero.pos E.p)).le, hx, ZMod.natCast_self]
  ring

theorem cast_third_z (slope x₁ y₁ sum z : Nat) :
    ((third E slope x₁ y₁ sum z).z : ZMod E.p) = z :=
  ZMod.natCast_mod z E.p

/-- The base point represents itself. -/
theorem represents_base {G : (curve E).Point} (hG : coordinates G = some (base E)) :
    (⟨E.gx, E.gy, 1⟩ : Jacobian).Represents G := by
  intro _
  obtain _ | ⟨x, y, h⟩ := G
  · cases hG
  · obtain ⟨hx, hy⟩ := Point.mk.inj (Option.some.inj hG)
    refine ⟨x, y, h, rfl, ?_, ?_⟩
    · rw [← hx, ZMod.natCast_zmod_val, Nat.cast_one, one_pow, mul_one]
    · rw [← hy, ZMod.natCast_zmod_val, Nat.cast_one, one_pow, mul_one]

/-- Doubled coordinates represent the doubled point. -/
theorem Represents.double {J : Jacobian} {Q : (curve E).Point} (hJ : J.Represents Q) :
    (double E J).Represents (Q + Q) := by
  intro hz
  simp only [Jacobian.double, cast_third_x, cast_third_y, cast_third_z] at hz ⊢
  push_cast [Modular.cast_sub (Modular.mod_le _), ZMod.natCast_mod] at hz ⊢
  obtain ⟨x, y, h, rfl, hx, hy⟩ := hJ (right_ne_zero_of_mul hz)
  rw [hy] at hz
  have hy0 : 2 * y ≠ 0 := fun h => hz (by linear_combination (J.z : ZMod E.p) ^ 4 * h)
  obtain ⟨l, hl, x', y', h', hsum, rfl, rfl⟩ := GroupLaw.exists_tangent h hy0
  refine ⟨_, _, h', hsum, ?_, ?_⟩
  · simp only [curve] at hl ⊢
    rw [hx, hy]
    linear_combination -(J.z : ZMod E.p) ^ 8 * (l * (2 * y) + (3 * x ^ 2 - 3)) * hl
  · simp only [curve] at hl ⊢
    rw [hx, hy]
    linear_combination -(J.z : ZMod E.p) ^ 12 * (12 * x * y ^ 2 -
      ((3 * x ^ 2 - 3) ^ 2 + (3 * x ^ 2 - 3) * (l * (2 * y)) + (l * (2 * y)) ^ 2)) * hl

variable {G : (curve E).Point} (hG : coordinates G = some (base E))

include hG in
/-- The sum with the base point is represented. -/
theorem Represents.addBase {J : Jacobian} {Q : (curve E).Point} (hJ : J.Represents Q) :
    (addBase E J).Represents (Q + G) := by
  intro hz
  simp only [Jacobian.addBase, cast_third_x, cast_third_y, cast_third_z] at hz ⊢
  push_cast [Modular.cast_sub (Modular.mod_le _), ZMod.natCast_mod] at hz ⊢
  obtain ⟨x, y, h, rfl, hx, hy⟩ := hJ (left_ne_zero_of_mul hz)
  obtain ⟨gx, gy, hpoint, rfl, hgx, hgy⟩ := represents_base hG (by simp)
  simp only [Nat.cast_one, one_pow, mul_one] at hgx hgy
  rw [hx, hgx] at hz
  have hne : x ≠ gx := by
    rintro rfl
    exact hz (by ring)
  obtain ⟨l, hl, x', y', h', hsum, rfl, rfl⟩ := GroupLaw.exists_chord h hpoint hne
  refine ⟨_, _, h', hsum, ?_, ?_⟩
  · simp only [curve]
    rw [hx, hy, hgx, hgy]
    linear_combination -(J.z : ZMod E.p) ^ 6 * (l * (gx - x) + (gy - y)) * hl
  · simp only [curve]
    rw [hx, hy, hgx, hgy]
    linear_combination -(J.z : ZMod E.p) ^ 9 * ((gx - x) ^ 2 * (2 * x + gx) -
      ((gy - y) ^ 2 + (gy - y) * (l * (gx - x)) + (l * (gx - x)) ^ 2)) * hl

include hG in
/-- The multiples of the base point are represented. -/
theorem Represents.multiple {J : Jacobian} {Q : (curve E).Point} (hJ : J.Represents Q)
    (scalar count : Nat) :
    (multiple E scalar count J).Represents (2 ^ count • Q + (scalar % 2 ^ count) • G) := by
  induction count generalizing J Q with
  | zero =>
    rw [pow_zero, one_nsmul, Nat.mod_one, zero_nsmul, add_zero]
    exact hJ
  | succ count ih =>
    rw [Jacobian.multiple, Nat.mod_pow_succ, ← Nat.toNat_testBit]
    cases hbit : scalar.testBit count with
    | false =>
      have hsum : 2 ^ count • (Q + Q) + (scalar % 2 ^ count) • G =
          2 ^ (count + 1) • Q + (scalar % 2 ^ count + 2 ^ count * false.toNat) • G := by
        rw [← two_nsmul, ← mul_nsmul', pow_succ, Bool.toNat_false, mul_zero, add_zero]
      exact hsum ▸ ih hJ.double
    | true =>
      have hsum : 2 ^ count • (Q + Q + G) + (scalar % 2 ^ count) • G =
          2 ^ (count + 1) • Q + (scalar % 2 ^ count + 2 ^ count * true.toNat) • G := by
        rw [← two_nsmul, nsmul_add, ← mul_nsmul', pow_succ, Bool.toNat_true, mul_one, add_nsmul]
        abel
      exact hsum ▸ ih (hJ.double.addBase hG)

/-- Whether the multiple by one less than the order is the base point, reflected. -/
def ReachesNegBase (E : Params) : Prop :=
  let count := (E.order - 1).log2
  let J := multiple E (E.order - 1) count ⟨E.gx, E.gy, 1⟩
  2 ^ count + (E.order - 1) % 2 ^ count = E.order - 1 ∧ J.z % E.p ≠ 0 ∧
    J.x % E.p = E.gx * J.z ^ 2 % E.p ∧ (J.y + E.gy * J.z ^ 3) % E.p = 0

instance : Decidable (ReachesNegBase E) :=
  inferInstanceAs (Decidable (_ ∧ _ ∧ _ ∧ _))

include hG in
/-- The multiple of the base point by the order is neutral. -/
theorem order_nsmul_eq_zero (horder : 0 < E.order) (h : ReachesNegBase E) : E.order • G = 0 := by
  obtain ⟨hcount, hz, hx, hy⟩ := h
  have hrep := (represents_base hG).multiple hG (E.order - 1) (E.order - 1).log2
  rw [← add_nsmul, hcount] at hrep
  set J := multiple E (E.order - 1) (E.order - 1).log2 ⟨E.gx, E.gy, 1⟩
  have hz0 : (J.z : ZMod E.p) ≠ 0 := by
    intro hzero
    exact hz (Nat.mod_eq_zero_of_dvd ((ZMod.natCast_eq_zero_iff _ _).mp hzero))
  obtain ⟨x, y, hQ, hmul, hJx, hJy⟩ := hrep hz0
  obtain ⟨gx, gy, hpoint, rfl, hgx, hgy⟩ := represents_base hG (by simp)
  simp only [Nat.cast_one, one_pow, mul_one] at hgx hgy
  have hx0 : x = gx := by
    have hcast := (ZMod.natCast_eq_natCast_iff' _ _ _).mpr hx
    rw [Nat.cast_mul, Nat.cast_pow, hJx, hgx] at hcast
    exact mul_right_cancel₀ (pow_ne_zero 2 hz0) hcast
  have hy0 : y = -gy := by
    have hcast := (ZMod.natCast_eq_zero_iff _ _).mpr (Nat.dvd_of_mod_eq_zero hy)
    rw [Nat.cast_add, Nat.cast_mul, Nat.cast_pow, hJy, hgy, ← add_mul] at hcast
    exact eq_neg_of_add_eq_zero_left ((mul_eq_zero.mp hcast).resolve_right (pow_ne_zero 3 hz0))
  have hneg : (E.order - 1) • Affine.Point.some gx gy hpoint = -Affine.Point.some gx gy hpoint := by
    rw [hmul, Affine.Point.neg_some]
    simp only [hx0, hy0, GroupLaw.negY_eq]
  calc E.order • Affine.Point.some gx gy hpoint
      = (E.order - 1) • Affine.Point.some gx gy hpoint + Affine.Point.some gx gy hpoint := by
        rw [← succ_nsmul, Nat.sub_add_cancel horder]
    _ = 0 := by rw [hneg, neg_add_cancel]

end Jacobian

end Weierstrass

/-! ### The named curves -/

namespace Curve

open Weierstrass

instance (c : Curve) : Fact c.params.p.Prime :=
  ⟨c.prime_p⟩

instance (c : Curve) : Fact c.params.order.Prime :=
  ⟨c.prime_order⟩

instance (c : Curve) : (curve c.params).IsElliptic := by
  have hΔ : (curve c.params).Δ = (1728 : Nat) - (432 * c.params.b ^ 2 : Nat) := by
    push_cast
    simp only [curve, WeierstrassCurve.Δ, WeierstrassCurve.b₂, WeierstrassCurve.b₄,
      WeierstrassCurve.b₆, WeierstrassCurve.b₈]
    ring
  have hne : 1728 % c.params.p ≠ 432 * c.params.b ^ 2 % c.params.p := by
    cases c <;> decide
  refine ⟨IsUnit.mk0 _ ?_⟩
  rw [hΔ, sub_ne_zero, Ne, ZMod.natCast_eq_natCast_iff']
  exact hne

/-- The base point of a curve belongs to its group and has the order that is given. -/
theorem exists_base (c : Curve) :
    ∃ G : (curve c.params).Point,
      coordinates G = some (base c.params) ∧ addOrderOf G = c.params.order := by
  have hon : Contains c.params (base c.params) := by
    cases c <;> decide
  have hmultiple : Jacobian.ReachesNegBase c.params := by
    cases c <;> decide +kernel
  obtain ⟨G, hG⟩ := contains_iff.mp hon
  refine ⟨G, hG, addOrderOf_eq_prime ?_ ?_⟩
  · exact Jacobian.order_nsmul_eq_zero hG c.prime_order.pos hmultiple
  · rintro rfl
    cases hG

/-- A multiple of the base point is a point of the curve, unless the order divides the factor. -/
theorem exists_mul_base (c : Curve) {k : Nat} (hk : ¬ c.params.order ∣ k) :
    ∃ P, mul c.params k (base c.params) = some P ∧ Contains c.params P := by
  obtain ⟨G, hG, horder⟩ := c.exists_base
  have hne : k • G ≠ 0 := fun hzero => hk (horder ▸ addOrderOf_dvd_iff_nsmul_eq_zero.mpr hzero)
  obtain ⟨P, hP⟩ := Option.ne_none_iff_exists'.mp fun hnone =>
    hne (coordinates_eq_none_iff.mp hnone)
  exact ⟨P, (mul_eq_coordinates hG k).trans hP, contains_iff.mpr ⟨_, hP⟩⟩

/-- A multiple of a multiple of the base point is the multiple by the product. -/
theorem mul_mul_base (c : Curve) {d : Nat} {P : Point}
    (hP : mul c.params d (base c.params) = some P) (r : Nat) :
    mul c.params r P = mul c.params (r * d) (base c.params) := by
  obtain ⟨G, hG, -⟩ := c.exists_base
  rw [mul_eq_coordinates hG] at hP ⊢
  rw [mul_eq_coordinates hP, ← mul_nsmul']

end Curve

/-- There is a key for every positive scalar below the order. -/
theorem EcKey.exists_ofScalar? (c : Curve) {d : Nat} (hpos : 0 < d) (hlt : d < c.params.order) :
    ∃ k, EcKey.ofScalar? c d = some k := by
  obtain ⟨P, hP, hon⟩ := c.exists_mul_base (Nat.not_dvd_of_pos_of_lt hpos hlt)
  have hpoint : c.publicPoint? d = some P :=
    Curve.publicPoint?_eq_some_iff.mpr ⟨⟨hpos, hlt⟩, hP, hon⟩
  refine ⟨⟨c, P, some d, hon, ?_⟩, EcKey.ofScalar?_eq_some_iff.mpr ⟨rfl, rfl⟩⟩
  rintro _ ⟨⟩
  exact hpoint

end KeySmith

import KeySmith.Proofs.Curve.Order
import Mathlib.GroupTheory.Perm.Cycle.Type

/-!
# The groups of the named curves

There are at most two points to an abscissa, which the parity of the ordinate tells apart, so a curve
has fewer than three times as many points as the order of its base point tells.  The order divides
the number of points, so there are as many of them or twice as many.  With twice as many there would
be a point of order two, and its abscissa would be a root of the cubic.

That the cubic has no root is computed.  A root would be one of `X ^ p - X`, as every residue is, and
so of the remainder that this polynomial leaves modulo the cubic, and of all powers of the remainder.
But one of these powers is 1.

So the group of a named curve has a prime number of points, and the abscissa of a multiple determines
the abscissa of the point (`Curve.map_x_mul_eq_iff`).
-/

namespace KeySmith

namespace Weierstrass

open WeierstrassCurve

/-! ### Remainders modulo the cubic -/

/-- A polynomial of degree at most two, with the coefficient of each power. -/
structure Remainder where
  (c₀ c₁ c₂ : Nat)
deriving DecidableEq

namespace Remainder

/-- The remainder of the product of two polynomials. -/
def mul (E : Params) (r s : Remainder) : Remainder :=
  let third := r.c₁ * s.c₂ + r.c₂ * s.c₁
  let fourth := r.c₂ * s.c₂
  ⟨Modular.sub E.p (r.c₀ * s.c₀) (E.b * third % E.p),
    Modular.sub E.p (r.c₀ * s.c₁ + r.c₁ * s.c₀ + 3 * third) (E.b * fourth % E.p),
    (r.c₀ * s.c₂ + r.c₁ * s.c₁ + r.c₂ * s.c₀ + 3 * fourth) % E.p⟩

/-- Goes through the `count` lowest bits of the exponent, the highest first: squares, and multiplies
by the polynomial where there is a bit. -/
def powLoop (E : Params) (r : Remainder) (exponent : Nat) : (count : Nat) → Remainder → Remainder
  | 0, acc => acc
  | count + 1, acc =>
    let square := mul E acc acc
    powLoop E r exponent count (if exponent.testBit count then mul E square r else square)

/-- The remainder of a power of a polynomial. -/
def pow (E : Params) (r : Remainder) (exponent : Nat) : Remainder :=
  powLoop E r exponent (exponent.log2 + 1) ⟨1, 0, 0⟩

/-- The remainder of `X ^ p - X`. -/
def frobenius (E : Params) : Remainder :=
  let power := pow E ⟨0, 1, 0⟩ E.p
  ⟨power.c₀, Modular.sub E.p power.c₁ 1, power.c₂⟩

variable {E : Params}

/-- The value of a polynomial. -/
def eval (t : ZMod E.p) (r : Remainder) : ZMod E.p :=
  r.c₀ + r.c₁ * t + r.c₂ * t ^ 2

theorem eval_one (t : ZMod E.p) : eval t ⟨1, 0, 0⟩ = 1 := by
  simp [eval]

variable [Fact E.p.Prime] {t : ZMod E.p}

section Root

variable (ht : t ^ 3 - 3 * t + E.b = 0)

include ht in
/-- At a root of the cubic a remainder has the value of the polynomial. -/
theorem eval_mul (r s : Remainder) : eval t (mul E r s) = eval t r * eval t s := by
  simp only [eval, mul]
  push_cast [Modular.cast_sub (Modular.mod_le _), ZMod.natCast_mod]
  linear_combination -((r.c₁ : ZMod E.p) * s.c₂ + r.c₂ * s.c₁ + r.c₂ * s.c₂ * t) * ht

include ht in
theorem eval_powLoop (r acc : Remainder) (exponent count : Nat) :
    eval t (powLoop E r exponent count acc) =
      eval t acc ^ 2 ^ count * eval t r ^ (exponent % 2 ^ count) := by
  induction count generalizing acc with
  | zero => rw [powLoop, pow_zero, pow_one, Nat.mod_one, pow_zero, mul_one]
  | succ count ih =>
    rw [powLoop, ih, Nat.mod_pow_succ, ← Nat.toNat_testBit]
    cases exponent.testBit count with
    | false =>
      rw [if_neg Bool.false_ne_true, eval_mul ht, ← sq, ← pow_mul, ← pow_succ', Bool.toNat_false,
        mul_zero, add_zero]
    | true =>
      rw [if_pos rfl, eval_mul ht, eval_mul ht, ← sq, mul_pow, ← pow_mul, ← pow_succ',
        Bool.toNat_true, mul_one, pow_add]
      ring

include ht in
theorem eval_pow (r : Remainder) (exponent : Nat) :
    eval t (pow E r exponent) = eval t r ^ exponent := by
  rw [pow, eval_powLoop ht, eval_one, one_pow, one_mul, Nat.mod_eq_of_lt Nat.lt_log2_self]

include ht in
/-- The remainder of `X ^ p - X` vanishes at a root of the cubic. -/
theorem eval_frobenius : eval t (frobenius E) = 0 := by
  have hpower : eval t (pow E ⟨0, 1, 0⟩ E.p) = t := by
    rw [eval_pow ht, eval]
    simp [ZMod.pow_card]
  rw [eval] at hpower
  rw [frobenius, eval]
  push_cast [Modular.cast_sub (Fact.out : E.p.Prime).one_le]
  linear_combination hpower

end Root

/-- Whether a power of the remainder of `X ^ p - X` is 1. -/
def IsRootless (E : Params) : Prop :=
  pow E (frobenius E) (E.p ^ 3 - 1) = ⟨1, 0, 0⟩

instance : Decidable (IsRootless E) :=
  inferInstanceAs (Decidable (_ = _))

/-- The cubic has no root if a power of the remainder of `X ^ p - X` is 1. -/
theorem IsRootless.ne_zero (h : IsRootless E) (t : ZMod E.p) : t ^ 3 - 3 * t + E.b ≠ 0 := by
  intro ht
  have hexponent : E.p ^ 3 - 1 ≠ 0 := by
    have := Nat.one_lt_pow (three_ne_zero) (Fact.out : E.p.Prime).one_lt
    omega
  have hone := congrArg (eval t) h
  rw [eval_pow ht, eval_frobenius ht, zero_pow hexponent, eval_one] at hone
  exact zero_ne_one hone

end Remainder

/-! ### Points and their abscissas -/

section Points

variable {E : Params} [Fact E.p.Prime]

section Abscissa

variable {x y y' : ZMod E.p} (h : (curve E).Nonsingular x y) (h' : (curve E).Nonsingular x y')

theorem some_eq_neg_iff : Affine.Point.some x y h = -.some x y' h' ↔ y = -y' := by
  rw [Affine.Point.neg_some, Affine.Point.some.injEq, GroupLaw.negY_eq]
  exact and_iff_right rfl

/-- Points with the same abscissa are equal or opposite. -/
theorem some_eq_or_eq_neg :
    Affine.Point.some x y h = .some x y' h' ∨ Affine.Point.some x y h = -.some x y' h' := by
  rw [Affine.Point.neg_some, Affine.Point.some.injEq, Affine.Point.some.injEq]
  exact (Affine.Y_eq_of_X_eq h.1 h'.1 rfl).imp (⟨rfl, ·⟩) (⟨rfl, ·⟩)

end Abscissa

/-- Stored points have the same abscissa exactly when they are those of equal or opposite points. -/
theorem map_x_coordinates_eq_iff (Q Q' : (curve E).Point) :
    (coordinates Q).map (·.x) = (coordinates Q').map (·.x) ↔ Q = Q' ∨ Q = -Q' := by
  constructor
  · intro hx
    obtain _ | ⟨x, y, h⟩ := Q <;> obtain _ | ⟨x', y', h'⟩ := Q'
    · exact .inl rfl
    · cases hx
    · cases hx
    · obtain rfl := ZMod.val_injective E.p (Option.some.inj hx)
      exact some_eq_or_eq_neg h h'
  · rintro (rfl | rfl)
    · rfl
    · obtain _ | ⟨x, y, h⟩ := Q'
      · rfl
      · rfl

/-- What tells a point from all others: its abscissa and the parity of its ordinate. -/
def abscissaAndParity : (curve E).Point → Option (ZMod E.p × Bool)
  | .zero => none
  | .some x y _ => some (x, y.val % 2 == 1)

theorem abscissaAndParity_injective (hp : E.p % 2 = 1) :
    Function.Injective (abscissaAndParity (E := E)) := by
  rintro (_ | ⟨x, y, h⟩) (_ | ⟨x', y', h'⟩) heq
  · rfl
  · cases heq
  · cases heq
  obtain ⟨rfl, hparity⟩ := Prod.mk.inj (Option.some.inj heq)
  refine (some_eq_or_eq_neg h h').elim id fun hneg => ?_
  have hy := (some_eq_neg_iff h h').mp hneg
  obtain rfl | hne := eq_or_ne y' 0
  · rw [neg_zero] at hy
    subst hy
    rfl
  · have hval : y.val = E.p - y'.val := by rw [hy, ZMod.neg_val, if_neg hne]
    have hlt := ZMod.val_lt y'
    rw [Bool.eq_iff_iff, beq_iff_eq, beq_iff_eq] at hparity
    omega

/-- There are at most two points to an abscissa, and one more. -/
theorem finite_point (hp : E.p % 2 = 1) : Finite (curve E).Point :=
  .of_injective _ (abscissaAndParity_injective hp)

theorem card_point_le (hp : E.p % 2 = 1) : Nat.card (curve E).Point ≤ 2 * E.p + 1 := by
  calc Nat.card (curve E).Point
      ≤ Nat.card (Option (ZMod E.p × Bool)) :=
        Nat.card_le_card_of_injective _ (abscissaAndParity_injective hp)
    _ = 2 * E.p + 1 := by
        rw [Nat.card_eq_fintype_card, Fintype.card_option, Fintype.card_prod, ZMod.card,
          Fintype.card_bool, mul_comm]

/-- The abscissa of a point that is its own opposite is a root of the cubic. -/
theorem exists_root_of_addOrderOf_eq_two [(curve E).IsElliptic] {Q : (curve E).Point}
    (hQ : addOrderOf Q = 2) : ∃ t : ZMod E.p, t ^ 3 - 3 * t + E.b = 0 := by
  have hdouble : Q + Q = 0 := by
    rw [← two_nsmul, ← hQ, addOrderOf_nsmul_eq_zero]
  obtain _ | ⟨x, y, h⟩ := Q
  · rw [show (Affine.Point.zero : (curve E).Point) = 0 from rfl, addOrderOf_zero] at hQ
    cases hQ
  have hneg := (some_eq_neg_iff h h).mp (eq_neg_of_add_eq_zero_left hdouble)
  have hy : y = 0 :=
    (mul_eq_zero.mp (by linear_combination hneg : (2 : ZMod E.p) * y = 0)).resolve_left two_ne_zero
  have hequation := (GroupLaw.equation_iff x y).mp h.1
  simp only [curve, hy] at hequation
  exact ⟨x, by linear_combination -hequation⟩

end Points

end Weierstrass

/-! ### The named curves -/

namespace Curve

open Weierstrass

/-- The group of a named curve has as many points as the order of its base point tells. -/
theorem card_point (c : Curve) : Nat.card (curve c.params).Point = c.params.order := by
  have hodd : c.params.p % 2 = 1 := by
    cases c <;> decide
  have hrootless : Remainder.IsRootless c.params := by
    cases c <;> decide +kernel
  have hbound : 2 * c.params.p + 1 < 3 * c.params.order := by
    cases c <;> decide
  have := finite_point hodd
  have hle := card_point_le hodd
  obtain ⟨G, -, horder⟩ := c.exists_base
  obtain ⟨k, hk⟩ := horder ▸ addOrderOf_dvd_natCard G
  have hpos : 0 < k := Nat.pos_of_ne_zero fun hzero => by
    rw [hzero, mul_zero] at hk
    exact Nat.card_pos.ne' hk
  have hlt : k < 3 := Nat.lt_of_mul_lt_mul_left (a := c.params.order) (by omega)
  have hne : k ≠ 2 := by
    rintro rfl
    obtain ⟨Q, hQ⟩ := exists_prime_addOrderOf_dvd_card' 2 (hk ▸ Nat.dvd_mul_left 2 _)
    obtain ⟨t, ht⟩ := exists_root_of_addOrderOf_eq_two hQ
    exact hrootless.ne_zero t ht
  obtain rfl : k = 1 := by omega
  rw [hk, mul_one]

/-- No multiple of another point is neutral, unless the order divides the factor. -/
theorem nsmul_injective (c : Curve) {k : Nat} (hk : ¬ c.params.order ∣ k) :
    Function.Injective fun Q : (curve c.params).Point => k • Q := by
  intro Q Q' hQ
  have hzero : k • (Q - Q') = 0 := (nsmul_sub Q Q' k).trans (sub_eq_zero.mpr hQ)
  have hdvd : addOrderOf (Q - Q') ∣ c.params.order := c.card_point ▸ addOrderOf_dvd_natCard _
  obtain hone | horder := (Nat.dvd_prime c.prime_order).mp hdvd
  · exact sub_eq_zero.mp (AddMonoid.addOrderOf_eq_one_iff.mp hone)
  · exact absurd (horder ▸ addOrderOf_dvd_of_nsmul_eq_zero hzero) hk

variable {d : Nat} {P R : Point}

/-- A multiple of a point of the curve is a point of the curve, unless the order divides the
factor. -/
theorem exists_mul (c : Curve) (hd : ¬ c.params.order ∣ d) (hP : Contains c.params P) :
    ∃ S, mul c.params d P = some S := by
  obtain ⟨Q, hQ⟩ := contains_iff.mp hP
  rw [mul_eq_coordinates hQ, ← Option.ne_none_iff_exists', Ne, coordinates_eq_none_iff]
  intro hzero
  have hQ0 : Q = 0 := c.nsmul_injective hd (hzero.trans (nsmul_zero d).symm)
  rw [coordinates_eq_none_iff.mpr hQ0] at hQ
  cases hQ

/-- Multiples of points have the same abscissa exactly when the points have. -/
theorem map_x_mul_eq_iff (c : Curve) (hd : ¬ c.params.order ∣ d) (hP : Contains c.params P)
    (hR : Contains c.params R) :
    (mul c.params d P).map (·.x) = (mul c.params d R).map (·.x) ↔ P.x = R.x := by
  obtain ⟨Q, hQ⟩ := contains_iff.mp hP
  obtain ⟨Q', hQ'⟩ := contains_iff.mp hR
  rw [mul_eq_coordinates hQ, mul_eq_coordinates hQ', map_x_coordinates_eq_iff, ← neg_nsmul,
    (c.nsmul_injective hd).eq_iff, (c.nsmul_injective hd).eq_iff, ← map_x_coordinates_eq_iff, hQ, hQ']
  exact Option.some_inj

end Curve

end KeySmith

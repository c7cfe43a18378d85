import Mathlib.FieldTheory.Finite.Basic
import KeySmith.Proofs.BigEndian
import KeySmith.Proofs.Curve.X25519

/-!
# The group of the Edwards curve

The Edwards curve and the Montgomery curve are two forms of one curve.  A point `(u, v)` of the
second belongs to the point `(r u / v, (u - 1) / (u + 1))` of the first, where `r` is a root of
-486664.  The addition on the Edwards curve is the one of the group, and it has no exceptions since
`d` is not a square.
-/

namespace KeySmith.Edwards25519

open WeierstrassCurve
open X25519 (curve abscissa cast_ne_zero)

/-! ### Squares -/

/-- A square root of -486664. -/
def root : Nat :=
  0x70d9120b9f5ff9442d84f723fc03b0813a5e2c2eb482e57d3391fb5500ba81e7

theorem root_sq : (root : ZMod p) ^ 2 = -486664 := by
  have h := (ZMod.natCast_eq_zero_iff (root ^ 2 + 486664) p).mpr
    (Nat.dvd_of_mod_eq_zero (by decide))
  push_cast at h
  linear_combination h

theorem i_sq : (i : ZMod p) ^ 2 = -1 := by
  have h := (ZMod.natCast_eq_zero_iff (i ^ 2 + 1) p).mpr (Nat.dvd_of_mod_eq_zero (by decide))
  push_cast at h
  linear_combination h

theorem d_mul_root_sq : (d : ZMod p) * root ^ 2 = 486660 := by
  have h := (ZMod.natCast_eq_zero_iff (d * 486664 + 486660) p).mpr
    (Nat.dvd_of_mod_eq_zero (by decide))
  push_cast at h
  linear_combination d * root_sq - h

/-- By Euler's criterion 486660 is not a square. -/
theorem sq_ne (w : ZMod p) : w ^ 2 ≠ 486660 := by
  intro hw
  have hpow : Modular.pow p 486660 (p / 2) = p - 1 := by decide +kernel
  have hcast : (486660 : ZMod p) ^ (p / 2) = -1 := by
    have h := congrArg (Nat.cast (R := ZMod p)) hpow
    rw [Modular.pow_eq, ZMod.natCast_mod, Nat.cast_sub (by decide), ZMod.natCast_self] at h
    push_cast at h
    rw [h, zero_sub]
  have hw0 : w ≠ 0 := by
    rintro rfl
    exact cast_ne_zero (n := 486660) (by decide) (by push_cast; linear_combination -hw)
  have hfermat := ZMod.pow_card_sub_one_eq_one hw0
  have hp : p - 1 = 2 * (p / 2) := by decide
  rw [hp, pow_mul, hw, hcast] at hfermat
  exact X25519.two_ne_zero (by linear_combination -hfermat)

/-- `d` is not a square. -/
theorem sq_ne_d (w : ZMod p) : w ^ 2 ≠ d := by
  intro hw
  exact sq_ne (w * root) (by rw [mul_pow, hw, d_mul_root_sq])

/-! ### The two forms -/

/-- On the Montgomery curve no abscissa is -1. -/
theorem add_one_ne_zero {u v : ZMod p} (h : curve.Nonsingular u v) : u + 1 ≠ 0 := by
  intro hu
  have hcurve := X25519.equation h
  refine sq_ne v ?_
  rw [eq_neg_of_add_eq_zero_left hu] at hcurve
  linear_combination hcurve

/-- On the Montgomery curve only the origin is of order two. -/
theorem eq_zero_of_ordinate {u : ZMod p} (h : curve.Nonsingular u 0) : u = 0 := by
  have hcurve := X25519.equation h
  by_contra hu
  have hquadratic : u ^ 2 + 486662 * u + 1 = 0 :=
    mul_left_cancel₀ hu (by linear_combination -hcurve)
  have hne : (i * root : ZMod p) ≠ 0 := by
    intro hzero
    have hsq : (i * root : ZMod p) ^ 2 = 486664 := by rw [mul_pow, i_sq, root_sq]; ring
    rw [hzero] at hsq
    exact cast_ne_zero (n := 486664) (by decide) (by push_cast; linear_combination -hsq)
  refine sq_ne ((2 * u + 486662) / (i * root)) ?_
  rw [div_pow, div_eq_iff (pow_ne_zero 2 hne), mul_pow, i_sq, root_sq]
  linear_combination 4 * hquadratic

/-- The abscissa of a point on the Edwards curve. -/
def x : curve.Point → ZMod p
  | .zero => 0
  | .some u v _ => root * u / v

/-- The ordinate of a point on the Edwards curve. -/
def y : curve.Point → ZMod p
  | .zero => 1
  | .some u _ _ => (u - 1) / (u + 1)

/-- The equation of the Edwards curve. -/
theorem equation (P : curve.Point) : -x P ^ 2 + y P ^ 2 = 1 + d * x P ^ 2 * y P ^ 2 := by
  obtain _ | ⟨u, v, h⟩ := P
  · simp only [x, y]
    ring
  · have hu := add_one_ne_zero h
    simp only [x, y]
    by_cases hv : v = 0
    · subst hv
      rw [eq_zero_of_ordinate h]
      norm_num
    · have hcurve := X25519.equation h
      field_simp
      linear_combination (-u ^ 2 * (u + 1) ^ 2) * root_sq -
        u ^ 2 * (u - 1) ^ 2 * d_mul_root_sq - 4 * u * hcurve

/-! ### The denominators -/

theorem sq_ne_d_mul_sq {a b : ZMod p} (hb : b ≠ 0) : a ^ 2 ≠ d * b ^ 2 := by
  intro h
  refine sq_ne_d (a / b) ?_
  rw [div_pow, h, mul_div_cancel_right₀ _ (pow_ne_zero 2 hb)]

/-- The product in the denominators of a sum. -/
def cross (P Q : curve.Point) : ZMod p :=
  d * x P * x Q * y P * y Q

/-- No denominator of a sum is zero. -/
theorem cross_sq_ne_one (P Q : curve.Point) : cross P Q ^ 2 ≠ 1 := by
  intro hone
  have hne : cross P Q ≠ 0 := by
    intro hzero
    rw [hzero] at hone
    exact zero_ne_one (by linear_combination hone)
  simp only [cross, mul_ne_zero_iff] at hne
  obtain ⟨⟨⟨⟨-, hx₁⟩, hx₂⟩, hy₁⟩, hy₂⟩ := hne
  have hP := equation P
  have hQ := equation Q
  -- Both signs of the root of -1 give a square that is `d` times a square.
  have hplus : (y P + cross P Q * i * x P) ^ 2 = d * (x P * y P * (y Q + i * x Q)) ^ 2 := by
    rw [cross] at hone ⊢
    linear_combination
      ((d * x P * x Q * y P * y Q) ^ 2 * x P ^ 2 - d * x P ^ 2 * y P ^ 2 * x Q ^ 2) * i_sq -
        d * x P ^ 2 * y P ^ 2 * hQ - (x P ^ 2 + 1) * hone + hP
  have hminus : (y P - cross P Q * i * x P) ^ 2 = d * (x P * y P * (y Q - i * x Q)) ^ 2 := by
    rw [cross] at hone ⊢
    linear_combination
      ((d * x P * x Q * y P * y Q) ^ 2 * x P ^ 2 - d * x P ^ 2 * y P ^ 2 * x Q ^ 2) * i_sq -
        d * x P ^ 2 * y P ^ 2 * hQ - (x P ^ 2 + 1) * hone + hP
  by_cases hzero : y Q + i * x Q = 0
  · have hne : y Q - i * x Q ≠ 0 := by
      intro hzero'
      exact mul_ne_zero X25519.two_ne_zero hy₂ (by linear_combination hzero + hzero')
    exact sq_ne_d_mul_sq (mul_ne_zero (mul_ne_zero hx₁ hy₁) hne) hminus
  · exact sq_ne_d_mul_sq (mul_ne_zero (mul_ne_zero hx₁ hy₁) hzero) hplus

theorem one_add_cross_ne_zero (P Q : curve.Point) : 1 + cross P Q ≠ 0 := by
  intro h
  exact cross_sq_ne_one P Q (by linear_combination (cross P Q - 1) * h)

theorem one_sub_cross_ne_zero (P Q : curve.Point) : 1 - cross P Q ≠ 0 := by
  intro h
  exact cross_sq_ne_one P Q (by linear_combination (-cross P Q - 1) * h)

/-! ### Sums -/

theorem cross_comm (P Q : curve.Point) : cross P Q = cross Q P := by
  rw [cross, cross]
  ring

/-- What the coordinates of a sum have to satisfy. -/
def IsSum (P Q : curve.Point) : Prop :=
  x (P + Q) * (1 + cross P Q) = x P * y Q + y P * x Q ∧
    y (P + Q) * (1 - cross P Q) = y P * y Q + x P * x Q

theorem IsSum.symm {P Q : curve.Point} (h : IsSum P Q) : IsSum Q P := by
  rw [IsSum, add_comm Q P, cross_comm Q P]
  exact ⟨by linear_combination h.1, by linear_combination h.2⟩

theorem isSum_zero (Q : curve.Point) : IsSum 0 Q := by
  have hx : x 0 = 0 := rfl
  have hy : y 0 = 1 := rfl
  rw [IsSum, zero_add, cross, hx, hy]
  exact ⟨by ring, by ring⟩

/-- The origin has order two, and adding it turns a point of the Edwards curve by half a turn. -/
theorem isSum_origin (h₀ : curve.Nonsingular 0 0) {u v : ZMod p} (h : curve.Nonsingular u v) :
    IsSum (.some 0 0 h₀) (.some u v h) := by
  have hx₀ : x (.some 0 0 h₀) = 0 := by simp [x]
  have hy₀ : y (.some 0 0 h₀) = -1 := by simp [y]
  have hcross : cross (.some 0 0 h₀) (.some u v h) = 0 := by
    rw [cross, hx₀]
    ring
  have hu := add_one_ne_zero h
  suffices hturn : x (.some 0 0 h₀ + .some u v h) = -x (.some u v h) ∧
      y (.some 0 0 h₀ + .some u v h) = -y (.some u v h) by
    rw [IsSum, hcross, hx₀, hy₀, hturn.1, hturn.2]
    exact ⟨by ring, by ring⟩
  by_cases hv : v = 0
  · subst hv
    obtain rfl := eq_zero_of_ordinate h
    rw [X25519.add_self_of_ordinate h₀ rfl, hx₀, hy₀]
    exact ⟨by simp [x], by simp [y]⟩
  · have hcurve := X25519.equation h
    have hu₀ : u ≠ 0 := by
      rintro rfl
      exact hv (mul_self_eq_zero.mp (by linear_combination hcurve))
    obtain ⟨l, m, u', v', h', hsum, ⟨hline₀, hline, hline'⟩, -, hroots, -⟩ :=
      GroupLaw.exists_line h₀ h fun hzero => absurd hzero.symm hu₀
    obtain rfl : m = 0 := by linear_combination -hline₀
    simp only [curve] at hroots
    have hinverse : u * u' = 1 := by linear_combination hroots
    have hl : l ≠ 0 := by
      rintro rfl
      exact hv (by linear_combination hline)
    have hv' : v' ≠ 0 := by
      rw [hline', add_zero]
      exact neg_ne_zero.mpr (mul_ne_zero hl (right_ne_zero_of_mul_eq_one hinverse))
    have hu' := add_one_ne_zero h'
    rw [hsum]
    simp only [x, y]
    constructor
    · rw [← neg_div, div_eq_div_iff hv' hv, hline, hline']
      ring
    · rw [← neg_div, div_eq_div_iff hu' hu]
      linear_combination 2 * hinverse

section Line

variable {F : Type} [Field F] {A u₁ v₁ u₂ v₂ u v l m : F} (hline₁ : v₁ = l * u₁ + m)
  (hline₂ : v₂ = l * u₂ + m) (hline : v = -(l * u + m)) (hroots₁ : l ^ 2 = A + u₁ + u₂ + u)
  (hroots₂ : u₁ * u₂ + u₁ * u + u₂ * u + 2 * l * m = 1) (hroots₃ : u₁ * u₂ * u = m ^ 2)

include hline₁ hline₂ hline hroots₁ hroots₂ hroots₃ in
/-- The equation for the abscissa of a sum, in terms of a line on the Montgomery curve. -/
theorem line_abscissa :
    u * (v₁ * v₂ * (u₁ + 1) * (u₂ + 1) + (A - 2) * (u₁ * u₂ * (u₁ - 1) * (u₂ - 1))) =
      v * (u₁ * v₂ * (u₂ - 1) * (u₁ + 1) + u₂ * v₁ * (u₁ - 1) * (u₂ + 1)) := by
  subst hline₁ hline₂ hline
  grind

include hline₁ hline₂ hroots₁ hroots₂ hroots₃ in
/-- The equation for the ordinate of a sum, in terms of a line on the Montgomery curve. -/
theorem line_ordinate :
    (u - 1) * (v₁ * v₂ * (u₁ + 1) * (u₂ + 1) - (A - 2) * (u₁ * u₂ * (u₁ - 1) * (u₂ - 1))) =
      (u + 1) * (v₁ * v₂ * (u₁ - 1) * (u₂ - 1) - (A + 2) * (u₁ * u₂ * (u₁ + 1) * (u₂ + 1))) := by
  subst hline₁ hline₂
  grind

end Line

/-- The sum of two points with a line through both of them that is not vertical. -/
theorem isSum_of_ne {u₁ v₁ u₂ v₂ : ZMod p} (h₁ : curve.Nonsingular u₁ v₁)
    (h₂ : curve.Nonsingular u₂ v₂) (hv₁ : v₁ ≠ 0) (hv₂ : v₂ ≠ 0) (hne : u₁ = u₂ → v₁ = v₂) :
    IsSum (.some u₁ v₁ h₁) (.some u₂ v₂ h₂) := by
  obtain ⟨l, m, u, v, h, hsum, ⟨hline₁, hline₂, hline⟩, hroots₁, hroots₂, hroots₃⟩ :=
    GroupLaw.exists_line h₁ h₂ fun hu => ⟨hne hu, mul_ne_zero X25519.two_ne_zero hv₁⟩
  simp only [curve, sub_zero] at hroots₁ hroots₂ hroots₃
  have hu₁ := add_one_ne_zero h₁
  have hu₂ := add_one_ne_zero h₂
  have hu := add_one_ne_zero h
  have hcross : cross (.some u₁ v₁ h₁) (.some u₂ v₂ h₂) * (v₁ * v₂ * (u₁ + 1) * (u₂ + 1)) =
      486660 * (u₁ * u₂ * (u₁ - 1) * (u₂ - 1)) := by
    simp only [cross, x, y]
    field_simp
    linear_combination (u₁ * u₂ * (u₁ - 1) * (u₂ - 1)) * d_mul_root_sq
  have hden : v₁ * v₂ * (u₁ + 1) * (u₂ + 1) ≠ 0 :=
    mul_ne_zero (mul_ne_zero (mul_ne_zero hv₁ hv₂) hu₁) hu₂
  rw [IsSum, hsum]
  generalize cross (.some u₁ v₁ h₁) (.some u₂ v₂ h₂) = c at hcross ⊢
  simp only [x, y]
  constructor
  · have hright : root * u₁ / v₁ * ((u₂ - 1) / (u₂ + 1)) + (u₁ - 1) / (u₁ + 1) * (root * u₂ / v₂) =
        root * (u₁ * v₂ * (u₂ - 1) * (u₁ + 1) + u₂ * v₁ * (u₁ - 1) * (u₂ + 1)) /
          (v₁ * v₂ * (u₁ + 1) * (u₂ + 1)) := by
      field_simp
    rw [hright, eq_div_iff hden]
    by_cases hv : v = 0
    · subst hv
      obtain rfl : u = 0 := eq_zero_of_ordinate h
      obtain rfl : m = 0 := by linear_combination hline
      rw [mul_zero, zero_div, hline₁, hline₂]
      have hinverse : u₁ * u₂ = 1 := by linear_combination hroots₂
      linear_combination -2 * root * l * u₁ * u₂ * hinverse
    · have hkey := line_abscissa hline₁ hline₂ hline hroots₁ hroots₂ hroots₃
      rw [div_mul_eq_mul_div, div_mul_eq_mul_div, div_eq_iff hv]
      linear_combination root * hkey + root * u * hcross
  · have hright : (u₁ - 1) / (u₁ + 1) * ((u₂ - 1) / (u₂ + 1)) + root * u₁ / v₁ * (root * u₂ / v₂) =
        (v₁ * v₂ * (u₁ - 1) * (u₂ - 1) + root ^ 2 * (u₁ * u₂ * (u₁ + 1) * (u₂ + 1))) /
          (v₁ * v₂ * (u₁ + 1) * (u₂ + 1)) := by
      field_simp
    have hkey := line_ordinate hline₁ hline₂ hroots₁ hroots₂ hroots₃
    rw [hright, eq_div_iff hden, div_mul_eq_mul_div, div_mul_eq_mul_div, div_eq_iff hu, root_sq]
    linear_combination hkey - (u - 1) * hcross

/-- The sum in the group has the coordinates that the addition of the Edwards curve gives. -/
theorem isSum (P Q : curve.Point) : IsSum P Q := by
  obtain _ | ⟨u₁, v₁, h₁⟩ := P
  · exact isSum_zero Q
  obtain _ | ⟨u₂, v₂, h₂⟩ := Q
  · exact (isSum_zero _).symm
  by_cases hv₁ : v₁ = 0
  · subst hv₁
    obtain rfl := eq_zero_of_ordinate h₁
    exact isSum_origin h₁ h₂
  by_cases hv₂ : v₂ = 0
  · subst hv₂
    obtain rfl := eq_zero_of_ordinate h₂
    exact (isSum_origin h₂ h₁).symm
  by_cases hopposite : u₁ = u₂ ∧ v₁ ≠ v₂
  · obtain ⟨rfl, hv⟩ := hopposite
    obtain rfl : v₁ = -v₂ := by
      rw [← GroupLaw.negY_eq (W := curve) u₁]
      exact (Affine.Y_eq_of_X_eq h₁.1 h₂.1 rfl).resolve_left hv
    have hsum := GroupLaw.add_eq_zero h₁ h₂ hv
    have hequation := equation (.some u₁ v₂ h₂)
    have hx : x (.some u₁ (-v₂) h₁) = -x (.some u₁ v₂ h₂) := by simp only [x, div_neg]
    have hy : y (.some u₁ (-v₂) h₁) = y (.some u₁ v₂ h₂) := rfl
    rw [IsSum, hsum, cross, hx, hy]
    simp only [show x 0 = 0 from rfl, show y 0 = 1 from rfl]
    exact ⟨by ring, by linear_combination -hequation⟩
  · exact isSum_of_ne h₁ h₂ hv₁ hv₂ fun hu => not_not.mp fun hne => hopposite ⟨hu, hne⟩

/-! ### Stored coordinates -/

/-- The reduced coordinates of a point on the Edwards curve. -/
def coordinates (P : curve.Point) : Point :=
  ⟨(x P).val, (y P).val⟩

theorem coordinates_zero : coordinates 0 = zero := by
  have hone : (1 : ZMod p).val = 1 := (Modular.eq_val_of_cast (by decide) Nat.cast_one).symm
  rw [coordinates, show x 0 = 0 from rfl, show y 0 = 1 from rfl, ZMod.val_zero, hone, zero]

/-- The sum of coordinates belongs to the sum in the group. -/
theorem add_coordinates (P Q : curve.Point) :
    add (coordinates P) (coordinates Q) = coordinates (P + Q) := by
  have hp : 0 < p := by decide
  obtain ⟨hx, hy⟩ := isSum P Q
  have hplus := one_add_cross_ne_zero P Q
  have hminus := one_sub_cross_ne_zero P Q
  have hcross : x P * x Q * (y P * y Q) * d = cross P Q := by
    rw [cross]
    ring
  simp only [add, coordinates]
  congr 1 <;> refine Modular.eq_val_of_cast (Nat.mod_lt _ hp) ?_ <;>
    push_cast [ZMod.natCast_mod, Modular.cast_inverse, Nat.cast_sub (Modular.mod_le _),
      ZMod.natCast_self, ZMod.natCast_zmod_val] <;>
    rw [hcross, zero_sub, ← sub_eq_add_neg]
  · rw [← hx]
    field_simp
  · rw [← hy]
    field_simp

theorem mulLoop_eq (P Q : Point) (k : Nat) :
    mulLoop P Q k =
      if k = 0 then P else mulLoop (if k % 2 = 1 then add P Q else P) (add Q Q) (k / 2) := by
  rw [mulLoop]

/-- Multiples of coordinates belong to multiples in the group. -/
theorem mul_coordinates (k : Nat) (P : curve.Point) :
    mul k (coordinates P) = coordinates (k • P) := by
  have hloop := GroupLaw.loop_eq mulLoop_eq add_coordinates 0 P k
  rwa [coordinates_zero, zero_add] at hloop

/-- The abscissa on the Montgomery form is the one of the point in the group. -/
theorem toMontgomery_coordinates (P : curve.Point) :
    toMontgomery (coordinates P) = (abscissa P).val := by
  refine Modular.eq_val_of_cast (Nat.mod_lt _ (by decide)) ?_
  have hy : (y P).val ≤ p := (ZMod.val_lt _).le
  simp only [toMontgomery, coordinates]
  push_cast [ZMod.natCast_mod, Modular.cast_inverse, Nat.cast_sub hy, ZMod.natCast_self,
    ZMod.natCast_zmod_val]
  obtain _ | ⟨u, v, h⟩ := P
  · simp only [y, abscissa]
    norm_num
  · have hu := add_one_ne_zero h
    have hden : 1 + (0 - (u - 1) / (u + 1)) = 2 / (u + 1) := by
      field_simp
      ring
    have htwo := X25519.two_ne_zero
    simp only [y, abscissa]
    rw [hden]
    field_simp
    ring

/-- The ordinate of the base point on the Montgomery curve. -/
def baseOrdinate : Nat :=
  0x20ae19a1b8a086b4e01edd2c7748d14c923d4d7e6d7c61b229e9c5a27eced3d9

/-- The base points of both forms belong to each other. -/
theorem exists_base : ∃ B : curve.Point, coordinates B = base ∧ abscissa B = 9 := by
  have hcast : ∀ {a b : Nat}, a % p = b % p → (a : ZMod p) = b :=
    fun h => (ZMod.natCast_eq_natCast_iff' _ _ p).mpr h
  have hcurve : curve.Equation 9 baseOrdinate := by
    have h := hcast (a := baseOrdinate * baseOrdinate) (b := 9 * 9 * 9 + 486662 * 9 * 9 + 9)
      (by decide)
    rw [GroupLaw.equation_iff]
    simp only [curve]
    push_cast at h ⊢
    linear_combination h
  have hpoint := Affine.equation_iff_nonsingular.mp hcurve
  refine ⟨.some 9 baseOrdinate hpoint, ?_, rfl⟩
  have hx : (base.x : ZMod p) = root * 9 / baseOrdinate := by
    rw [eq_div_iff (cast_ne_zero (by decide))]
    exact_mod_cast hcast (a := base.x * baseOrdinate) (b := root * 9) (by decide)
  have hy : (base.y : ZMod p) = (9 - 1) / (9 + 1) := by
    have h := hcast (a := base.y * 10) (b := 8) (by decide)
    rw [eq_div_iff (add_one_ne_zero hpoint)]
    push_cast at h
    linear_combination h
  rw [coordinates, x, y, ← Modular.eq_val_of_cast (by decide) hx,
    ← Modular.eq_val_of_cast (by decide) hy]

end KeySmith.Edwards25519

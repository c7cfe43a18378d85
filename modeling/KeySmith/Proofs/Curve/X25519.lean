import KeySmith.Curve.X25519
import KeySmith.Proofs.Curve.GroupLaw
import KeySmith.Proofs.Curve.Primes

/-!
# Multiplication on the Montgomery curve

The ladder multiplies points of the elliptic curve `v² = u³ + 486662 u² + u` and only keeps their
abscissas.  A fraction with the denominator zero stands for the neutral point.  The abscissa of a
sum is found from the abscissas of the two summands and of their difference, as long as that is not
zero; the formulas have no other exceptions.  A point with the abscissa zero has order two, and its
multiples have the abscissa zero as well.
-/

namespace KeySmith.X25519

open WeierstrassCurve
open Edwards25519 (p prime_p)

instance : Fact p.Prime :=
  ⟨prime_p⟩

/-- The Montgomery curve. -/
def curve : Affine (ZMod p) :=
  ⟨0, 486662, 0, 1, 0⟩

instance : curve.IsCharNeTwoNF :=
  ⟨rfl, rfl⟩

theorem cast_ne_zero {n : Nat} (h : n % p ≠ 0) : (n : ZMod p) ≠ 0 :=
  fun hzero => h (Nat.mod_eq_zero_of_dvd ((ZMod.natCast_eq_zero_iff n p).mp hzero))

theorem two_ne_zero : (2 : ZMod p) ≠ 0 :=
  cast_ne_zero (n := 2) (by decide)

/-- `486662² - 4` is not zero. -/
theorem discriminant_ne_zero : (486662 ^ 2 - 4 : ZMod p) ≠ 0 := by
  have h := cast_ne_zero (n := 486662 ^ 2 - 4) (by decide)
  rwa [Nat.cast_sub (by norm_num), Nat.cast_pow] at h

instance : curve.IsElliptic := by
  have hΔ : curve.Δ = 2 ^ 4 * (486662 ^ 2 - 4) := by
    simp only [curve, Δ, b₂, b₄, b₆, b₈]
    ring
  exact ⟨IsUnit.mk0 _ (hΔ ▸ mul_ne_zero (pow_ne_zero 4 two_ne_zero) discriminant_ne_zero)⟩

/-- A point with the ordinate zero has order two. -/
theorem add_self_of_ordinate {u v : ZMod p} (h : curve.Nonsingular u v) (hv : v = 0) :
    Affine.Point.some u v h + .some u v h = 0 :=
  Affine.Point.add_self_of_Y_eq (by rw [GroupLaw.negY_eq, hv, neg_zero])

theorem equation {u v : ZMod p} (h : curve.Nonsingular u v) :
    v * v = u * u * u + 486662 * u * u + u := by
  have heq := (GroupLaw.equation_iff u v).mp h.1
  simp only [curve] at heq
  linear_combination heq

/-- The abscissa of a point, zero for the neutral point. -/
def abscissa : curve.Point → ZMod p
  | .zero => 0
  | .some u _ _ => u

theorem abscissa_neg (P : curve.Point) : abscissa (-P) = abscissa P := by
  cases P <;> rfl

/-- The abscissa of a point as a fraction: its numerator. -/
def numerator : curve.Point → ZMod p
  | .zero => 1
  | .some u _ _ => u

/-- The abscissa of a point as a fraction: its denominator, zero for the neutral point. -/
def denominator : curve.Point → ZMod p
  | .zero => 0
  | .some _ _ _ => 1

theorem numerator_mul_inv (P : curve.Point) {c : ZMod p} (hc : c ≠ 0) :
    c * numerator P * (c * denominator P)⁻¹ = abscissa P := by
  rcases P with _ | ⟨u, v, h⟩
  · simp only [numerator, denominator, abscissa, mul_zero, inv_zero]
  · simp only [numerator, denominator, abscissa, mul_one]
    rw [mul_comm c u, mul_inv_cancel_right₀ hc]

/-! ### Abscissas of sums -/

/-- The abscissa of a point that is not of order two, taken twice. -/
theorem exists_double {u v : ZMod p} (h : curve.Nonsingular u v) (hv : 2 * v ≠ 0) :
    ∃ u' v', ∃ h' : curve.Nonsingular u' v',
      Affine.Point.some u v h + .some u v h = .some u' v' h' ∧
        u' * (2 * v) ^ 2 = (u ^ 2 - 1) ^ 2 := by
  obtain ⟨l, hl, u', v', h', hsum, rfl, rfl⟩ := GroupLaw.exists_tangent h hv
  refine ⟨_, _, h', hsum, ?_⟩
  simp only [curve] at hl ⊢
  have heq := equation h
  linear_combination (l * (2 * v) + (3 * u ^ 2 + 2 * 486662 * u + 1)) * hl -
    4 * (486662 + 2 * u) * heq

/-- The abscissas of the sum and of the difference of two points. -/
theorem exists_sum_difference {u₁ v₁ u₂ v₂ : ZMod p} (h₁ : curve.Nonsingular u₁ v₁)
    (h₂ : curve.Nonsingular u₂ v₂) (hu : u₁ ≠ u₂) :
    ∃ u v, ∃ h : curve.Nonsingular u v, ∃ u' v', ∃ h' : curve.Nonsingular u' v',
      Affine.Point.some u₁ v₁ h₁ + .some u₂ v₂ h₂ = .some u v h ∧
        Affine.Point.some u₁ v₁ h₁ - .some u₂ v₂ h₂ = .some u' v' h' ∧
        u * u' * (u₁ - u₂) ^ 2 = (u₁ * u₂ - 1) ^ 2 := by
  obtain ⟨l, hl, u, v, h, hsum, rfl, rfl⟩ := GroupLaw.exists_chord h₁ h₂ hu
  have hneg := (Affine.nonsingular_neg u₂ v₂).mpr h₂
  obtain ⟨l', hl', u', v', h', hdifference, rfl, rfl⟩ := GroupLaw.exists_chord h₁ hneg hu
  refine ⟨_, _, h, _, _, h', hsum, ?_, ?_⟩
  · rw [sub_eq_add_neg, Affine.Point.neg_some, hdifference]
  · rw [GroupLaw.negY_eq] at hl'
    simp only [curve]
    have hx : (l ^ 2 - 486662 - u₁ - u₂) * (u₁ - u₂) ^ 2 =
        (v₂ - v₁) ^ 2 - (486662 + u₁ + u₂) * (u₁ - u₂) ^ 2 := by
      linear_combination (l * (u₂ - u₁) + (v₂ - v₁)) * hl
    have hx' : (l' ^ 2 - 486662 - u₁ - u₂) * (u₁ - u₂) ^ 2 =
        (v₂ + v₁) ^ 2 - (486662 + u₁ + u₂) * (u₁ - u₂) ^ 2 := by
      linear_combination (l' * (u₂ - u₁) + (-v₂ - v₁)) * hl'
    refine mul_right_cancel₀ (pow_ne_zero 2 (sub_ne_zero.mpr hu)) ?_
    calc (l ^ 2 - 486662 - u₁ - u₂) * (l' ^ 2 - 486662 - u₁ - u₂) * (u₁ - u₂) ^ 2 * (u₁ - u₂) ^ 2
        = ((l ^ 2 - 486662 - u₁ - u₂) * (u₁ - u₂) ^ 2) *
            ((l' ^ 2 - 486662 - u₁ - u₂) * (u₁ - u₂) ^ 2) := by ring
      _ = (v₂ * v₂ - v₁ * v₁) ^ 2 -
            2 * (486662 + u₁ + u₂) * (u₁ - u₂) ^ 2 * (v₁ * v₁ + v₂ * v₂) +
            ((486662 + u₁ + u₂) * (u₁ - u₂) ^ 2) ^ 2 := by
        rw [hx, hx']
        ring
      _ = (u₁ * u₂ - 1) ^ 2 * (u₁ - u₂) ^ 2 := by
        rw [equation h₁, equation h₂]
        ring

/-- The fraction of a point taken twice, up to a factor. -/
theorem exists_scale_double (P : curve.Point) :
    ∃ c ≠ 0, (numerator P ^ 2 - denominator P ^ 2) ^ 2 = c * numerator (P + P) ∧
      4 * numerator P * denominator P *
          (numerator P ^ 2 + 486662 * numerator P * denominator P + denominator P ^ 2) =
        c * denominator (P + P) := by
  rcases P with _ | ⟨u, v, h⟩
  · have hsum : (Affine.Point.zero : curve.Point) + .zero = .zero := zero_add _
    rw [hsum]
    refine ⟨1, one_ne_zero, ?_, ?_⟩ <;> simp only [numerator, denominator] <;> ring
  · have hcurve := equation h
    simp only [numerator, denominator]
    by_cases hv : v = 0
    · subst hv
      rw [add_self_of_ordinate h rfl]
      refine ⟨(u ^ 2 - 1) ^ 2, pow_ne_zero 2 ?_, ?_, ?_⟩
      · intro hu
        refine discriminant_ne_zero ?_
        linear_combination (486662 - 2 * u) * (-hcurve - (u + 486662) * hu) + 4 * hu
      · change _ = _ * (1 : ZMod p)
        ring
      · change _ = _ * (0 : ZMod p)
        linear_combination -4 * hcurve
    · have hv2 : 2 * v ≠ 0 := mul_ne_zero two_ne_zero hv
      obtain ⟨u', v', h', hsum, hu'⟩ := exists_double h hv2
      rw [hsum]
      refine ⟨(2 * v) ^ 2, pow_ne_zero 2 hv2, ?_, ?_⟩
      · linear_combination -hu'
      · linear_combination -4 * hcurve

/-- Two points with the same abscissa add up to the neutral point, when their difference has an
abscissa other than zero. -/
theorem add_eq_zero_of_abscissa_eq {u v₁ v₂ : ZMod p} (h₁ : curve.Nonsingular u v₁)
    (h₂ : curve.Nonsingular u v₂)
    (hne : abscissa (.some u v₁ h₁ - .some u v₂ h₂) ≠ 0) :
    Affine.Point.some u v₁ h₁ + .some u v₂ h₂ = 0 ∧ u ^ 2 - 1 ≠ 0 := by
  have hv : v₁ ≠ v₂ := by
    rintro rfl
    rw [sub_self] at hne
    exact hne rfl
  have hsum : Affine.Point.some u v₁ h₁ + .some u v₂ h₂ = 0 := GroupLaw.add_eq_zero h₁ h₂ hv
  have hdifference : Affine.Point.some u v₁ h₁ - .some u v₂ h₂ = .some u v₁ h₁ + .some u v₁ h₁ := by
    rw [sub_eq_add_neg, neg_eq_of_add_eq_zero_left hsum]
  rw [hdifference] at hne
  have hv2 : 2 * v₁ ≠ 0 := by
    intro hzero
    rw [add_self_of_ordinate h₁ ((mul_eq_zero.mp hzero).resolve_left two_ne_zero)] at hne
    exact hne rfl
  obtain ⟨u', v', h', hdouble, hu'⟩ := exists_double h₁ hv2
  rw [hdouble] at hne
  refine ⟨hsum, fun hu => ?_⟩
  rw [hu, zero_pow (by decide)] at hu'
  exact mul_ne_zero hne (pow_ne_zero 2 hv2) hu'

/-- The fraction of the sum of two points from the abscissa of their difference, up to a factor. -/
theorem exists_scale_add {P Q : curve.Point} (hne : abscissa (P - Q) ≠ 0) :
    ∃ c ≠ 0, (2 * (numerator P * numerator Q - denominator P * denominator Q)) ^ 2 =
        c * numerator (P + Q) ∧
      abscissa (P - Q) * (2 * (numerator Q * denominator P - numerator P * denominator Q)) ^ 2 =
        c * denominator (P + Q) := by
  have hfour : ∀ {a : ZMod p}, a ≠ 0 → 2 ^ 2 * a ≠ 0 := fun ha =>
    mul_ne_zero (pow_ne_zero 2 two_ne_zero) ha
  rcases P with _ | ⟨u₁, v₁, h₁⟩
  · have hsum : (Affine.Point.zero : curve.Point) + Q = Q := zero_add Q
    have hdifference : (Affine.Point.zero : curve.Point) - Q = -Q := zero_sub Q
    rw [hdifference, abscissa_neg] at hne ⊢
    rw [hsum]
    rcases Q with _ | ⟨u₂, v₂, h₂⟩
    · exact absurd rfl hne
    · refine ⟨2 ^ 2 * u₂, hfour hne, ?_, ?_⟩ <;>
        simp only [numerator, denominator, abscissa] <;> ring
  rcases Q with _ | ⟨u₂, v₂, h₂⟩
  · have hsum : Affine.Point.some u₁ v₁ h₁ + .zero = .some u₁ v₁ h₁ := add_zero _
    have hdifference : Affine.Point.some u₁ v₁ h₁ - .zero = .some u₁ v₁ h₁ := sub_zero _
    rw [hdifference] at hne ⊢
    rw [hsum]
    refine ⟨2 ^ 2 * u₁, hfour hne, ?_, ?_⟩ <;> simp only [numerator, denominator, abscissa] <;> ring
  by_cases hu : u₁ = u₂
  · subst hu
    obtain ⟨hsum, hu⟩ := add_eq_zero_of_abscissa_eq h₁ h₂ hne
    rw [hsum]
    refine ⟨(2 * (u₁ ^ 2 - 1)) ^ 2, pow_ne_zero 2 (mul_ne_zero two_ne_zero hu), ?_, ?_⟩
    · change (2 * (u₁ * u₁ - 1 * 1)) ^ 2 = _ * (1 : ZMod p)
      ring
    · change _ * (2 * (u₁ * 1 - u₁ * 1)) ^ 2 = _ * (0 : ZMod p)
      ring
  · obtain ⟨u, v, h, u', v', h', hsum, hdifference, hprod⟩ := exists_sum_difference h₁ h₂ hu
    rw [hdifference] at hne ⊢
    rw [hsum]
    refine ⟨u' * (2 * (u₂ - u₁)) ^ 2, mul_ne_zero hne (pow_ne_zero 2
      (mul_ne_zero two_ne_zero (sub_ne_zero.mpr (Ne.symm hu)))), ?_, ?_⟩
    · simp only [numerator, denominator]
      linear_combination -4 * hprod
    · simp only [numerator, denominator, abscissa]
      ring

/-! ### The ladder -/

/-- A fraction represents a point when it is its abscissa. -/
def Fraction.Represents (f : Fraction) (P : curve.Point) : Prop :=
  ∃ c ≠ 0, (f.num : ZMod p) = c * numerator P ∧ (f.den : ZMod p) = c * denominator P

theorem cast_step (u : Nat) {f g : Fraction} (hf : f.den ≤ p) (hg : g.den ≤ p) :
    (((step u f g).1.num : ZMod p) = (f.num ^ 2 - f.den ^ 2) ^ 2 ∧
      ((step u f g).1.den : ZMod p) =
        4 * f.num * f.den * (f.num ^ 2 + 486662 * f.num * f.den + f.den ^ 2)) ∧
    ((step u f g).2.num : ZMod p) = (2 * (f.num * g.num - f.den * g.den)) ^ 2 ∧
      ((step u f g).2.den : ZMod p) = u * (2 * (g.num * f.den - f.num * g.den)) ^ 2 := by
  simp only [step]
  push_cast [ZMod.natCast_mod, Modular.cast_sub (Modular.mod_le _), Modular.cast_sub hf,
    Modular.cast_sub hg]
  refine ⟨⟨?_, ?_⟩, ?_, ?_⟩ <;> ring

theorem den_step_le (u : Nat) (f g : Fraction) :
    (step u f g).1.den ≤ p ∧ (step u f g).2.den ≤ p :=
  ⟨Modular.mod_le _, Modular.mod_le _⟩

/-- The first fraction of a step represents the point of the first fraction, taken twice. -/
theorem represents_step_fst (u : Nat) {f g : Fraction} (hf : f.den ≤ p) (hg : g.den ≤ p)
    {P : curve.Point} (hP : f.Represents P) : (step u f g).1.Represents (P + P) := by
  obtain ⟨⟨hnum, hden⟩, -⟩ := cast_step u hf hg
  obtain ⟨c, hc, hfnum, hfden⟩ := hP
  obtain ⟨c', hc', hdouble, hdouble'⟩ := exists_scale_double P
  refine ⟨c ^ 4 * c', mul_ne_zero (pow_ne_zero 4 hc) hc', ?_, ?_⟩
  · rw [hnum, hfnum, hfden]
    linear_combination c ^ 4 * hdouble
  · rw [hden, hfnum, hfden]
    linear_combination c ^ 4 * hdouble'

/-- The second fraction of a step represents the sum of the points of both fractions, when the
abscissa of their difference is given and not zero. -/
theorem represents_step_snd {u : Nat} {f g : Fraction} (hf : f.den ≤ p) (hg : g.den ≤ p)
    {P Q : curve.Point} (hP : f.Represents P) (hQ : g.Represents Q)
    (hu : (u : ZMod p) = abscissa (P - Q)) (hne : abscissa (P - Q) ≠ 0) :
    (step u f g).2.Represents (P + Q) := by
  obtain ⟨-, hnum, hden⟩ := cast_step u hf hg
  obtain ⟨c₁, hc₁, hfnum, hfden⟩ := hP
  obtain ⟨c₂, hc₂, hgnum, hgden⟩ := hQ
  obtain ⟨c, hc, hadd, hadd'⟩ := exists_scale_add hne
  refine ⟨(c₁ * c₂) ^ 2 * c, mul_ne_zero (pow_ne_zero 2 (mul_ne_zero hc₁ hc₂)) hc, ?_, ?_⟩
  · rw [hnum, hfnum, hfden, hgnum, hgden]
    linear_combination (c₁ * c₂) ^ 2 * hadd
  · rw [hden, hu, hfnum, hfden, hgnum, hgden]
    linear_combination (c₁ * c₂) ^ 2 * hadd'

/-- The ladder keeps two neighbouring multiples, and their difference is the point. -/
theorem represents_ladder {u : Nat} {P : curve.Point} (hu : (u : ZMod p) = abscissa P)
    (hne : abscissa P ≠ 0) (scalar count n : Nat) {f g : Fraction} (hf : f.den ≤ p)
    (hg : g.den ≤ p) (hP : f.Represents (n • P)) (hQ : g.Represents ((n + 1) • P)) :
    (ladder u scalar count f g).Represents ((n * 2 ^ count + scalar % 2 ^ count) • P) := by
  induction count generalizing n f g with
  | zero =>
    rw [pow_zero, mul_one, Nat.mod_one, add_zero]
    exact hP
  | succ count ih =>
    have hnext : n * 2 ^ (count + 1) + scalar % 2 ^ (count + 1) =
        (2 * n + (scalar.testBit count).toNat) * 2 ^ count + scalar % 2 ^ count := by
      rw [Nat.mod_pow_succ, ← Nat.toNat_testBit]
      ring
    have hdifference : (n + 1) • P - n • P = P := by
      rw [succ_nsmul']
      exact add_sub_cancel_right P _
    rw [hnext, ladder]
    cases hbit : scalar.testBit count with
    | false =>
      have hopposite : abscissa (n • P - (n + 1) • P) = abscissa P := by
        rw [← neg_sub, abscissa_neg, hdifference]
      have hdouble := represents_step_fst u hf hg hP
      have hsum := represents_step_snd hf hg hP hQ (hu.trans hopposite.symm) (hopposite ▸ hne)
      refine ih (2 * n + 0) (den_step_le u f g).1 (den_step_le u f g).2 ?_ ?_
      · rwa [← add_nsmul, ← two_mul] at hdouble
      · rwa [← add_nsmul, ← add_assoc, ← two_mul] at hsum
    | true =>
      have hdouble := represents_step_fst u hg hf hQ
      have hsum := represents_step_snd hg hf hQ hP (by rwa [hdifference])
        (by rwa [hdifference])
      refine ih (2 * n + 1) (den_step_le u g f).2 (den_step_le u g f).1 ?_ ?_
      · rwa [← add_nsmul, add_right_comm, ← two_mul] at hsum
      · have htwice : n + 1 + (n + 1) = 2 * n + 1 + 1 := by omega
        rwa [← add_nsmul, htwice] at hdouble

/-- From the abscissa zero the ladder does not come to another one. -/
theorem num_mul_den_ladder_zero (scalar count : Nat) {f g : Fraction} (hf : f.den ≤ p)
    (hg : g.den ≤ p) (hP : (f.num * f.den : ZMod p) = 0) (hQ : (g.num * g.den : ZMod p) = 0) :
    ((ladder 0 scalar count f g).num * (ladder 0 scalar count f g).den : ZMod p) = 0 := by
  have hfst : ∀ {f g : Fraction}, f.den ≤ p → g.den ≤ p → (f.num * f.den : ZMod p) = 0 →
      ((step 0 f g).1.num * (step 0 f g).1.den : ZMod p) = 0 := by
    intro f g hf hg hzero
    obtain ⟨⟨-, hden⟩, -⟩ := cast_step 0 hf hg
    rw [hden, mul_assoc 4, hzero]
    ring
  have hsnd : ∀ {f g : Fraction}, f.den ≤ p → g.den ≤ p →
      ((step 0 f g).2.num * (step 0 f g).2.den : ZMod p) = 0 := by
    intro f g hf hg
    obtain ⟨-, -, hden⟩ := cast_step 0 hf hg
    rw [hden, Nat.cast_zero, zero_mul, mul_zero]
  induction count generalizing f g with
  | zero => exact hP
  | succ count ih =>
    rw [ladder]
    split
    · exact ih (den_step_le 0 g f).2 (den_step_le 0 g f).1 (hsnd hg hf) (hfst hg hf hQ)
    · exact ih (den_step_le 0 f g).1 (den_step_le 0 f g).2 (hfst hf hg hP) (hsnd hf hg)

/-- The multiples of a point with the abscissa zero have the abscissa zero. -/
theorem abscissa_nsmul_of_zero {P : curve.Point} (hP : abscissa P = 0) (k : Nat) :
    abscissa (k • P) = 0 := by
  have hdouble : P + P = 0 := by
    rcases P with _ | ⟨u, v, h⟩
    · rfl
    · have hcurve := equation h
      rw [show u = 0 from hP] at hcurve
      exact add_self_of_ordinate h (mul_self_eq_zero.mp (by linear_combination hcurve))
  induction k using Nat.twoStepInduction with
  | zero =>
    rw [zero_nsmul]
    rfl
  | one => rw [one_nsmul, hP]
  | more k ih _ =>
    rw [add_nsmul, two_nsmul, hdouble, add_zero]
    exact ih

/-- Multiplication of abscissas belongs to multiplication in the group. -/
theorem mul_abscissa {scalar : Nat} (hscalar : scalar < 2 ^ 255) (P : curve.Point) :
    mul scalar (abscissa P).val = (abscissa (scalar • P)).val := by
  have hp : 1 ≤ p := by decide
  refine Modular.eq_val_of_cast (Nat.mod_lt _ hp) ?_
  rw [mul, ZMod.natCast_mod, Nat.cast_mul, Modular.cast_inverse]
  by_cases hP : abscissa P = 0
  · rw [abscissa_nsmul_of_zero hP, hP, ZMod.val_zero]
    have hzero := num_mul_den_ladder_zero scalar 255 (f := ⟨1, 0⟩) (g := ⟨0, 1⟩) (Nat.zero_le p)
      hp (by simp) (by simp)
    rcases mul_eq_zero.mp hzero with hnum | hden
    · rw [hnum, zero_mul]
    · rw [hden, inv_zero, mul_zero]
  · have hu : (((abscissa P).val : Nat) : ZMod p) = abscissa P := ZMod.natCast_zmod_val _
    have hone : (⟨1, 0⟩ : Fraction).Represents (0 • P) := by
      rw [zero_nsmul]
      exact ⟨1, one_ne_zero, by simp [numerator], by simp [denominator]⟩
    have hpoint : (⟨(abscissa P).val, 1⟩ : Fraction).Represents ((0 + 1) • P) := by
      rw [zero_add, one_nsmul]
      refine ⟨1, one_ne_zero, ?_, ?_⟩
      · rw [hu, one_mul]
        rcases P with _ | ⟨u, v, h⟩
        · exact absurd rfl hP
        · rfl
      · rw [Nat.cast_one, one_mul]
        rcases P with _ | ⟨u, v, h⟩
        · exact absurd rfl hP
        · rfl
    obtain ⟨c, hc, hnum, hden⟩ :=
      represents_ladder hu hP scalar 255 0 (Nat.zero_le p) hp hone hpoint
    rw [zero_mul, zero_add, Nat.mod_eq_of_lt hscalar] at hnum hden
    rw [hnum, hden, numerator_mul_inv _ hc]

end KeySmith.X25519

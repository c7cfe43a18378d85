import Mathlib.AlgebraicGeometry.EllipticCurve.Affine.Point
import Mathlib.AlgebraicGeometry.EllipticCurve.NormalForms

/-!
# Chords and tangents

The curves here are `y² = x³ + a₂ x² + a₄ x + a₆`.  Mathlib has their group law for all Weierstrass
curves at once; on these the sum of two points is given by the slope of one line.
-/

namespace KeySmith.GroupLaw

open WeierstrassCurve

variable {F : Type} [Field F] [DecidableEq F] {W : Affine F} [W.IsCharNeTwoNF]

omit [DecidableEq F] in
theorem equation_iff (x y : F) :
    W.Equation x y ↔ y * y = x * x * x + W.a₂ * x * x + W.a₄ * x + W.a₆ := by
  rw [Affine.equation_iff, W.a₁_of_isCharNeTwoNF, W.a₃_of_isCharNeTwoNF]
  constructor <;> intro h <;> linear_combination h

omit [DecidableEq F] in
theorem negY_eq (x y : F) : W.negY x y = -y := by
  rw [Affine.negY, W.a₁_of_isCharNeTwoNF, W.a₃_of_isCharNeTwoNF]
  ring

omit [DecidableEq F] in
theorem add_eq (x₁ x₂ y₁ l : F) :
    W.addX x₁ x₂ l = l ^ 2 - W.a₂ - x₁ - x₂ ∧
      W.addY x₁ x₂ y₁ l = l * (x₁ - (l ^ 2 - W.a₂ - x₁ - x₂)) - y₁ := by
  have hx : W.addX x₁ x₂ l = l ^ 2 - W.a₂ - x₁ - x₂ := by
    rw [Affine.addX, W.a₁_of_isCharNeTwoNF]
    ring
  refine ⟨hx, ?_⟩
  rw [Affine.addY, negY_eq, Affine.negAddY, hx]
  ring

/-- Points with different abscissas are added along their chord. -/
theorem exists_chord {x₁ y₁ x₂ y₂ : F} (h₁ : W.Nonsingular x₁ y₁) (h₂ : W.Nonsingular x₂ y₂)
    (hx : x₁ ≠ x₂) :
    ∃ l, l * (x₂ - x₁) = y₂ - y₁ ∧ ∃ x y, ∃ h : W.Nonsingular x y,
      Affine.Point.some x₁ y₁ h₁ + .some x₂ y₂ h₂ = .some x y h ∧
        x = l ^ 2 - W.a₂ - x₁ - x₂ ∧ y = l * (x₁ - x) - y₁ := by
  refine ⟨W.slope x₁ x₂ y₁ y₂, ?_, _, _, _, Affine.Point.add_of_X_ne hx, ?_, ?_⟩
  · rw [Affine.slope_of_X_ne hx, ← neg_sub x₁, ← neg_sub y₁, mul_neg,
      div_mul_cancel₀ _ (sub_ne_zero.mpr hx)]
  · exact (add_eq x₁ x₂ y₁ _).1
  · rw [(add_eq x₁ x₂ y₁ _).1, (add_eq x₁ x₂ y₁ _).2]

/-- A point is added to itself along its tangent, unless the tangent is vertical. -/
theorem exists_tangent {x y : F} (h : W.Nonsingular x y) (hy : 2 * y ≠ 0) :
    ∃ l, l * (2 * y) = 3 * x ^ 2 + 2 * W.a₂ * x + W.a₄ ∧ ∃ x' y', ∃ h' : W.Nonsingular x' y',
      Affine.Point.some x y h + .some x y h = .some x' y' h' ∧
        x' = l ^ 2 - W.a₂ - x - x ∧ y' = l * (x - x') - y := by
  have hne : y ≠ W.negY x y := by
    rw [negY_eq]
    intro hneg
    exact hy (by linear_combination hneg)
  refine ⟨W.slope x x y y, ?_, _, _, _, Affine.Point.add_self_of_Y_ne hne, ?_, ?_⟩
  · rw [Affine.slope_of_Y_ne rfl hne, negY_eq, sub_neg_eq_add, ← two_mul, div_mul_cancel₀ _ hy,
      W.a₁_of_isCharNeTwoNF]
    ring
  · exact (add_eq x x y _).1
  · rw [(add_eq x x y _).1, (add_eq x x y _).2]

omit [W.IsCharNeTwoNF] in
/-- Points with the same abscissa and different ordinates add up to the neutral point. -/
theorem add_eq_zero {x y₁ y₂ : F} (h₁ : W.Nonsingular x y₁) (h₂ : W.Nonsingular x y₂)
    (hy : y₁ ≠ y₂) : Affine.Point.some x y₁ h₁ + .some x y₂ h₂ = 0 :=
  Affine.Point.add_of_Y_eq rfl ((Affine.Y_eq_of_X_eq h₁.1 h₂.1 rfl).resolve_left hy)

/-- The sum of two points lies, reflected, on a line with both of them.  The line is given by its
slope `l` and its ordinate `m` at zero, and the three abscissas are the roots of a cubic. -/
theorem exists_line {x₁ y₁ x₂ y₂ : F} (h₁ : W.Nonsingular x₁ y₁) (h₂ : W.Nonsingular x₂ y₂)
    (hne : x₁ = x₂ → y₁ = y₂ ∧ 2 * y₁ ≠ 0) :
    ∃ l m x y, ∃ h : W.Nonsingular x y,
      Affine.Point.some x₁ y₁ h₁ + .some x₂ y₂ h₂ = .some x y h ∧
        (y₁ = l * x₁ + m ∧ y₂ = l * x₂ + m ∧ y = -(l * x + m)) ∧
        l ^ 2 = W.a₂ + x₁ + x₂ + x ∧ x₁ * x₂ + x₁ * x + x₂ * x + 2 * l * m = W.a₄ ∧
        x₁ * x₂ * x = m ^ 2 - W.a₆ := by
  have heq₁ := (equation_iff x₁ y₁).mp h₁.1
  have heq₂ := (equation_iff x₂ y₂).mp h₂.1
  by_cases hx : x₁ = x₂
  · obtain ⟨rfl, hy⟩ := hne hx
    subst hx
    obtain ⟨l, hl, x, y, h, hsum, hx, hy'⟩ := exists_tangent h₁ hy
    refine ⟨l, y₁ - l * x₁, x, y, h, hsum, ⟨by ring, by ring, ?_⟩, ?_, ?_, ?_⟩
    · linear_combination hy'
    · linear_combination -hx
    · linear_combination hl + 2 * x₁ * hx
    · linear_combination x₁ ^ 2 * hx + x₁ * hl - heq₁
  · obtain ⟨l, hl, x, y, h, hsum, hx', hy'⟩ := exists_chord h₁ h₂ hx
    have hmiddle : x₁ * x₂ + x₁ * x + x₂ * x + 2 * l * (y₁ - l * x₁) = W.a₄ := by
      refine mul_left_cancel₀ (sub_ne_zero.mpr (Ne.symm hx)) ?_
      rw [hx']
      linear_combination (l * (x₂ - x₁) + y₁ + y₂) * hl + heq₂ - heq₁
    refine ⟨l, y₁ - l * x₁, x, y, h, hsum, ⟨by ring, ?_, ?_⟩, ?_, hmiddle, ?_⟩
    · linear_combination -hl
    · linear_combination hy'
    · linear_combination -hx'
    · linear_combination -x₁ ^ 2 * hx' + x₁ * hmiddle - heq₁

/-! ### Multiples -/

/-- Doubling and adding along the bits of a factor gives a multiple, in every form of a group that
adds as the group does. -/
theorem loop_eq {M α : Type} [AddCommMonoid M] {form : M → α} {add : α → α → α}
    {loop : α → α → Nat → α}
    (hloop : ∀ a b k, loop a b k =
      if k = 0 then a else loop (if k % 2 = 1 then add a b else a) (add b b) (k / 2))
    (hadd : ∀ P Q, add (form P) (form Q) = form (P + Q)) (P Q : M) (k : Nat) :
    loop (form P) (form Q) k = form (P + k • Q) := by
  induction k using Nat.strongRecOn generalizing P Q with
  | _ k ih =>
    rw [hloop]
    split
    case isTrue hk => rw [hk, zero_nsmul, add_zero]
    case isFalse hk =>
      have hdouble : (k / 2) • (Q + Q) = (2 * (k / 2)) • Q := by
        rw [← two_nsmul, ← mul_nsmul]
      split
      case isTrue hodd =>
        rw [hadd, hadd, ih (k / 2) (by omega), hdouble, add_assoc, ← succ_nsmul']
        congr 3
        omega
      case isFalse heven =>
        rw [hadd, ih (k / 2) (by omega), hdouble]
        congr 3
        omega

end KeySmith.GroupLaw

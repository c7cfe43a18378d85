import KeySmith.Curve.Weierstrass
import KeySmith.Proofs.Curve.GroupLaw
import KeySmith.Proofs.Modular

/-!
# The group of a Weierstrass curve

Over a prime modulus the numbers below the modulus are the residues, and `Modular.inverse` is the
inverse of the field.  So the formulas for chords and tangents are those of the elliptic curve over
that field, and what is added here are the points of its group.  A point of the group is stored by
its reduced coordinates.
-/

namespace KeySmith.Weierstrass

open WeierstrassCurve

/-- The elliptic curve over the field of residues. -/
def curve (E : Params) : Affine (ZMod E.p) :=
  ⟨0, 0, 0, -3, E.b⟩

variable {E : Params}

instance : (curve E).IsCharNeTwoNF :=
  ⟨rfl, rfl⟩

/-- The reduced coordinates of a point of the group. -/
def coordinates : (curve E).Point → Option Point
  | .zero => none
  | .some x y _ => some ⟨x.val, y.val⟩

theorem coordinates_zero : coordinates (0 : (curve E).Point) = none :=
  rfl

theorem coordinates_eq_none_iff {Q : (curve E).Point} : coordinates Q = none ↔ Q = 0 := by
  cases Q with
  | zero => exact ⟨fun _ => rfl, fun _ => rfl⟩
  | some x y h =>
    constructor
    · intro hnone
      cases hnone
    · intro hzero
      cases hzero

variable [Fact E.p.Prime]

/-! ### Points on the curve -/

theorem cast_cubic (x : Nat) : ((cubic E x : Nat) : ZMod E.p) = x * x * x - 3 * x + E.b := by
  rw [cubic, Modular.cast_sub (Modular.mod_le _), ZMod.natCast_mod]
  push_cast [ZMod.natCast_mod]
  ring

theorem equation_iff (x y : Nat) : y * y % E.p = cubic E x ↔ (curve E).Equation x y := by
  have hlt : cubic E x % E.p = cubic E x := Nat.mod_eq_of_lt (Modular.sub_lt (NeZero.pos E.p))
  rw [← hlt, ← ZMod.natCast_eq_natCast_iff', cast_cubic, Nat.cast_mul, GroupLaw.equation_iff]
  simp only [curve]
  constructor <;> intro h <;> linear_combination h

variable [(curve E).IsElliptic]

/-- A point is reduced and lies on the curve exactly when it holds the coordinates of a point of the
group. -/
theorem contains_iff {P : Point} :
    Contains E P ↔ ∃ Q : (curve E).Point, coordinates Q = some P := by
  constructor
  · rintro ⟨hx, hy, hon⟩
    have hpoint := Affine.equation_iff_nonsingular.mp ((equation_iff _ _).mp hon)
    exact ⟨.some _ _ hpoint, by rw [coordinates, ZMod.val_cast_of_lt hx, ZMod.val_cast_of_lt hy]⟩
  · rintro ⟨_ | ⟨x, y, hpoint⟩, hP⟩
    · cases hP
    · cases hP
      refine ⟨ZMod.val_lt x, ZMod.val_lt y, (equation_iff _ _).mpr ?_⟩
      rw [ZMod.natCast_zmod_val, ZMod.natCast_zmod_val]
      exact hpoint.1

/-- On an elliptic curve of this form 2 is not zero. -/
theorem two_ne_zero : (2 : ZMod E.p) ≠ 0 := by
  intro htwo
  have hΔ : (curve E).Δ = 2 * (864 - 216 * (E.b : ZMod E.p) ^ 2) := by
    simp only [curve, Δ, b₂, b₄, b₆, b₈]
    ring
  exact (curve E).isUnit_Δ.ne_zero (by rw [hΔ, htwo, zero_mul])

/-! ### Sums and multiples -/

omit [(curve E).IsElliptic] in
/-- The third point has the coordinates of the sum along the same slope. -/
theorem reflect_eq (x₁ x₂ y₁ l : ZMod E.p) {slope : Nat} (hslope : (slope : ZMod E.p) = l) :
    reflect E ⟨x₁.val, y₁.val⟩ slope x₂.val =
      ⟨(l ^ 2 - x₁ - x₂).val, (l * (x₁ - (l ^ 2 - x₁ - x₂)) - y₁).val⟩ := by
  have hp : 0 < E.p := NeZero.pos E.p
  have hx : Modular.sub E.p (slope * slope) ((x₁.val + x₂.val) % E.p) = (l ^ 2 - x₁ - x₂).val := by
    refine Modular.eq_val_of_cast (Modular.sub_lt hp) ?_
    rw [Modular.cast_sub (Modular.mod_le _), ZMod.natCast_mod]
    push_cast
    rw [hslope, ZMod.natCast_zmod_val, ZMod.natCast_zmod_val]
    ring
  have hy : Modular.sub E.p (slope * (x₁.val + (E.p - (l ^ 2 - x₁ - x₂).val))) y₁.val =
      (l * (x₁ - (l ^ 2 - x₁ - x₂)) - y₁).val := by
    refine Modular.eq_val_of_cast (Modular.sub_lt hp) ?_
    rw [Modular.cast_sub (ZMod.val_lt y₁).le]
    push_cast [Nat.cast_sub (ZMod.val_lt (l ^ 2 - x₁ - x₂)).le]
    rw [hslope, ZMod.natCast_zmod_val, ZMod.natCast_zmod_val, ZMod.natCast_zmod_val,
      ZMod.natCast_self]
    ring
  rw [reflect, hx, hy]

/-- Along the tangent a point is added to itself. -/
theorem double_coordinates {x y : ZMod E.p} (h : (curve E).Nonsingular x y) :
    double E ⟨x.val, y.val⟩ = coordinates (Affine.Point.some x y h + .some x y h) := by
  rw [double]
  split
  case isTrue hzero =>
    have hneg : y = (curve E).negY x y := by
      rw [GroupLaw.negY_eq, (ZMod.val_eq_zero y).mp hzero, neg_zero]
    rw [Affine.Point.add_self_of_Y_eq hneg, coordinates_zero]
  case isFalse hzero =>
    have hy : 2 * y ≠ 0 := mul_ne_zero two_ne_zero fun h => hzero ((ZMod.val_eq_zero y).mpr h)
    obtain ⟨l, hl, x', y', h', hsum, rfl, rfl⟩ := GroupLaw.exists_tangent h hy
    rw [hsum]
    refine congrArg some ((reflect_eq x x y l ?_).trans ?_)
    · rw [ZMod.natCast_mod, ← mul_left_inj' hy, hl]
      push_cast [Modular.cast_inverse, Nat.cast_sub (NeZero.pos E.p), ZMod.natCast_mod]
      rw [ZMod.natCast_zmod_val, ZMod.natCast_zmod_val, ZMod.natCast_self, inv_mul_cancel_right₀ hy]
      simp only [curve]
      ring
    · simp only [curve, sub_zero]

/-- The sum of coordinates belongs to the sum in the group. -/
theorem add_coordinates (P Q : (curve E).Point) :
    add E (coordinates P) (coordinates Q) = coordinates (P + Q) := by
  obtain _ | ⟨x₁, y₁, h₁⟩ := P
  · exact congrArg coordinates (zero_add Q).symm
  obtain _ | ⟨x₂, y₂, h₂⟩ := Q
  · exact congrArg coordinates (add_zero (Affine.Point.some x₁ y₁ h₁)).symm
  simp only [coordinates, add, (ZMod.val_injective E.p).eq_iff]
  split
  case isTrue hx =>
    subst hx
    split
    case isTrue hy =>
      subst hy
      exact double_coordinates h₁
    case isFalse hy => rw [GroupLaw.add_eq_zero h₁ h₂ hy]
  case isFalse hx =>
    obtain ⟨l, hl, x', y', h', hsum, rfl, rfl⟩ := GroupLaw.exists_chord h₁ h₂ hx
    rw [hsum]
    refine congrArg some ((reflect_eq x₁ x₂ y₁ l ?_).trans ?_)
    · have hrun : x₂ - x₁ ≠ 0 := sub_ne_zero.mpr (Ne.symm hx)
      rw [ZMod.natCast_mod, ← mul_left_inj' hrun, hl]
      push_cast [Modular.cast_inverse, Modular.cast_sub (ZMod.val_lt y₁).le,
        Modular.cast_sub (ZMod.val_lt x₁).le]
      simp only [ZMod.natCast_zmod_val]
      rw [inv_mul_cancel_right₀ hrun]
    · simp only [curve, sub_zero]

omit [Fact E.p.Prime] [(curve E).IsElliptic] in
theorem mulLoop_eq (P Q : Option Point) (k : Nat) :
    mulLoop E P Q k =
      if k = 0 then P
      else mulLoop E (if k % 2 = 1 then add E P Q else P) (add E Q Q) (k / 2) := by
  rw [mulLoop]

/-- Multiples of a stored point belong to multiples in the group. -/
theorem mul_eq_coordinates {P : Point} {Q : (curve E).Point} (h : coordinates Q = some P)
    (k : Nat) : mul E k P = coordinates (k • Q) := by
  have hloop := GroupLaw.loop_eq mulLoop_eq add_coordinates 0 Q k
  rwa [coordinates_zero, h, zero_add] at hloop

end KeySmith.Weierstrass

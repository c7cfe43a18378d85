import KeySmith.Proofs.Curve.Edwards25519

/-!
# Stored points of the Edwards curve

A point is stored by its ordinate and the parity of its abscissa.  The square of the abscissa is a
quotient of two numbers that depend on the ordinate, and the root that is computed for it is right
up to the sign, since the modulus is 5 modulo 8.  So every point is read back.
-/

namespace KeySmith.Edwards25519

open X25519 (curve)

theorem p_eq : p = 2 ^ 255 - 19 := by
  rw [p, twoTo_eq]

/-! ### Roots -/

/-- The square of the first candidate for a root is right up to its sign. -/
theorem candidate_sq {w v : ZMod p} (hv : v ≠ 0) {r : ZMod p}
    (hr : r = w ^ 2 * v * v ^ 3 * (w ^ 2 * v * v ^ 7) ^ ((p - 5) / 8)) :
    r ^ 2 = w ^ 2 ∨ r ^ 2 = -w ^ 2 := by
  have hexponent : 4 * ((p - 5) / 8) + 2 = p / 2 := by decide
  have hpower : r ^ 2 = w ^ 2 * (w * v ^ 4) ^ (p / 2) := by
    rw [hr, ← hexponent]
    generalize (p - 5) / 8 = n
    rw [show w ^ 2 * v * v ^ 7 = (w * v ^ 4) ^ 2 by ring, ← pow_mul, pow_add]
    ring
  by_cases hw : w = 0
  · left
    rw [hpower, hw]
    ring
  · have hne : w * v ^ 4 ≠ 0 := mul_ne_zero hw (pow_ne_zero 4 hv)
    obtain hone | hone := ZMod.pow_div_two_eq_neg_one_or_one p hne
    · left
      rw [hpower, hone, mul_one]
    · right
      rw [hpower, hone, mul_neg_one]

/-- The root of a quotient that is the square of `w` is `w` or its opposite. -/
theorem exists_sqrtRatio? {u v : Nat} {w : ZMod p} (hv : (v : ZMod p) ≠ 0)
    (hu : (u : ZMod p) = w ^ 2 * v) :
    ∃ r, sqrtRatio? u v = some r ∧ r < p ∧ ((r : ZMod p) = w ∨ (r : ZMod p) = -w) := by
  have hp : 0 < p := by decide
  unfold sqrtRatio?
  extract_lets v3 v7 r check
  have hr : (r : ZMod p) = w ^ 2 * v * v ^ 3 * (w ^ 2 * v * v ^ 7) ^ ((p - 5) / 8) := by
    simp only [r, v7, v3, Modular.pow_eq]
    push_cast [ZMod.natCast_mod]
    rw [hu]
    ring
  have hcheck : (check : ZMod p) = v * r ^ 2 := by
    simp only [check]
    push_cast [ZMod.natCast_mod]
    ring
  have hlt : r < p := Nat.mod_lt _ hp
  have hreduced : check % p = check := Nat.mod_mod _ p
  split
  case isTrue hplus =>
    refine ⟨r, rfl, hlt, sq_eq_sq_iff_eq_or_eq_neg.mp (mul_left_cancel₀ hv ?_)⟩
    rw [← hcheck, hplus, ZMod.natCast_mod, hu, mul_comm]
  case isFalse hplus =>
    split
    case isTrue hminus =>
      refine ⟨r * i % p, rfl, Nat.mod_lt _ hp,
        sq_eq_sq_iff_eq_or_eq_neg.mp (mul_left_cancel₀ hv ?_)⟩
      have hopposite : (v : ZMod p) * r ^ 2 = -(w ^ 2 * v) := by
        rw [← hcheck, hminus, ZMod.natCast_mod, Nat.cast_sub (Nat.mod_lt _ hp).le,
          ZMod.natCast_self, ZMod.natCast_mod, hu, zero_sub]
      rw [ZMod.natCast_mod, Nat.cast_mul, mul_pow, i_sq]
      linear_combination -hopposite
    case isFalse hminus =>
      obtain hsq | hsq := candidate_sq hv hr
      · refine absurd ?_ hplus
        rw [← hreduced, ← ZMod.natCast_eq_natCast_iff', hcheck, hsq, hu, mul_comm]
      · refine absurd ?_ hminus
        rw [← hreduced, ← ZMod.natCast_eq_natCast_iff', hcheck, hsq,
          Nat.cast_sub (Nat.mod_lt _ hp).le, ZMod.natCast_self, ZMod.natCast_mod, hu]
        ring

/-! ### Reading -/

/-- The number of a stored point. -/
theorem toNat_compress {Q : Point} (hy : Q.y < p) :
    LittleEndian.toNat (compress Q).bytes = Q.y + 2 ^ 255 * (Q.x % 2) := by
  have hp := p_eq
  rw [compress, twoTo_eq]
  refine LittleEndian.toNat_octets ?_
  have hpow : (256 : Nat) ^ 32 = 2 ^ 255 * 2 := by norm_num
  have hmul : 2 ^ 255 * (Q.x % 2) ≤ 2 ^ 255 * 1 := Nat.mul_le_mul_left _ (by omega)
  omega

/-- The root with the right parity. -/
theorem root_of_parity {w : ZMod p} {r : Nat} (hr : r < p)
    (hroot : (r : ZMod p) = w ∨ (r : ZMod p) = -w) :
    (if r % 2 = w.val % 2 then r else (p - r) % p) = w.val := by
  have hp := p_eq
  obtain hplus | hminus := hroot
  · rw [if_pos (by rw [Modular.eq_val_of_cast hr hplus]), Modular.eq_val_of_cast hr hplus]
  · have hval := Modular.eq_val_of_cast hr hminus
    by_cases hw : w = 0
    · subst hw
      rw [neg_zero] at hval
      rw [if_pos (by rw [hval]), hval]
    · have hlt := ZMod.val_lt w
      have hpos : 0 < w.val := Nat.pos_of_ne_zero fun h => hw ((ZMod.val_eq_zero w).mp h)
      rw [ZMod.neg_val, if_neg hw] at hval
      rw [if_neg (by omega), hval, Nat.sub_sub_self hlt.le, Nat.mod_eq_of_lt hlt]

/-- A point is read back from its stored form. -/
theorem decompress?_compress (P : curve.Point) :
    decompress? (compress (coordinates P)) = some (coordinates P) := by
  have hp := p_eq
  have hY : (y P).val < p := ZMod.val_lt _
  have hequation := equation P
  have hne : (d * y P ^ 2 + 1 : ZMod p) ≠ 0 := by
    intro hzero
    have hy : y P ≠ 0 := by
      intro hy
      rw [hy] at hzero
      exact one_ne_zero (by linear_combination hzero : (1 : ZMod p) = 0)
    exact sq_ne_d_mul_sq hy (by linear_combination i_sq - hzero : (i : ZMod p) ^ 2 = d * y P ^ 2)
  have hden : (((d * ((y P).val * (y P).val % p) + 1) % p : Nat) : ZMod p) = d * y P ^ 2 + 1 := by
    push_cast [ZMod.natCast_mod, ZMod.natCast_zmod_val]
    ring
  obtain ⟨r, hr, hrlt, hroot⟩ := exists_sqrtRatio? (u := (y P).val * (y P).val % p + (p - 1))
    (v := (d * ((y P).val * (y P).val % p) + 1) % p) (w := x P) (hden ▸ hne) (by
      rw [hden]
      push_cast [ZMod.natCast_mod, ZMod.natCast_zmod_val, Nat.cast_sub (by decide : 1 ≤ p)]
      rw [ZMod.natCast_self]
      linear_combination hequation)
  have hread := toNat_compress (Q := coordinates P) hY
  have hordinate : ((y P).val + 2 ^ 255 * ((x P).val % 2)) % 2 ^ 255 % p = (y P).val := by
    rw [Nat.add_mul_mod_self_left, Nat.mod_eq_of_lt (hY.trans (by omega)), Nat.mod_eq_of_lt hY]
  have hbit : ((y P).val + 2 ^ 255 * ((x P).val % 2)) / 2 ^ 255 = (x P).val % 2 := by
    rw [Nat.add_mul_div_left _ _ (by positivity), Nat.div_eq_of_lt (hY.trans (by omega)), zero_add]
  simp only [coordinates] at hread
  simp only [decompress?, coordinates, hread, twoTo_eq, hordinate, hbit, hr, Option.map_some,
    root_of_parity hrlt hroot]

end KeySmith.Edwards25519

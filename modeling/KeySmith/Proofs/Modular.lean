import Mathlib.Algebra.Field.ZMod
import Mathlib.Tactic.LinearCombination
import Mathlib.Tactic.Ring
import KeySmith.Number.Modular

/-!
# Arithmetic modulo a number

Repeated squaring computes powers.  An inverse that is given out is reduced, it is the only reduced
one, and there is one whenever the number has no factor in common with the modulus: Euclid's
algorithm keeps its two numbers as multiples of the one to be inverted, with factors that stay below
the modulus.  So modulo a prime the operations are those of the field of residues.
-/

namespace KeySmith.Modular

variable {m a x y : Nat}

/-- An inverse that is given out is the reduced factor of Euclid's algorithm, and it has been
multiplied back. -/
theorem inverse?_eq_some {m a x : Nat} (h : inverse? m a = some x) :
    a * x % m = 1 % m ∧ ∃ t, x = t % m := by
  rcases hbezout : bezout m (a % m) 0 1 true with ⟨t, negative⟩
  simp only [inverse?, hbezout, Option.ite_none_right_eq_some, Option.some.injEq] at h
  obtain ⟨hmul, rfl⟩ := h
  refine ⟨hmul, ?_⟩
  split
  · exact ⟨m - t, rfl⟩
  · exact ⟨t, rfl⟩

/-- The inverse times the number is 1. -/
theorem mul_of_inverse? (h : inverse? m a = some x) : a * x % m = 1 % m :=
  (inverse?_eq_some h).1

/-- The inverse is reduced. -/
theorem lt_of_inverse? (hm : 0 < m) (h : inverse? m a = some x) : x < m := by
  obtain ⟨-, t, rfl⟩ := inverse?_eq_some h
  exact Nat.mod_lt t hm

/-- There is at most one reduced inverse. -/
theorem inverse_unique (hx : x < m) (hy : y < m) (hax : a * x ≡ 1 [MOD m])
    (hay : a * y ≡ 1 [MOD m]) : x = y := by
  have h : x ≡ y [MOD m] :=
    calc x = x * 1 := (Nat.mul_one x).symm
      _ ≡ x * (a * y) [MOD m] := hay.symm.mul_left x
      _ = a * x * y := by rw [← Nat.mul_assoc, Nat.mul_comm x a]
      _ ≡ 1 * y [MOD m] := hax.mul_right y
      _ = y := Nat.one_mul y
  exact h.eq_of_lt_of_lt hx hy

/-! ### Powers -/

theorem powLoop_eq (m acc base exponent : Nat) :
    powLoop m acc base exponent = acc * base ^ exponent % m := by
  induction exponent using Nat.strongRecOn generalizing acc base with
  | _ k ih =>
    rw [powLoop]
    split
    case isTrue hk => rw [hk, pow_zero, mul_one]
    case isFalse hk =>
      rw [ih (k / 2) (by omega)]
      have hsquare : (base * base % m) ^ (k / 2) ≡ base ^ (2 * (k / 2)) [MOD m] := by
        rw [pow_mul, sq]
        exact (Nat.mod_modEq _ _).pow _
      split
      case isTrue hodd =>
        have hstep : acc * base * base ^ (2 * (k / 2)) = acc * base ^ k := by
          rw [mul_assoc, ← pow_succ']
          congr 2
          omega
        rw [← hstep]
        exact (Nat.mod_modEq _ _).mul hsquare
      case isFalse heven =>
        have hstep : 2 * (k / 2) = k := by omega
        rw [hstep] at hsquare
        exact hsquare.mul_left acc

theorem pow_eq (m base exponent : Nat) : pow m base exponent = base ^ exponent % m := by
  rw [pow, powLoop_eq, one_mul, ← Nat.pow_mod]

/-! ### Euclid's algorithm -/

/-- The sign of a factor. -/
def sign (R : Type) [CommRing R] (negative : Bool) : R :=
  if negative then -1 else 1

theorem sign_not (R : Type) [CommRing R] (negative : Bool) :
    sign R (!negative) = -sign R negative := by
  cases negative <;> simp [sign]

/-- When both numbers are the multiples of `x` that their factors tell, then so is their greatest
common divisor. -/
theorem gcd_eq_bezout {R : Type} [CommRing R] {x : R} {r s t u : Nat} (negative : Bool)
    (hr : (r : R) = sign R negative * t * x) (hs : (s : R) = -sign R negative * u * x) :
    (Nat.gcd r s : R) =
      sign R (bezout r s t u negative).2 * (bezout r s t u negative).1 * x := by
  induction s using Nat.strongRecOn generalizing r t u negative with
  | _ s ih =>
    rw [bezout]
    split
    case isTrue hzero => rw [hzero, Nat.gcd_zero_right, hr]
    case isFalse hzero =>
      have hmod : ((r % s : Nat) : R) = r - (r / s : Nat) * s := by
        have hsum : ((r / s * s + r % s : Nat) : R) = r := congrArg Nat.cast (Nat.div_add_mod' r s)
        push_cast at hsum
        linear_combination hsum
      have hnext : ((r % s : Nat) : R) = -sign R (!negative) * (t + r / s * u : Nat) * x := by
        rw [hmod, hr, hs, sign_not]
        push_cast
        ring
      rw [Nat.gcd_comm, Nat.gcd_rec, Nat.gcd_comm]
      exact ih (r % s) (Nat.mod_lt r (Nat.pos_of_ne_zero hzero)) (!negative)
        (by rw [sign_not, hs]) hnext

/-- The factor stays below the modulus. -/
theorem bezout_fst_le {r s t u : Nat} (negative : Bool) (hrs : s < r) (htu : t ≤ u) :
    (bezout r s t u negative).1 ≤ t * s + u * r := by
  induction s using Nat.strongRecOn generalizing r t u negative with
  | _ s ih =>
    rw [bezout]
    split
    case isTrue hzero =>
      calc t ≤ u := htu
        _ ≤ u * r := Nat.le_mul_of_pos_right u (by omega)
        _ ≤ t * s + u * r := Nat.le_add_left _ _
    case isFalse hzero =>
      have hpos : 0 < s := Nat.pos_of_ne_zero hzero
      have hdiv : 1 * u ≤ r / s * u :=
        Nat.mul_le_mul_right u ((Nat.one_le_div_iff hpos).mpr hrs.le)
      have hsum : u * (r % s) + (t + r / s * u) * s = t * s + u * r := by
        conv_rhs => rw [← Nat.div_add_mod' r s]
        ring
      rw [← hsum]
      exact ih (r % s) (Nat.mod_lt r hpos) (!negative) (Nat.mod_lt r hpos) (by omega)

/-- There is an inverse exactly when the two numbers have no common factor. -/
theorem isSome_inverse?_iff (hm : 0 < m) : (inverse? m a).isSome ↔ Nat.Coprime a m := by
  constructor
  · intro h
    obtain ⟨x, hx⟩ := Option.isSome_iff_exists.mp h
    exact Nat.coprime_of_mul_modEq_one x (mul_of_inverse? hx)
  · intro h
    have hle := bezout_fst_le (t := 0) (u := 1) true (Nat.mod_lt a hm) (by decide)
    have hgcd := gcd_eq_bezout (x := (a : ZMod m)) (r := m) (s := a % m) (t := 0) (u := 1) true
      (by simp) (by simp [sign])
    rcases hbezout : bezout m (a % m) 0 1 true with ⟨t, negative⟩
    rw [hbezout] at hle hgcd
    have hone : Nat.gcd m (a % m) = 1 := by
      rw [Nat.gcd_comm, ← Nat.gcd_rec]
      exact h.symm
    rw [hone] at hgcd
    have hx : (a : ZMod m) * ((if negative then (m - t) % m else t % m : Nat) : ZMod m) = 1 := by
      cases negative
      · simpa [sign, mul_comm] using hgcd.symm
      · have hcast : ((m - t : Nat) : ZMod m) = -t := by
          rw [Nat.cast_sub (by omega), ZMod.natCast_self, zero_sub]
        simpa [sign, hcast, mul_comm] using hgcd.symm
    have hmul : a * (if negative then (m - t) % m else t % m) % m = 1 % m := by
      refine (ZMod.natCast_eq_natCast_iff _ 1 m).mp ?_
      rw [Nat.cast_mul, hx, Nat.cast_one]
    simp only [inverse?, hbezout, if_pos hmul, Option.isSome_some]

/-! ### Residues -/

/-- A reduced number is the reduced form of its residue. -/
theorem eq_val_of_cast {n : Nat} {z : ZMod m} (hn : n < m) (h : (n : ZMod m) = z) : n = z.val := by
  rw [← h, ZMod.val_cast_of_lt hn]

theorem mod_le [NeZero m] (a : Nat) : a % m ≤ m :=
  (Nat.mod_lt a (NeZero.pos m)).le

/-- Differences are reduced. -/
theorem sub_lt {b : Nat} (hm : 0 < m) : sub m a b < m :=
  Nat.mod_lt _ hm

/-- Differences are those of the residues. -/
theorem cast_sub {b : Nat} (h : b ≤ m) : ((sub m a b : Nat) : ZMod m) = a - b := by
  rw [sub, ZMod.natCast_mod, Nat.cast_add, Nat.cast_sub h, ZMod.natCast_self, zero_sub,
    sub_eq_add_neg]

/-- Inverses modulo a prime are those of the field of residues, also that of zero. -/
theorem cast_inverse {p : Nat} [Fact p.Prime] (a : Nat) :
    ((inverse p a : Nat) : ZMod p) = (a : ZMod p)⁻¹ := by
  have hp : p.Prime := Fact.out
  rw [inverse]
  cases hx : inverse? p a with
  | none =>
    have hdvd : p ∣ a := by
      by_contra hnot
      have hsome := (isSome_inverse?_iff hp.pos).mpr
        ((Nat.Prime.coprime_iff_not_dvd hp).mpr hnot).symm
      rw [hx] at hsome
      cases hsome
    rw [Option.getD_none, (ZMod.natCast_eq_zero_iff a p).mpr hdvd, Nat.cast_zero, inv_zero]
  | some x =>
    have hmul : (a : ZMod p) * x = 1 := by
      have hmod := (ZMod.natCast_eq_natCast_iff (a * x) 1 p).mpr (mul_of_inverse? hx)
      push_cast at hmod
      exact hmod
    exact (DivisionMonoid.inv_eq_of_mul _ _ hmul).symm

end KeySmith.Modular

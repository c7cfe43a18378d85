import KeySmith.Proofs.Curve.Order
import KeySmith.Proofs.Key

/-!
# Octet forms of points

Besides the form with both coordinates a point has shorter ones, with its abscissa only and an octet
that tells which of the two opposite ordinates is meant.  The moduli are 3 modulo 4, so the power of
a square that is computed for the ordinate is one of its roots, and the other one is its opposite.
So exactly the forms of points are read, and each is read as its point.
-/

namespace KeySmith.Weierstrass

/-- The octet forms of a point. -/
inductive OctetForm (E : Params) (P : Point) : Bytes → Prop
  /-- Both coordinates. -/
  | full : OctetForm E P (uncompressed E P)
  /-- The abscissa of a point with an even ordinate. -/
  | even (h : P.y % 2 = 0) : OctetForm E P (2 :: BigEndian.fixed E.size P.x)
  /-- The abscissa of a point with an odd ordinate, or with the ordinate zero, which is its own
  opposite. -/
  | odd (h : P.y % 2 = 1 ∨ P.y = 0) : OctetForm E P (3 :: BigEndian.fixed E.size P.x)
  /-- The abscissa of a point whose ordinate is the smaller one. -/
  | smaller (h : P.y ≤ E.p - P.y) : OctetForm E P (5 :: BigEndian.fixed E.size P.x)

variable {E : Params} {P : Point}

/-! ### Roots -/

section Roots

variable [Fact E.p.Prime]

/-- The number that is taken for the ordinate of a point is the ordinate or its opposite. -/
theorem root_of_contains (hp : E.p % 4 = 3) (hP : Contains E P) :
    Modular.pow E.p (cubic E P.x) ((E.p + 1) / 4) = P.y ∨
      Modular.pow E.p (cubic E P.x) ((E.p + 1) / 4) = (E.p - P.y) % E.p := by
  obtain ⟨-, hy, hon⟩ := hP
  have hpos : 0 < E.p := by omega
  have hcubic : ((cubic E P.x : Nat) : ZMod E.p) = (P.y : ZMod E.p) ^ 2 := by
    rw [← hon, ZMod.natCast_mod, Nat.cast_mul, sq]
  have hexponent : 2 * ((E.p + 1) / 4) * 2 = E.p + 1 := by omega
  have hsq : ((P.y : ZMod E.p) ^ (2 * ((E.p + 1) / 4))) ^ 2 = (P.y : ZMod E.p) ^ 2 := by
    rw [← pow_mul, hexponent, pow_succ, ZMod.pow_card, sq]
  rw [Modular.pow_eq]
  refine (sq_eq_sq_iff_eq_or_eq_neg.mp hsq).imp (fun hplus => ?_) (fun hminus => ?_)
  · rw [← Nat.mod_eq_of_lt hy, ← Nat.ModEq, ← ZMod.natCast_eq_natCast_iff, Nat.cast_pow, hcubic,
      ← pow_mul, hplus]
  · rw [← Nat.ModEq, ← ZMod.natCast_eq_natCast_iff, Nat.cast_pow, hcubic, ← pow_mul, hminus,
      Nat.cast_sub hy.le, ZMod.natCast_self, zero_sub]

/-- The opposite of an ordinate that is not zero has the other parity. -/
theorem opposite_mod_two {y p : Nat} (hp : p % 4 = 3) (hpos : 0 < y) (hy : y < p) :
    (p - y) % p = p - y ∧ (p - y) % 2 = 1 - y % 2 := by
  have hlt : p - y < p := by omega
  exact ⟨Nat.mod_eq_of_lt hlt, by omega⟩

/-- From the abscissa of a point and a parity the point is found, or its opposite if the ordinate has
the other parity. -/
theorem lift?_eq (hp : E.p % 4 = 3) (hP : Contains E P) (odd : Bool) :
    lift? E P.x odd =
      some ⟨P.x, if (P.y % 2 == 1) == odd then P.y else (E.p - P.y) % E.p⟩ := by
  have hroot := root_of_contains hp hP
  obtain ⟨-, hy, hon⟩ := hP
  have hcast : (((E.p - P.y) % E.p : Nat) : ZMod E.p) = -(P.y : ZMod E.p) := by
    rw [ZMod.natCast_mod, Nat.cast_sub hy.le, ZMod.natCast_self, zero_sub]
  have hsquare : (E.p - P.y) % E.p * ((E.p - P.y) % E.p) % E.p = cubic E P.x := by
    rw [← hon, ← Nat.ModEq, ← ZMod.natCast_eq_natCast_iff, Nat.cast_mul, Nat.cast_mul, hcast,
      neg_mul_neg]
  simp only [lift?]
  obtain hplus | hminus := hroot
  · rw [hplus, if_pos hon]
  · rw [hminus, if_pos hsquare]
    obtain hzero | hpos := Nat.eq_zero_or_pos P.y
    · rw [hzero, Nat.sub_zero, Nat.mod_self, Nat.sub_zero, Nat.mod_self]
    · obtain ⟨hreduced, hparity⟩ := opposite_mod_two hp hpos hy
      rw [hreduced, hparity, Nat.sub_sub_self hy.le, Nat.mod_eq_of_lt hy]
      obtain heven | hodd := Nat.mod_two_eq_zero_or_one P.y
      · cases odd <;> simp [heven]
      · cases odd <;> simp [hodd]

/-- The form with the abscissa and the parity of the ordinate is read as the point. -/
theorem lift?_eq_some_iff (hp : E.p % 4 = 3) (hP : Contains E P) (odd : Bool) :
    lift? E P.x odd = some P ↔ P.y % 2 = odd.toNat ∨ odd = true ∧ P.y = 0 := by
  have hy := hP.2.1
  rw [lift?_eq hp hP, Option.some.injEq]
  obtain ⟨x, y⟩ := P
  simp only [Point.mk.injEq, true_and] at hy ⊢
  obtain rfl | hpos := Nat.eq_zero_or_pos y
  · cases odd <;> simp
  · obtain ⟨hreduced, hparity⟩ := opposite_mod_two hp hpos hy
    have hne : E.p - y ≠ y := by omega
    rw [hreduced]
    obtain heven | hodd := Nat.mod_two_eq_zero_or_one y
    · cases odd <;> simp [heven, hne, hpos.ne']
    · cases odd <;> simp [hodd, hne]

/-- The form with the abscissa only is read as the point whose ordinate is the smaller one. -/
theorem liftSmaller?_eq_some_iff (hp : E.p % 4 = 3) (hP : Contains E P) :
    liftSmaller? E P.x = some P ↔ P.y ≤ E.p - P.y := by
  have hy := hP.2.1
  rw [liftSmaller?, lift?_eq hp hP, Option.map_some, Option.some.injEq]
  obtain ⟨x, y⟩ := P
  simp only [Point.mk.injEq, true_and] at hy ⊢
  obtain rfl | hpos := Nat.eq_zero_or_pos y
  · simp
  · obtain ⟨hreduced, -⟩ := opposite_mod_two hp hpos hy
    rw [hreduced]
    split
    · rw [hreduced]
      omega
    · rw [Nat.sub_sub_self hy.le, Nat.mod_eq_of_lt hy]
      omega

end Roots

/-! ### Reading -/

/-- The abscissa of a point that is found from it is the one it was found from. -/
theorem x_of_lift? {x : Nat} {odd : Bool} (h : lift? E x odd = some P) : P.x = x := by
  unfold lift? at h
  extract_lets square root y at h
  obtain ⟨-, hP⟩ := Option.ite_none_right_eq_some.mp h
  cases hP
  rfl

theorem x_of_liftSmaller? {x : Nat} (h : liftSmaller? E x = some P) : P.x = x := by
  obtain ⟨Q, hQ, rfl⟩ := Option.map_eq_some_iff.mp h
  exact (x_of_lift? hQ).symm ▸ rfl

/-- The octets of an abscissa are those of the reduced number that they stand for. -/
theorem eq_fixed_of_toNat {len n : Nat} {bs : Bytes} (hlen : bs.length = len)
    (hn : BigEndian.toNat bs = n) : bs = BigEndian.fixed len n := by
  rw [← hlen, ← hn, BigEndian.fixed_toNat]

/-- An abscissa behind an octet other than 4 is read as the octet says. -/
theorem ofBytes?_cons_fixed (hP : Contains E P) (hsize : E.p ≤ 256 ^ E.size) {tag : UInt8}
    (htag : tag ≠ 4) :
    ofBytes? E (tag :: BigEndian.fixed E.size P.x) =
      (if tag = 2 ∨ tag = 3 then lift? E P.x (tag == 3)
        else if tag = 5 then liftSmaller? E P.x else none).filter fun Q =>
          decide (Contains E Q) := by
  simp only [ofBytes?, BigEndian.length_fixed, BigEndian.toNat_fixed (hP.1.trans_le hsize), htag,
    false_and, if_false, hP.1, and_self, and_true]

section Prime

variable [Fact E.p.Prime] {form : Bytes}

/-- What is read as a point is one of its forms. -/
theorem octetForm_of_ofBytes? (hp : E.p % 4 = 3) (h : ofBytes? E form = some P) :
    OctetForm E P form := by
  have hP := contains_of_ofBytes? E h
  cases form with
  | nil => cases h
  | cons tag body =>
    by_cases hfull : tag = 4
    · rw [eq_uncompressed_of_head? h (congrArg some hfull)]
      exact .full
    simp only [ofBytes?, hfull, false_and, if_false] at h
    rcases Option.filter_eq_some_iff.mp h with ⟨hread, -⟩
    split at hread
    · rename_i hparity
      rcases hparity with ⟨htag, hlen, -⟩
      have hx := x_of_lift? hread
      rw [← hx, lift?_eq_some_iff hp hP] at hread
      rw [eq_fixed_of_toNat hlen hx.symm]
      rcases htag with rfl | rfl
      · exact .even (by simpa using hread)
      · exact .odd (by simpa using hread)
    · split at hread
      · rename_i hsmaller
        rcases hsmaller with ⟨rfl, hlen, -⟩
        have hx := x_of_liftSmaller? hread
        rw [← hx, liftSmaller?_eq_some_iff hp hP] at hread
        rw [eq_fixed_of_toNat hlen hx.symm]
        exact .smaller hread
      · cases hread

/-- The forms of a point on the curve are read as the point. -/
theorem ofBytes?_of_octetForm (hp : E.p % 4 = 3) (hsize : E.p ≤ 256 ^ E.size) (hP : Contains E P)
    (hform : OctetForm E P form) : ofBytes? E form = some P := by
  have hfound {P? : Option Point} (h : P? = some P) :
      (P?.filter fun Q => decide (Contains E Q)) = some P :=
    Option.filter_eq_some_iff.mpr ⟨h, decide_eq_true hP⟩
  cases hform with
  | full => exact ofBytes?_uncompressed hsize hP
  | even h =>
    rw [ofBytes?_cons_fixed hP hsize (by decide)]
    exact hfound ((lift?_eq_some_iff hp hP false).mpr (.inl h))
  | odd h =>
    rw [ofBytes?_cons_fixed hP hsize (by decide)]
    exact hfound ((lift?_eq_some_iff hp hP true).mpr (h.imp_right fun hzero => ⟨rfl, hzero⟩))
  | smaller h =>
    rw [ofBytes?_cons_fixed hP hsize (by decide)]
    exact hfound ((liftSmaller?_eq_some_iff hp hP).mpr h)

/-- Over a prime modulus that is 3 modulo 4 octets are read as a point exactly when the point lies on
the curve and they are one of its forms. -/
theorem ofBytes?_eq_some_iff (hp : E.p % 4 = 3) (hsize : E.p ≤ 256 ^ E.size) :
    ofBytes? E form = some P ↔ Contains E P ∧ OctetForm E P form := by
  constructor
  · intro h
    exact ⟨contains_of_ofBytes? E h, octetForm_of_ofBytes? hp h⟩
  · rintro ⟨hP, hform⟩
    exact ofBytes?_of_octetForm hp hsize hP hform

end Prime

end KeySmith.Weierstrass

namespace KeySmith.Curve

open Weierstrass

/-- The moduli of the curves are 3 modulo 4. -/
theorem p_mod_four (c : Curve) : c.params.p % 4 = 3 := by
  cases c <;> decide

/-- On a named curve exactly the forms of points are read, each as its point. -/
theorem ofBytes?_eq_some_iff (c : Curve) {P : Point} {form : Bytes} :
    ofBytes? c.params form = some P ↔ Contains c.params P ∧ OctetForm c.params P form :=
  Weierstrass.ofBytes?_eq_some_iff c.p_mod_four c.p_lt.le

/-- On a named curve nothing is read from octets exactly when they are not the form of a point. -/
theorem ofBytes?_eq_none_iff (c : Curve) {form : Bytes} :
    ofBytes? c.params form = none ↔ ∀ P, Contains c.params P → ¬ OctetForm c.params P form := by
  rw [Option.eq_none_iff_forall_ne_some]
  exact forall_congr' fun P => by rw [Ne, c.ofBytes?_eq_some_iff, not_and]

end KeySmith.Curve

import KeySmith.Jwk
import KeySmith.Proofs.Key

/-!
# Keys of JSON Web Keys

A form gives an RSA key when its numbers are those of the key, and a curve key when its coordinates
are those of the point and its scalar, if there is one, is the one of the point.
-/

namespace KeySmith.Jwk

variable {j : Jwk}

/-- A member gives a number in any number of octets. -/
theorem memberNumber_eq_ok_iff {name : String} {value : Option String} {n : Nat} :
    memberNumber name value = .ok n ↔
      ∃ bs, memberOctets name value = .ok bs ∧ BigEndian.toNat bs = n := by
  simp only [memberNumber, bind_eq_ok_iff, pure_eq_ok_iff]

/-- The RSA key of a form has the numbers of the form.  Without a private exponent it is a public
key of a limited size. -/
theorem rsaKey_eq_ok_iff {k : RsaKey} :
    rsaKey j = .ok k ↔
      memberNumber "n" j.n = .ok k.n ∧ memberNumber "e" j.e = .ok k.e ∧
        if j.isPrivate then
          ∃ d p q, memberNumber "d" j.d = .ok d ∧ memberNumber "p" j.p = .ok p ∧
            memberNumber "q" j.q = .ok q ∧ k.secret = some ⟨d, [p, q]⟩
        else k.bits ≤ RsaKey.sizeLimit ∧ k.secret = none := by
  simp only [rsaKey, bind_eq_ok_iff]
  constructor
  · rintro ⟨n, hn, e, he, h⟩
    by_cases hprivate : j.isPrivate = true
    · simp only [hprivate, Bool.not_true, Bool.false_eq_true, if_false, bind_eq_ok_iff,
        RsaKey.ofSecret_eq_ok_iff] at h
      obtain ⟨d, hd, p, hp, q, hq, rfl, rfl, hsecret⟩ := h
      rw [if_pos hprivate]
      exact ⟨hn, he, d, p, q, hd, hp, hq, hsecret⟩
    · rw [if_pos (by simpa using hprivate), Result.of_eq_ok_iff, RsaKey.ofPublic_eq_ok_iff] at h
      obtain ⟨hsize, rfl, rfl, hsecret⟩ := h
      rw [if_neg hprivate]
      exact ⟨hn, he, hsize, hsecret⟩
  · rintro ⟨hn, he, h⟩
    refine ⟨k.n, hn, k.e, he, ?_⟩
    by_cases hprivate : j.isPrivate = true
    · rw [if_pos hprivate] at h
      simp only [hprivate, Bool.not_true, Bool.false_eq_true, if_false, bind_eq_ok_iff,
        RsaKey.ofSecret_eq_ok_iff]
      obtain ⟨d, p, q, hd, hp, hq, hsecret⟩ := h
      exact ⟨d, hd, p, hp, q, hq, trivial, trivial, hsecret⟩
    · rw [if_neg hprivate] at h
      rw [if_pos (by simpa using hprivate), Result.of_eq_ok_iff, RsaKey.ofPublic_eq_ok_iff]
      exact ⟨h.1, rfl, rfl, h.2⟩

/-- The scalar of a form has the octets of a coordinate. -/
theorem scalar?_eq_ok_iff {c : Curve} {scalar : Option Bytes} :
    scalar? j c = .ok scalar ↔
      (scalar = none ∧ j.d = none) ∨
        ∃ bs, scalar = some bs ∧ memberOctets "d" j.d = .ok bs ∧ bs.length = c.size := by
  unfold scalar?
  cases hd : j.d with
  | none =>
    have hmissing : ∀ bs, memberOctets "d" none ≠ .ok bs := nofun
    simp [hmissing, eq_comm]
  | some s =>
    simp only [bind_eq_ok_iff, reduceCtorEq, and_false, false_or]
    constructor
    · rintro ⟨bs, hbs, h⟩
      split at h
      · cases h
      · rename_i hlen
        cases h
        exact ⟨bs, rfl, hbs, not_not.mp hlen⟩
    · rintro ⟨bs, rfl, hbs, hlen⟩
      exact ⟨bs, hbs, if_neg (not_not.mpr hlen)⟩

/-- Coordinates in full width form a point when they are its coordinates. -/
theorem ofBytes?_coordinates_iff {E : Weierstrass.Params} (hp : E.p ≤ 256 ^ E.size)
    {x y : Bytes} {P : Weierstrass.Point} (hx : x.length = E.size) (hy : y.length = E.size) :
    Weierstrass.ofBytes? E (4 :: (x ++ y)) = some P ↔
      x = BigEndian.fixed E.size P.x ∧ y = BigEndian.fixed E.size P.y ∧
        Weierstrass.Contains E P := by
  constructor
  · intro h
    have hform := Weierstrass.eq_uncompressed_of_head? h rfl
    rw [Weierstrass.uncompressed, List.cons.injEq] at hform
    obtain ⟨hX, hY⟩ := List.append_inj hform.2 (by simp [hx])
    exact ⟨hX, hY, Weierstrass.contains_of_ofBytes? E h⟩
  · rintro ⟨rfl, rfl, hP⟩
    exact Weierstrass.ofBytes?_uncompressed hp hP

/-- The curve key of a form has the coordinates of the form in full width, and its scalar too. -/
theorem ecKey_eq_ok_iff {k : EcKey} :
    ecKey j = .ok k ↔
      (∃ name, j.crv = some name ∧ Curve.ofSpelling? name = some k.curve) ∧
        memberOctets "x" j.x = .ok (BigEndian.fixed k.curve.size k.point.x) ∧
        memberOctets "y" j.y = .ok (BigEndian.fixed k.curve.size k.point.y) ∧
        match k.scalar with
        | none => j.d = none
        | some d => memberOctets "d" j.d = .ok (BigEndian.fixed k.curve.size d) := by
  simp only [ecKey, required, bind_eq_ok_iff, Result.ofOption_eq_ok_iff, guard_eq_ok_iff, not_or,
    not_not, scalar?_eq_ok_iff]
  constructor
  · rintro ⟨name, hname, c, hc, x, hx, y, hy, ⟨hxlen, hylen⟩, scalar, hscalar, h⟩
    rcases hscalar with ⟨rfl, hd⟩ | ⟨bs, rfl, hbs, hlen⟩
    · obtain ⟨rfl, hnone, hform⟩ :=
        EcKey.ofPoint?_eq_some_iff.mp (EcKey.ofParts_none_eq_ok_iff.mp h)
      obtain ⟨rfl, rfl, -⟩ := (ofBytes?_coordinates_iff k.curve.p_lt.le hxlen hylen).mp hform
      rw [hnone]
      exact ⟨⟨name, hname, hc⟩, hx, hy, hd⟩
    · obtain ⟨hform, hpair⟩ := EcKey.ofParts_some_eq_ok_iff.mp h
      obtain ⟨-, rfl, hd⟩ := EcKey.ofScalarBytes?_eq_some_iff.mp hpair
      obtain ⟨rfl, rfl, -⟩ := (ofBytes?_coordinates_iff k.curve.p_lt.le hxlen hylen).mp hform
      have hfixed : BigEndian.fixed k.curve.size (BigEndian.toNat bs) = bs :=
        hlen ▸ BigEndian.fixed_toNat bs
      rw [hd]
      simp only [hfixed]
      exact ⟨⟨name, hname, hc⟩, hx, hy, hbs⟩
  · rintro ⟨⟨name, hname, hc⟩, hx, hy, hd⟩
    have hform := (ofBytes?_coordinates_iff k.curve.p_lt.le (BigEndian.length_fixed _ k.point.x)
      (BigEndian.length_fixed _ k.point.y)).mpr ⟨rfl, rfl, k.onCurve⟩
    refine ⟨name, hname, k.curve, hc, _, hx, _, hy, ⟨?_, ?_⟩, ?_⟩
    · exact BigEndian.length_fixed _ _
    · exact BigEndian.length_fixed _ _
    cases hscalar : k.scalar with
    | none =>
      rw [hscalar] at hd
      refine ⟨none, Or.inl ⟨rfl, hd⟩, EcKey.ofParts_none_eq_ok_iff.mpr ?_⟩
      exact EcKey.ofPoint?_eq_some_iff.mpr ⟨rfl, hscalar, hform⟩
    | some d =>
      rw [hscalar] at hd
      refine ⟨some (BigEndian.fixed k.curve.size d),
        Or.inr ⟨_, rfl, hd, BigEndian.length_fixed _ _⟩, ?_⟩
      refine EcKey.ofParts_some_eq_ok_iff.mpr ⟨hform, ?_⟩
      exact EcKey.ofScalarBytes?_of_scalarBytes? (by rw [EcKey.scalarBytes?, hscalar]; rfl)

/-- The types of keys have different names. -/
theorem curveType_ne_rsaType : curveType ≠ rsaType := by
  decide

/-- The key of a form is of the type that the form names. -/
theorem toKey_eq_ok_iff {k : Key} :
    toKey j = .ok k ↔
      match k with
      | .rsa r => j.kty = rsaType ∧ rsaKey j = .ok r
      | .ecdsa r => j.kty = curveType ∧ ecKey j = .ok r
      | .ed25519 _ => False := by
  have hcurve := curveType_ne_rsaType
  unfold toKey
  by_cases hr : j.kty = rsaType
  · rw [if_pos hr]
    simp only [bind_eq_ok_iff, pure_eq_ok_iff, hr]
    cases k <;> simp [hcurve.symm]
  rw [if_neg hr]
  by_cases hc : j.kty = curveType
  · rw [if_pos hc]
    simp only [bind_eq_ok_iff, pure_eq_ok_iff, hc]
    cases k <;> simp [hcurve]
  rw [if_neg hc]
  have herror : ∀ e e' : Error,
      (if j.kty = octetType then throw e else throw e' : Result Key) ≠ .ok k := by
    intro e e'
    split <;> exact throw_ne_ok
  refine iff_of_false (herror _ _) ?_
  cases k <;> simp [hr, hc]

end KeySmith.Jwk

import KeySmith.Proofs.Curve.Order
import KeySmith.Proofs.Der.Pkcs8

/-!
# Key bodies on their own and inside of descriptions

A body can be a document of its own, or it can stand in the description of a key, which puts an
algorithm in front of it.  An RSA body means the same in both places.

A body of a key on a curve names its curve, and so does the description, but nothing holds the two
names against each other: inside of a description only the outer name counts.  What is left to tell
the curves apart is the body itself.  A point has a length that it has on one curve only, so with a
point the body is refused under another curve.  Without one, the scalar is taken for a scalar of any
curve that it fits, and the key is the one of this scalar on the outer curve.

A description is longer than its body, and the bound on lengths may lie between the two.
-/

namespace KeySmith

/-! ### Scalars that fit several curves -/

/-- Whether octets can be the scalar of a key on a curve: there are as many as in a coordinate, or
not many fewer, and their number is positive and below the order. -/
def Curve.TakesScalar (c : Curve) (bs : Bytes) : Prop :=
  (bs.length = c.size ∨ (EcKey.shortestScalar ≤ bs.length ∧ bs.length < c.size)) ∧
    0 < BigEndian.toNat bs ∧ BigEndian.toNat bs < c.params.order

instance (c : Curve) (bs : Bytes) : Decidable (c.TakesScalar bs) :=
  inferInstanceAs (Decidable (_ ∧ _))

/-- Octets give a key on a curve exactly when they can be a scalar of it. -/
theorem EcKey.exists_ofScalarBytes?_iff {c : Curve} {bs : Bytes} :
    (∃ k, EcKey.ofScalarBytes? c bs = some k) ↔ c.TakesScalar bs := by
  constructor
  · rintro ⟨k, hk⟩
    obtain ⟨hlength, rfl, hscalar⟩ := EcKey.ofScalarBytes?_eq_some_iff.mp hk
    exact ⟨hlength, k.scalar_lt hscalar⟩
  · rintro ⟨hlength, hpos, hlt⟩
    obtain ⟨k, hk⟩ := EcKey.exists_ofScalar? c hpos hlt
    exact ⟨k, EcKey.ofScalarBytes?_eq_some_iff.mpr
      ⟨hlength, EcKey.ofScalar?_eq_some_iff.mp hk⟩⟩

namespace Der

/-! ### Forms of points -/

namespace Sec1

/-- A form of the point of a key has one coordinate or both. -/
theorem length_of_isFormOf {form : Bytes} {k : EcKey} (h : isFormOf form k = true) :
    form.length = 1 + 2 * k.curve.size ∨ form.length = 1 + k.curve.size := by
  simp only [isFormOf, Bool.or_eq_true, beq_iff_eq] at h
  obtain rfl | rfl := h
  · exact Or.inl k.length_pointBytes
  · refine Or.inr ?_
    rw [Weierstrass.compressed, List.length_cons, BigEndian.length_fixed, Nat.add_comm]
    rfl

/-- No octets are forms of points of two curves. -/
theorem curve_eq_of_isFormOf {form : Bytes} {k k' : EcKey} (h : isFormOf form k = true)
    (h' : isFormOf form k' = true) : k.curve = k'.curve := by
  have hlength := length_of_isFormOf h
  have hlength' := length_of_isFormOf h'
  have hsize : Curve.p256.size = 32 ∧ Curve.p384.size = 48 ∧ Curve.p521.size = 66 := by decide
  cases hc : k.curve <;> cases hc' : k'.curve <;> first
    | rfl
    | rw [hc] at hlength
      rw [hc'] at hlength'
      omega

/-! ### Bodies under another curve -/

/-- Whether a body can be read under a curve other than the one that it names: it gives no point, and
its scalar can be one of this curve too. -/
def Body.AlsoFits (body : Body) (c : Curve) : Prop :=
  body.point = none ∧ c.TakesScalar body.scalar

instance (body : Body) (c : Curve) : Decidable (body.AlsoFits c) :=
  inferInstanceAs (Decidable (_ ∧ _))

variable {body : Body} {c : Curve} {k : EcKey}

/-- A key of a body has its scalar. -/
theorem scalar_of_key? (h : body.key? c = some k) :
    k.curve = c ∧ k.scalar = some (BigEndian.toNat body.scalar) :=
  (EcKey.ofScalarBytes?_eq_some_iff.mp (key?_eq_some_iff.mp h).1).2

/-- A body of a key on one curve gives a key on another curve exactly when it fits this too. -/
theorem exists_key?_iff (h : body.key? k.curve = some k) (hc : c ≠ k.curve) :
    (∃ k', body.key? c = some k') ↔ body.AlsoFits c := by
  constructor
  · rintro ⟨k', hk'⟩
    obtain ⟨rfl, -⟩ := scalar_of_key? hk'
    obtain ⟨hscalar, hform⟩ := key?_eq_some_iff.mp hk'
    refine ⟨Option.eq_none_iff_forall_ne_some.mpr fun form hpoint => ?_,
      EcKey.exists_ofScalarBytes?_iff.mp ⟨k', hscalar⟩⟩
    exact hc (curve_eq_of_isFormOf (hform form hpoint) ((key?_eq_some_iff.mp h).2 form hpoint))
  · rintro ⟨hpoint, hscalar⟩
    obtain ⟨k', hk'⟩ := EcKey.exists_ofScalarBytes?_iff.mpr hscalar
    exact ⟨k', key?_eq_some_iff.mpr ⟨hk', by simp [hpoint]⟩⟩

end Sec1

/-! ### Descriptions around a body -/

namespace Pkcs8

/-- The description of a private key that puts an algorithm in front of a body. -/
def wrap (a : AlgorithmId) (body : Bytes) : Bytes :=
  PrivateInfo.encode ⟨a, body, none⟩

variable {a : AlgorithmId} {b : Bytes} {k : Key}

/-- A description is a sequence of the version, the algorithm and the body. -/
theorem wrap_eq (a : AlgorithmId) (b : Bytes) :
    wrap a b = element sequenceTag (naturalBytes 0 ++ (a.encode ++ (octetStringBytes b ++ []))) :=
  encode_eq _

/-- A description takes at most 64 octets more than the body in it. -/
theorem length_wrap_le (ha : a.encode.length ≤ 32) {bound : Nat} (hbound : bound + 64 < lengthLimit)
    (hb : b.length ≤ bound) : (wrap a b).length ≤ bound + 64 :=
  @length_encode_le ⟨a, b, none⟩ ha bound hbound hb

/-- A description takes more octets than the version, the algorithm and the body. -/
theorem length_add_le_length_wrap (a : AlgorithmId) (b : Bytes) :
    b.length + a.encode.length + 5 ≤ (wrap a b).length := by
  have hversion : (naturalBytes 0).length = 3 := by decide
  have hstring : b.length < (octetStringBytes b).length := length_lt_length_element octetStringTag b
  have hinfo := length_lt_length_element sequenceTag
    (naturalBytes 0 ++ (a.encode ++ (octetStringBytes b ++ [])))
  simp only [List.length_append, List.length_nil] at hinfo
  rw [wrap_eq]
  omega

/-- A description around a body is read by the algorithm in front of it, if it is not too long. -/
theorem decode_wrap_eq_ok_iff (ha : a.IsValid) :
    decode (wrap a b) = .ok k ↔
      (wrap a b).length < lengthLimit ∧
        match k with
        | .rsa r => a.oid = rsaEncryption ∧ rsaKey ⟨a, b, none⟩ = .ok r
        | .ecdsa r => a.oid = ecPublicKey ∧ ecKey ⟨a, b, none⟩ = .ok r
        | .ed25519 r => a.oid = ed25519 ∧ ed25519Key ⟨a, b, none⟩ = .ok r := by
  rw [decode_eq_ok_iff]
  constructor
  · rintro ⟨info, hinfo, hk⟩
    have hread := hinfo
    rw [PrivateInfo.decode, Result.ofOption_eq_ok_iff, readDocument?_eq_some_iff] at hread
    rw [wrap, decode_encode_info ha hread.1] at hinfo
    cases hinfo
    exact ⟨hread.1, hk⟩
  · rintro ⟨hlimit, hk⟩
    exact ⟨_, decode_encode_info ha hlimit, hk⟩

/-- Around an RSA body, the description is read as the key of the body. -/
theorem decode_wrap_rsa_iff :
    decode (wrap .rsa b) = .ok k ↔
      (wrap .rsa b).length < lengthLimit ∧ ∃ r, k = .rsa r ∧ Pkcs1.decodePrivate b = .ok r := by
  obtain ⟨hec, hed, -⟩ := Spki.algorithms_ne
  have hbody : ∀ r, rsaKey ⟨.rsa, b, none⟩ = .ok r ↔ Pkcs1.decodePrivate b = .ok r := by
    intro r
    rw [rsaKey_eq_ok_iff, Pkcs1.decodePrivate, Pkcs1.parsePrivate_eq_ok_iff,
      Pkcs1.parsePrivate_eq_ok_iff]
    exact and_iff_right AlgorithmId.rsaFault?_rsa
  have hoid : AlgorithmId.rsa.oid = rsaEncryption := rfl
  rw [decode_wrap_eq_ok_iff AlgorithmId.isValid_rsa, hoid]
  cases k <;> simp [hbody, hec.symm, hed.symm]

/-- Around a body of a key on a curve, the description is read as the key of the body on the curve
that the description names. -/
theorem decode_wrap_ec_iff {c : Curve} :
    decode (wrap (.ec c) b) = .ok k ↔
      (wrap (.ec c) b).length < lengthLimit ∧
        ∃ body r, readDocument? Sec1.readBody b = some body ∧ body.key? c = some r ∧
          k = .ecdsa r := by
  obtain ⟨hec, -, hed⟩ := Spki.algorithms_ne
  have hbody : ∀ r, ecKey ⟨.ec c, b, none⟩ = .ok r ↔
      ∃ body, readDocument? Sec1.readBody b = some body ∧ body.key? c = some r := by
    intro r
    rw [ecKey_eq_ok_iff]
    simp only [AlgorithmId.curve_ec, Except.ok.injEq, exists_and_left, exists_eq_left']
  have hoid : (AlgorithmId.ec c).oid = ecPublicKey := rfl
  rw [decode_wrap_eq_ok_iff (AlgorithmId.isValid_ec c), hoid]
  cases k <;> simp [hbody, hec, hed.symm]

end Pkcs8

/-- Around a public RSA body, the description is read as the key of the body.  A modulus that is not
too large leaves room for the description. -/
theorem Spki.decode_infoBytes_rsa_iff {b : Bytes} {k : Key} :
    Spki.decode (Spki.infoBytes .rsa b) = .ok k ↔
      ∃ r, k = .rsa r ∧ Pkcs1.decodePublic b = .ok r := by
  obtain ⟨hec, hed, -⟩ := Spki.algorithms_ne
  have hbody : ∀ r, Spki.rsaKey ⟨.rsa, ⟨0, b⟩⟩ = .ok r ↔ Pkcs1.decodePublic b = .ok r := by
    intro r
    rw [Spki.rsaKey_eq_ok_iff, Pkcs1.decodePublic, Pkcs1.parsePublic_eq_ok_iff]
    simp [AlgorithmId.rsaFault?_rsa, BitString.whole?, Pkcs1.parsePublic_eq_ok_iff]
  rw [Spki.decode_eq_ok_iff]
  constructor
  · rintro ⟨info, hinfo, hk⟩
    have hlimit := (readDocument?_eq_some_iff.mp hinfo).1
    rw [Spki.readDocument?_infoBytes AlgorithmId.isValid_rsa hlimit] at hinfo
    cases hinfo
    cases k with
    | rsa r => exact ⟨r, rfl, (hbody r).mp hk.2⟩
    | ecdsa r => exact absurd hk.1.symm hec
    | ed25519 r => exact absurd hk.1.symm hed
  · rintro ⟨r, rfl, hr⟩
    have hlimit : (Spki.infoBytes .rsa b).length < lengthLimit := by
      obtain ⟨-, rfl, hsize, -⟩ := Pkcs1.parsePublic_eq_ok_iff.mp hr
      refine Spki.length_publicBytes_lt (k := .rsa r) ?_
      rintro _ ⟨⟩
      exact hsize.trans (by decide)
    exact ⟨_, Spki.readDocument?_infoBytes AlgorithmId.isValid_rsa hlimit, rfl, (hbody r).mpr hr⟩

/-! ### The result -/

open Pkcs8 (wrap)

/-- Every body is read alike on its own and inside of a description.  A private RSA body is read as a
key in a description exactly when it is on its own and the description is not too long, a public one
exactly when it is on its own.  A body of a key on a curve is read as this key under its curve.  Under
another curve it is refused, unless it fits this too, and then it is read as the key of its scalar
on this curve. -/
theorem decode_wrapped (b : Bytes) :
    (∀ k, Pkcs8.decode (wrap .rsa b) = .ok k ↔
      (wrap .rsa b).length < lengthLimit ∧ ∃ r, k = .rsa r ∧ Pkcs1.decodePrivate b = .ok r) ∧
    (∀ k, Spki.decode (Spki.infoBytes .rsa b) = .ok k ↔
      ∃ r, k = .rsa r ∧ Pkcs1.decodePublic b = .ok r) ∧
    ∀ r, Sec1.decode b = .ok r → ∃ body, readDocument? Sec1.readBody b = some body ∧
      (∀ k, Pkcs8.decode (wrap (.ec r.curve) b) = .ok k ↔
        (wrap (.ec r.curve) b).length < lengthLimit ∧ k = .ecdsa r) ∧
      ∀ c, c ≠ r.curve →
        ((∃ k, Pkcs8.decode (wrap (.ec c) b) = .ok k) ↔
          (wrap (.ec c) b).length < lengthLimit ∧ body.AlsoFits c) ∧
        ∀ k, Pkcs8.decode (wrap (.ec c) b) = .ok k →
          ∃ r', k = .ecdsa r' ∧ r'.curve = c ∧ r'.scalar = r.scalar := by
  refine ⟨fun k => Pkcs8.decode_wrap_rsa_iff, fun k => Spki.decode_infoBytes_rsa_iff,
    fun r hr => ?_⟩
  obtain ⟨body, -, hread, -, -, hkey⟩ := Sec1.decode_eq_ok_iff.mp hr
  -- The octets have one body, so the description is read by it.
  have hwrap : ∀ c k, Pkcs8.decode (wrap (.ec c) b) = .ok k ↔
      (wrap (.ec c) b).length < lengthLimit ∧ ∃ r', body.key? c = some r' ∧ k = .ecdsa r' := by
    intro c k
    rw [Pkcs8.decode_wrap_ec_iff, hread]
    simp only [Option.some.injEq, exists_and_left, exists_eq_left']
  refine ⟨body, hread, fun k => ?_, fun c hc => ⟨?_, fun k hk => ?_⟩⟩
  · rw [hwrap, hkey]
    simp only [Option.some.injEq, exists_eq_left']
  · rw [← Sec1.exists_key?_iff hkey hc]
    simp only [hwrap]
    constructor
    · rintro ⟨k, hlimit, r', hr', -⟩
      exact ⟨hlimit, r', hr'⟩
    · rintro ⟨hlimit, r', hr'⟩
      exact ⟨.ecdsa r', hlimit, r', hr', rfl⟩
  · obtain ⟨-, r', hr', rfl⟩ := (hwrap c k).mp hk
    obtain ⟨hcurve, hscalar⟩ := Sec1.scalar_of_key? hr'
    exact ⟨r', rfl, hcurve, hscalar.trans (Sec1.scalar_of_key? hkey).2.symm⟩

/-! ### The body of the scalar one -/

namespace Sec1

/-- The body of the scalar one on a curve.  It names the curve and gives no point. -/
def unitBody (c : Curve) : Body :=
  ⟨BigEndian.fixed c.size 1, some c.objectId, none⟩

/-- The scalar one of a curve can be a scalar of the curves that are at least as large. -/
theorem takesScalar_unitBody_iff {c c' : Curve} :
    c'.TakesScalar (unitBody c).scalar ↔ c.size ≤ c'.size := by
  have hlt : 1 < 256 ^ c.size := Nat.one_lt_pow (by cases c <;> decide) (by decide)
  rw [Curve.TakesScalar, unitBody, BigEndian.length_fixed, BigEndian.toNat_fixed hlt]
  cases c <;> cases c' <;> decide

/-- The body of the scalar one is not too long, on its own and inside of a description. -/
theorem length_unitBody (c c' : Curve) :
    (unitBody c).encode.length < lengthLimit ∧
      (wrap (.ec c') (unitBody c).encode).length < lengthLimit := by
  have hbody : ∀ c, (unitBody c).encode.length ≤ 128 := by
    intro c
    cases c <;> cbv
  have hwrap := Pkcs8.length_wrap_le (Spki.length_encode_le.2.1 c') (by decide) (hbody c)
  rw [lengthLimit_eq]
  have := hbody c
  omega

/-- The body of the scalar one is read back. -/
theorem readDocument?_unitBody (c : Curve) :
    readDocument? readBody (unitBody c).encode = some (unitBody c) := by
  have hlimit := (length_unitBody c c).1
  refine readDocument?_eq_some_iff.mpr ⟨hlimit, readBody_encode ?_ hlimit⟩
  rintro _ ⟨⟩
  exact isSome_arcs?_objectId c

/-- Octets with the body of the scalar one are read as the key of this scalar. -/
theorem exists_decode_unitBody {bs : Bytes} {c : Curve}
    (h : readDocument? readBody bs = some (unitBody c)) : ∃ r, decode bs = .ok r ∧ r.curve = c := by
  have htakes : c.TakesScalar (unitBody c).scalar := takesScalar_unitBody_iff.mpr (le_refl c.size)
  obtain ⟨r, hr⟩ := EcKey.exists_ofScalarBytes?_iff.mpr htakes
  have hkey : (unitBody c).key? c = some r := key?_eq_some_iff.mpr ⟨hr, by simp [unitBody]⟩
  obtain ⟨rfl, -⟩ := scalar_of_key? hkey
  exact ⟨r, decode_eq_ok_iff.mpr ⟨_, _, h, rfl, AlgorithmId.ofObjectId?_objectId _, hkey⟩, rfl⟩

end Sec1

/-- The body of the scalar one on P-384 is read as its key under this curve, is refused under P-256,
for which the scalar has too many octets, and is read as another key under P-521. -/
theorem decode_wrapped_unit :
    ∃ r, Sec1.decode (Sec1.unitBody .p384).encode = .ok r ∧
      Pkcs8.decode (wrap (.ec .p384) (Sec1.unitBody .p384).encode) = .ok (.ecdsa r) ∧
      (¬ ∃ k, Pkcs8.decode (wrap (.ec .p256) (Sec1.unitBody .p384).encode) = .ok k) ∧
      ∃ r', Pkcs8.decode (wrap (.ec .p521) (Sec1.unitBody .p384).encode) = .ok (.ecdsa r') ∧
        r'.curve = .p521 ∧ r'.scalar = r.scalar := by
  obtain ⟨r, hr, hcurve⟩ := Sec1.exists_decode_unitBody (Sec1.readDocument?_unitBody .p384)
  have hlimit := fun c => (Sec1.length_unitBody .p384 c).2
  obtain ⟨body, hbody, hown, hother⟩ := (decode_wrapped (Sec1.unitBody .p384).encode).2.2 r hr
  obtain rfl := Option.some.inj ((Sec1.readDocument?_unitBody .p384).symm.trans hbody)
  rw [hcurve] at hown hother
  obtain ⟨k, hk⟩ := (hother .p521 (by decide)).1.mpr
    ⟨hlimit .p521, rfl, Sec1.takesScalar_unitBody_iff.mpr (by decide)⟩
  obtain ⟨r', rfl, hr'⟩ := (hother .p521 (by decide)).2 k hk
  refine ⟨r, hr, (hown _).mpr ⟨hlimit .p384, rfl⟩, fun hsome => ?_, r', hk, hr'⟩
  obtain ⟨-, -, htakes⟩ := (hother .p256 (by decide)).1.mp hsome
  exact absurd (Sec1.takesScalar_unitBody_iff.mp htakes) (by decide)

/-! ### Bodies that are almost too long -/

namespace Pkcs1

/-- A private body of the key with the modulus 15.  One of the numbers that are not looked at is a
power of 256. -/
def paddedBody (zeros : Nat) : PrivateBody :=
  ⟨15, 3, 3, 3, 5, 0, 0, 256 ^ zeros, false⟩

/-- The length of the parts is known up to the octets around the large number. -/
theorem length_parts_paddedBody (zeros : Nat) (h : zeros + 2 < lengthLimit) :
    zeros + 25 ≤ (paddedBody zeros).parts.flatten.length ∧
      (paddedBody zeros).parts.flatten.length ≤ zeros + 32 := by
  have hsize : BigEndian.size (256 ^ zeros) = zeros + 1 :=
    BigEndian.size_eq_succ le_rfl (Nat.pow_lt_pow_right (by decide) (Nat.lt_succ_self zeros))
  have hlow := size_le_length_naturalBytes (256 ^ zeros)
  have hhigh : (naturalBytes (256 ^ zeros)).length ≤ zeros + 1 + 7 := by
    refine length_naturalBytes_le (by omega) ?_
    rw [BigEndian.minimal, BigEndian.length_fixed, hsize]
    omega
  have hsmall : (naturalBytes 0).length = 3 ∧ (naturalBytes 3).length = 3 ∧
      (naturalBytes 5).length = 3 ∧ (naturalBytes 15).length = 3 := by decide
  obtain ⟨h0, h3, h5, h15⟩ := hsmall
  simp only [PrivateBody.parts, paddedBody, List.flatten_cons, List.flatten_nil, List.length_append,
    List.length_nil, h0, h3, h5, h15]
  omega

/-- The padded body is read as the key with the modulus 15, if it is not too long. -/
theorem decodePrivate_paddedBody {zeros : Nat} (h : zeros + 38 < lengthLimit) :
    decodePrivate (sequenceBytes (paddedBody zeros).parts) = .ok .fifteen := by
  have hparts := (length_parts_paddedBody zeros (by omega)).2
  have hlength := length_element_le sequenceTag (by omega) hparts
  rw [← sequenceBytes_eq] at hlength
  refine parsePrivate_eq_ok_iff.mpr ⟨paddedBody zeros, ?_, rfl, rfl, rfl, rfl⟩
  exact readDocument?_eq_some_iff.mpr ⟨by omega, readPrivate_parts rfl (by omega)⟩

/-- There is a body of a private key that leaves no room for the description around it. -/
theorem exists_decode_wrap_ne :
    ∃ b r, decodePrivate b = .ok r ∧ Pkcs8.decode (wrap .rsa b) ≠ .ok (.rsa r) := by
  obtain ⟨zeros, hbody, hinfo⟩ : ∃ zeros, zeros + 38 < lengthLimit ∧ lengthLimit ≤ zeros + 39 :=
    ⟨lengthLimit - 39, by rw [lengthLimit_eq]; omega⟩
  refine ⟨_, _, decodePrivate_paddedBody hbody, fun hread => ?_⟩
  have hlimit := (Pkcs8.decode_wrap_rsa_iff.mp hread).1
  have hparts := (length_parts_paddedBody zeros (by omega)).1
  have hlength := length_lt_length_element sequenceTag (paddedBody zeros).parts.flatten
  have halgorithm : AlgorithmId.rsa.encode.length = 15 := by cbv
  have hwrap := Pkcs8.length_add_le_length_wrap .rsa (sequenceBytes (paddedBody zeros).parts)
  rw [sequenceBytes_eq] at hlimit hwrap
  omega

end Pkcs1

namespace Sec1

/-- The parts of a body of the scalar one on P-256, with a second field of the number that the curve
has.  This field is passed over. -/
def paddedParts (zeros : Nat) : Bytes :=
  naturalBytes 1 ++ (octetStringBytes (unitBody .p256).scalar ++
    (curveBytes (some Curve.p256.objectId) ++ element (explicitTag 0) (List.replicate zeros 0)))

/-- The length of the parts is known up to the octets around the second field. -/
theorem length_paddedParts (zeros : Nat) (h : zeros < lengthLimit) :
    zeros + 50 ≤ (paddedParts zeros).length ∧ (paddedParts zeros).length ≤ zeros + 55 := by
  have hzeros : (List.replicate zeros (0 : UInt8)).length = zeros := List.length_replicate
  have hlow := length_lt_length_element (explicitTag 0) (List.replicate zeros 0)
  have hhigh := length_element_le (explicitTag 0) h hzeros.le
  have hversion : (naturalBytes 1).length = 3 := by decide
  have hscalar : (octetStringBytes (unitBody .p256).scalar).length = 34 := by cbv
  have hcurve : (curveBytes (some Curve.p256.objectId)).length = 12 := by cbv
  simp only [paddedParts, List.length_append, hversion, hscalar, hcurve]
  omega

/-- The padded parts are those of the body of the scalar one, if they are not too long. -/
theorem readDocument?_paddedParts {zeros : Nat} (h : zeros + 61 < lengthLimit) :
    readDocument? readBody (element sequenceTag (paddedParts zeros)) = some (unitBody .p256) := by
  have hparts := (length_paddedParts zeros (by omega)).2
  have hlength := length_element_le sequenceTag (by omega) hparts
  have hcurve : (objectIdBytes Curve.p256.objectId).length < lengthLimit := by
    rw [lengthLimit_eq]
    cbv
  have hform : field? 1 (inside (explicitTag 1) wholeBits)
      (element (explicitTag 0) (List.replicate zeros 0)) = some (none, []) :=
    field?_element_lower (by decide) (by decide) (by rw [List.length_replicate]; omega)
  refine readDocument?_eq_some_iff.mpr ⟨by omega, ?_⟩
  exact readBody_parts (curve_field? (isSome_arcs?_objectId .p256) hcurve) hform
    (lt_of_le_of_lt hparts (by omega))

/-- There is a body of a key on a curve that leaves no room for the description around it. -/
theorem exists_decode_wrap_ne :
    ∃ b r, decode b = .ok r ∧ Pkcs8.decode (wrap (.ec r.curve) b) ≠ .ok (.ecdsa r) := by
  obtain ⟨zeros, hbody, hinfo⟩ : ∃ zeros, zeros + 61 < lengthLimit ∧ lengthLimit ≤ zeros + 62 :=
    ⟨lengthLimit - 62, by rw [lengthLimit_eq]; omega⟩
  obtain ⟨r, hr, hcurve⟩ := exists_decode_unitBody (readDocument?_paddedParts hbody)
  refine ⟨_, r, hr, fun hread => ?_⟩
  have hlimit := (Pkcs8.decode_wrap_ec_iff.mp hread).1
  have hparts := (length_paddedParts zeros (by omega)).1
  have hlength := length_lt_length_element sequenceTag (paddedParts zeros)
  have halgorithm : (AlgorithmId.ec .p256).encode.length = 21 := by cbv
  have hwrap := Pkcs8.length_add_le_length_wrap (.ec r.curve)
    (element sequenceTag (paddedParts zeros))
  rw [hcurve] at hlimit hwrap
  omega

end Sec1

/-- There is a body of a key on P-256 that is read as a key on P-384 too.  And there are bodies, of a
key on a curve and of a private RSA key, that are read on their own only, because the description
around them is too long. -/
theorem exists_wrapped_ne :
    (∃ r r', Sec1.decode (Sec1.unitBody .p256).encode = .ok r ∧ r.curve = .p256 ∧
      Pkcs8.decode (wrap (.ec .p384) (Sec1.unitBody .p256).encode) = .ok (.ecdsa r')) ∧
    (∃ b r, Sec1.decode b = .ok r ∧ Pkcs8.decode (wrap (.ec r.curve) b) ≠ .ok (.ecdsa r)) ∧
    ∃ b r, Pkcs1.decodePrivate b = .ok r ∧ Pkcs8.decode (wrap .rsa b) ≠ .ok (.rsa r) := by
  refine ⟨?_, Sec1.exists_decode_wrap_ne, Pkcs1.exists_decode_wrap_ne⟩
  obtain ⟨r, hr, hcurve⟩ := Sec1.exists_decode_unitBody (Sec1.readDocument?_unitBody .p256)
  have htakes : Curve.p384.TakesScalar (Sec1.unitBody .p256).scalar :=
    Sec1.takesScalar_unitBody_iff.mpr (by decide)
  obtain ⟨r', hr'⟩ := EcKey.exists_ofScalarBytes?_iff.mpr htakes
  refine ⟨r, r', hr, hcurve, Pkcs8.decode_wrap_ec_iff.mpr
    ⟨(Sec1.length_unitBody .p256 .p384).2, _, r', Sec1.readDocument?_unitBody .p256, ?_, rfl⟩⟩
  exact Sec1.key?_eq_some_iff.mpr ⟨hr', by simp [Sec1.unitBody]⟩

end Der

end KeySmith

import KeySmith.Proofs.Cipher.HybridOutcome
import KeySmith.Proofs.Curve.GroupOrder
import KeySmith.Proofs.NewKey

/-!
# Other headers in front of a hybrid ciphertext

The tag of a ciphertext covers the vector and the encrypted message, not the header, which is the
ephemeral point behind its length.  What the header has a part in are the keys, and these are made of
the abscissa of the shared point alone.  Opposite points have opposite multiples, with the same
abscissa, and every point has several forms.  So the header may be exchanged for any form of the
ephemeral point or of its opposite, and the message is opened all the same.

Any other header makes another shared abscissa or moves octets into or out of what is covered.  Its
ciphertext is refused unless the tag is right for that too, which is a collision of the tags.  No
assumption excludes collisions here; the collision is part of the conclusion.
-/

namespace KeySmith.Cipher.Hybrid

open Weierstrass (OctetForm Contains)

/-- A header announces a point on a curve: the length of one of its forms, and the form. -/
inductive Announces (c : Curve) (P : Weierstrass.Point) : (header : Bytes) → Prop
  | intro (hP : Contains c.params P) {form : Bytes} (hform : OctetForm c.params P form)
      {length : UInt8} (hlength : form.length = length.toNat) : Announces c P (length :: form)

/-- The abscissa that a private key shares with the owner of a point. -/
def sharedAbscissa (k : EcKey) (P : Weierstrass.Point) : Nat :=
  ((Weierstrass.mul k.curve.params (k.scalar.getD 0) P).map (·.x)).getD 0

/-- The keys that a shared abscissa gives. -/
def keysAt (c : Curve) (x : Nat) : SessionKeys :=
  keysOf (BigEndian.fixed c.size x)

/-- The body that is sealed with the keys that a private key shares with the owner of a point. -/
def bodyFor (k : EcKey) (P : Weierstrass.Point) (iv : Octets 16) (message : Bytes) : Bytes :=
  sealedBody (keysAt k.curve (sharedAbscissa k P)) iv message

/-- The octets of a body that its tag covers. -/
def covered (body : Bytes) : Bytes :=
  body.take (body.length - tagSize)

/-- Two different pairs of a shared abscissa and covered octets have the same tag. -/
structure TagCollision (c : Curve) (x : Nat) (octets : Bytes) (x' : Nat) (octets' : Bytes) :
    Prop where
  ne : (x, octets) ≠ (x', octets')
  tag_eq : (keysAt c x).tagOf octets = (keysAt c x').tagOf octets'

/-- A ciphertext of a message to a key is made with an ephemeral key and a vector.  It is cut behind
the point `R` of the ephemeral key. -/
structure Produced (k : EcKey) (message : Bytes) (R : Weierstrass.Point) (header body : Bytes) :
    Prop where
  length_header : header.length = 2 + 2 * k.curve.size
  exists_encryptWith : ∃ (ephemeral : EcKey) (iv : Octets 16), ephemeral.curve = k.curve ∧
    ephemeral.scalar.isSome ∧ ephemeral.point = R ∧
    encryptWith k.toPublic ephemeral iv message = header ++ body

/-- A ciphertext is a body for the owner of a point, behind a header that announces the point, and
its tag is also the one of a body for the owner of `R`, which covers other octets or shares another
abscissa. -/
inductive Collides (k : EcKey) (R : Weierstrass.Point) (body : Bytes) :
    (ciphertext message : Bytes) → Prop
  | intro {P : Weierstrass.Point} {header : Bytes} (hannounced : Announces k.curve P header)
      (iv : Octets 16) (message : Bytes)
      (hcollision : TagCollision k.curve (sharedAbscissa k R) (covered body) (sharedAbscissa k P)
        (covered (bodyFor k P iv message))) :
      Collides k R body (header ++ bodyFor k P iv message) message

variable {k : EcKey} {P R : Weierstrass.Point} {header header' body ciphertext message : Bytes}

theorem Announces.contains {c : Curve} (h : Announces c P header) : Contains c.params P := by
  cases h with
  | intro hP hform hlength => exact hP

/-! ### Bodies -/

/-- A body covers the vector and the encrypted message. -/
theorem covered_sealedBody (keys : SessionKeys) (iv : Octets 16) (message : Bytes) :
    covered (sealedBody keys iv message) =
      iv.bytes ++ Aes.encryptChained keys.cipher iv message := by
  rw [covered, sealedBody, List.length_append, length_tagOf, Nat.add_sub_cancel, List.take_left]

/-- A body is what it covers and the tag of that. -/
theorem sealedBody_eq (keys : SessionKeys) (iv : Octets 16) (message : Bytes) :
    sealedBody keys iv message =
      covered (sealedBody keys iv message) ++ keys.tagOf (covered (sealedBody keys iv message)) := by
  rw [covered_sealedBody, sealedBody]

/-- Bodies at the end of the same ciphertext have the same tag, and what stands in front of it is the
same. -/
theorem tagOf_covered_eq {keys keys' : SessionKeys} {iv iv' : Octets 16} {message' : Bytes}
    (h : header ++ sealedBody keys iv message = header' ++ sealedBody keys' iv' message') :
    header ++ covered (sealedBody keys iv message) =
        header' ++ covered (sealedBody keys' iv' message') ∧
      keys.tagOf (covered (sealedBody keys iv message)) =
        keys'.tagOf (covered (sealedBody keys' iv' message')) := by
  rw [sealedBody_eq keys, sealedBody_eq keys', ← List.append_assoc, ← List.append_assoc] at h
  exact List.append_inj' h (by rw [length_tagOf, length_tagOf])

/-! ### Shared abscissas -/

/-- The keys that a private key shares with the owner of a point come from the shared abscissa. -/
theorem derive_mul_eq {d : Nat} (hd : k.scalar = some d) (P : Weierstrass.Point) :
    SessionKeys.derive k.curve (Weierstrass.mul k.curve.params d P) =
      keysAt k.curve (sharedAbscissa k P) := by
  rw [sharedAbscissa, hd]
  rfl

/-- The order does not divide the scalar of a key. -/
theorem not_order_dvd {d : Nat} (hd : k.scalar = some d) : ¬ k.curve.params.order ∣ d := by
  obtain ⟨⟨hpos, hlt⟩, -⟩ := Curve.publicPoint?_eq_some_iff.mp (k.isPair d hd)
  exact Nat.not_dvd_of_pos_of_lt hpos hlt

/-- A private key shares the same abscissa with the owners of two points exactly when the points have
the same abscissa. -/
theorem sharedAbscissa_eq_iff (hk : k.scalar.isSome) (hP : Contains k.curve.params P)
    (hR : Contains k.curve.params R) : sharedAbscissa k P = sharedAbscissa k R ↔ P.x = R.x := by
  obtain ⟨d, hd⟩ := Option.isSome_iff_exists.mp hk
  have horder := not_order_dvd hd
  obtain ⟨S, hS⟩ := k.curve.exists_mul horder hP
  obtain ⟨T, hT⟩ := k.curve.exists_mul horder hR
  rw [← k.curve.map_x_mul_eq_iff horder hP hR, sharedAbscissa, sharedAbscissa, hd,
    Option.getD_some, hS, hT]
  exact Option.some_inj.symm

/-- Two keys on a curve come to the same shared point. -/
theorem mul_point_comm {ephemeral : EcKey} (hcurve : ephemeral.curve = k.curve) {d r : Nat}
    (hd : k.scalar = some d) (hr : ephemeral.scalar = some r) :
    Weierstrass.mul k.curve.params r k.point =
      Weierstrass.mul k.curve.params d ephemeral.point := by
  obtain ⟨-, hpoint, -⟩ := Curve.publicPoint?_eq_some_iff.mp (k.isPair d hd)
  obtain ⟨-, hpoint', -⟩ := Curve.publicPoint?_eq_some_iff.mp (hcurve ▸ ephemeral.isPair r hr)
  rw [k.curve.mul_mul_base hpoint, k.curve.mul_mul_base hpoint', mul_comm]

/-! ### What is opened -/

/-- Behind a header that announces a point the body for its owner is opened. -/
theorem Announces.decrypt_eq (h : Announces k.curve P header) (hk : k.scalar.isSome)
    (iv : Octets 16) (message : Bytes) :
    decrypt k (header ++ bodyFor k P iv message) = .ok message := by
  obtain ⟨d, hd⟩ := Option.isSome_iff_exists.mp hk
  cases h with
  | intro hP hform hlength =>
    have haddressed := Addressed.intro hd hP hform hlength (bodyFor k P iv message)
    have hlong : ¬ (bodyFor k P iv message).length < shortestBody := by
      rw [bodyFor, length_sealedBody, tagSize, shortestBody]
      omega
    rw [List.cons_append, haddressed.decrypt_eq, if_neg hlong, derive_mul_eq hd, bodyFor,
      openWith_sealedBody]

/-- A private key opens exactly the bodies for the owner of the announced point. -/
theorem decrypt_eq_ok_iff (hk : k.scalar.isSome) :
    decrypt k ciphertext = .ok message ↔
      ∃ P header iv, Announces k.curve P header ∧ ciphertext = header ++ bodyFor k P iv message := by
  constructor
  · intro h
    cases decrypt_eq_iff.mp h with
    | @opened _ keys iv encrypted _ htagged hwhole hpadding =>
      have hencrypted : Aes.encryptChained keys.cipher iv message = encrypted :=
        Aes.decryptChained?_eq_some_iff.mp
          (Result.ofOption_eq_ok_iff.mp (unchain_eq_ok_iff.mpr ⟨hwhole, hpadding⟩))
      cases htagged.addressed with
      | @intro d hd P hP form hform length hlength =>
        refine ⟨P, length :: form, iv, .intro hP hform hlength, ?_⟩
        rw [bodyFor, ← derive_mul_eq hd, sealedBody, hencrypted, List.cons_append]
  · rintro ⟨P, header, iv, hannounced, rfl⟩
    exact hannounced.decrypt_eq hk iv message

/-! ### What is produced -/

/-- The header of a ciphertext is the form of the ephemeral point with both coordinates behind its
length, and the body is the one for the owner of the ephemeral point. -/
theorem encryptWith_eq {ephemeral : EcKey} (hk : k.scalar.isSome)
    (hcurve : ephemeral.curve = k.curve) (hephemeral : ephemeral.scalar.isSome) (iv : Octets 16)
    (message : Bytes) :
    encryptWith k.toPublic ephemeral iv message =
      (2 * k.curve.size + 1).toUInt8 :: Weierstrass.uncompressed k.curve.params ephemeral.point ++
        bodyFor k ephemeral.point iv message := by
  obtain ⟨d, hd⟩ := Option.isSome_iff_exists.mp hk
  obtain ⟨r, hr⟩ := Option.isSome_iff_exists.mp hephemeral
  rw [encryptWith, hr, EcKey.pointBytes, hcurve, sealWith_eq, Weierstrass.length_uncompressed,
    bodyFor, ← derive_mul_eq hd, ← mul_point_comm hcurve hd hr, add_comm 1]
  rfl

/-- The length of the form with both coordinates fits one octet. -/
theorem announces_uncompressed {c : Curve} (hP : Contains c.params P) :
    Announces c P ((2 * c.size + 1).toUInt8 :: Weierstrass.uncompressed c.params P) := by
  refine .intro hP .full ?_
  have hsize := c.size_le
  have hlength : (2 * c.size + 1).toUInt8.toNat = (2 * c.size + 1) % 256 := rfl
  rw [Weierstrass.length_uncompressed, hlength]
  change 1 + 2 * c.size = _
  omega

theorem length_header_uncompressed (c : Curve) (P : Weierstrass.Point) :
    ((2 * c.size + 1).toUInt8 :: Weierstrass.uncompressed c.params P).length =
      2 + 2 * c.size := by
  rw [List.length_cons, Weierstrass.length_uncompressed]
  change 1 + 2 * c.size + 1 = _
  omega

/-- The parts of a produced ciphertext. -/
theorem Produced.eq (h : Produced k message R header body) (hk : k.scalar.isSome) :
    Contains k.curve.params R ∧
      header = (2 * k.curve.size + 1).toUInt8 :: Weierstrass.uncompressed k.curve.params R ∧
      ∃ iv, body = bodyFor k R iv message := by
  obtain ⟨hlength, ephemeral, iv, hcurve, hscalar, rfl, hproduced⟩ := h
  rw [encryptWith_eq hk hcurve hscalar] at hproduced
  have hheader : ((2 * k.curve.size + 1).toUInt8 ::
      Weierstrass.uncompressed k.curve.params ephemeral.point).length = header.length := by
    rw [hlength, length_header_uncompressed]
  obtain ⟨rfl, rfl⟩ := List.append_inj hproduced hheader
  exact ⟨hcurve ▸ ephemeral.onCurve, rfl, iv, rfl⟩

/-- What is encrypted with an ephemeral key and a vector is produced. -/
theorem exists_produced_encryptWith {ephemeral : EcKey} (hk : k.scalar.isSome)
    (hcurve : ephemeral.curve = k.curve) (hephemeral : ephemeral.scalar.isSome) (iv : Octets 16)
    (message : Bytes) :
    ∃ header body, encryptWith k.toPublic ephemeral iv message = header ++ body ∧
      Produced k message ephemeral.point header body := by
  have hparts := encryptWith_eq hk hcurve hephemeral iv message
  refine ⟨_, _, hparts, ?_, ephemeral, iv, hcurve, hephemeral, rfl, hparts⟩
  exact length_header_uncompressed k.curve ephemeral.point

/-- The ciphertexts that come out of encryption are produced. -/
theorem exists_produced (hk : k.scalar.isSome) {source : Entropy}
    (h : (encrypt k.toPublic message source).1 = .ok ciphertext) :
    ∃ R header body, ciphertext = header ++ body ∧ Produced k message R header body := by
  rw [encrypt, Draw.bind_apply, Draw.bind_apply, Draw.pure_apply] at h
  obtain ⟨ephemeral, hdrawn, rfl⟩ := map_eq_ok_iff.mp h
  obtain ⟨hcurve, hscalar⟩ := drawKey?_eq_some (Result.ofOption_eq_ok_iff.mp hdrawn)
  exact ⟨ephemeral.point, exists_produced_encryptWith hk hcurve hscalar _ message⟩

/-! ### Other headers -/

/-- Behind a header that announces a point with the abscissa of the ephemeral point the message is
opened. -/
theorem Produced.decrypt_of_announces (h : Produced k message R header body)
    (hk : k.scalar.isSome) (hannounced : Announces k.curve P header') (hx : P.x = R.x) :
    decrypt k (header' ++ body) = .ok message := by
  obtain ⟨hR, -, iv, rfl⟩ := h.eq hk
  rw [bodyFor, ← (sharedAbscissa_eq_iff hk hannounced.contains hR).mpr hx]
  exact hannounced.decrypt_eq hk iv message

/-- Behind any other header the message is opened only where the tags collide. -/
theorem Produced.collides_of_decrypt {message' : Bytes} (h : Produced k message R header body)
    (hk : k.scalar.isSome) (hopened : decrypt k (header' ++ body) = .ok message')
    (hother : ∀ P, Announces k.curve P header' → P.x ≠ R.x) :
    Collides k R body (header' ++ body) message' := by
  obtain ⟨hR, -, iv, rfl⟩ := h.eq hk
  obtain ⟨P, header'', iv', hannounced, hsplit⟩ := (decrypt_eq_ok_iff hk).mp hopened
  obtain ⟨hfront, htag⟩ := tagOf_covered_eq hsplit
  rw [hsplit]
  refine .intro hannounced iv' message' ⟨fun hsame => ?_, htag⟩
  -- With the same abscissa and the same covered octets the header has announced the point.
  obtain ⟨hx, hcovered⟩ := Prod.mk.inj hsame
  have hcovered : covered (sealedBody (keysAt k.curve (sharedAbscissa k R)) iv message) =
      covered (sealedBody (keysAt k.curve (sharedAbscissa k P)) iv' message') := hcovered
  rw [hcovered] at hfront
  obtain rfl := List.append_cancel_right hfront
  exact hother P hannounced ((sharedAbscissa_eq_iff hk hannounced.contains hR).mp hx.symm)

/-- What encryption produces is a header, which ends with the ephemeral point, and a body.  In front
of the body, any header that announces a point with the same abscissa leads to the message.  Any
other header leads to a message only where the tag is right for two different pairs of a shared
abscissa and covered octets. -/
theorem decrypt_exchanged_header (k : EcKey) (hk : k.scalar.isSome) (message : Bytes) :
    (∀ source ciphertext, (encrypt k.toPublic message source).1 = .ok ciphertext →
      ∃ R header body, ciphertext = header ++ body ∧ Produced k message R header body) ∧
    ∀ R header body, Produced k message R header body → ∀ header' message',
      decrypt k (header' ++ body) = .ok message' ↔
        (∃ P, Announces k.curve P header' ∧ P.x = R.x) ∧ message' = message ∨
          Collides k R body (header' ++ body) message' := by
  refine ⟨fun source ciphertext => exists_produced hk, ?_⟩
  intro R header body h header' message'
  constructor
  · intro hopened
    by_cases hannounced : ∃ P, Announces k.curve P header' ∧ P.x = R.x
    · obtain ⟨P, hP, hx⟩ := hannounced
      have hmessage := h.decrypt_of_announces hk hP hx
      exact .inl ⟨⟨P, hP, hx⟩, Except.ok.inj (hopened.symm.trans hmessage)⟩
    · push Not at hannounced
      exact .inr (h.collides_of_decrypt hk hopened hannounced)
  · rintro (⟨⟨P, hP, hx⟩, rfl⟩ | hcollides)
    · exact h.decrypt_of_announces hk hP hx
    · generalize header' ++ body = ciphertext at hcollides ⊢
      cases hcollides with
      | intro hannounced iv => exact hannounced.decrypt_eq hk iv message'

/-! ### The opposite of an ephemeral point -/

/-- The opposite of the base point of P-256. -/
def oppositeBase : Weierstrass.Point :=
  ⟨Curve.p256.params.gx, Curve.p256.params.p - Curve.p256.params.gy⟩

/-- The header of the opposite of the base point of P-256. -/
def oppositeHeader : Bytes :=
  65 :: Weierstrass.uncompressed Curve.p256.params oppositeBase

theorem announces_oppositeHeader : Announces .p256 oppositeBase oppositeHeader :=
  announces_uncompressed (c := .p256) (by decide)

/-- A message to the scalar 2 on P-256 under the ephemeral scalar 1, whose point is the base point. -/
theorem exists_produced_two :
    ∃ k, EcKey.ofScalar? .p256 2 = some k ∧ k.curve = .p256 ∧ k.scalar.isSome ∧
      ∃ ephemeral, EcKey.ofScalar? .p256 1 = some ephemeral ∧
      ∃ header body, encryptWith k.toPublic ephemeral (.zero 16) [1, 2, 3] = header ++ body ∧
        Produced k [1, 2, 3] (Weierstrass.base Curve.p256.params) header body := by
  obtain ⟨k, hk⟩ := EcKey.exists_ofScalar? .p256 (d := 2) (by decide) (by decide)
  obtain ⟨ephemeral, hephemeral⟩ := EcKey.exists_ofScalar? .p256 (d := 1) (by decide) (by decide)
  obtain ⟨hcurve, hscalar⟩ := EcKey.ofScalar?_eq_some_iff.mp hk
  obtain ⟨hcurve', hscalar'⟩ := EcKey.ofScalar?_eq_some_iff.mp hephemeral
  have hprivate : k.scalar.isSome := by rw [hscalar]; rfl
  have hprivate' : ephemeral.scalar.isSome := by rw [hscalar']; rfl
  have hbase : ephemeral.point = Weierstrass.base Curve.p256.params := by
    have hpoint := (Curve.publicPoint?_eq_some_iff.mp (ephemeral.isPair 1 hscalar')).2.1
    rw [hcurve'] at hpoint
    have hone : Weierstrass.mul Curve.p256.params 1 (Weierstrass.base Curve.p256.params) =
        some (Weierstrass.base Curve.p256.params) := by
      rw [Weierstrass.mul, Weierstrass.mulLoop, if_neg one_ne_zero, Weierstrass.mulLoop]
      rfl
    exact Option.some.inj (hpoint.symm.trans hone)
  refine ⟨k, hk, hcurve, hprivate, ephemeral, hephemeral, ?_⟩
  rw [← hbase]
  exact exists_produced_encryptWith hprivate (hcurve'.trans hcurve.symm) hprivate' (.zero 16)
    [1, 2, 3]

/-- The opposite of the ephemeral point takes its place. -/
theorem decrypt_exchanged_header_two :
    ∃ k, EcKey.ofScalar? .p256 2 = some k ∧ k.scalar.isSome ∧
      ∃ header body, Produced k [1, 2, 3] (Weierstrass.base Curve.p256.params) header body ∧
        decrypt k (oppositeHeader ++ body) = .ok [1, 2, 3] := by
  obtain ⟨k, hk, hcurve, hprivate, -, -, header, body, -, h⟩ := exists_produced_two
  refine ⟨k, hk, hprivate, header, body, h, ?_⟩
  refine ((decrypt_exchanged_header k hprivate [1, 2, 3]).2 _ _ _ h _ _).mpr (.inl ⟨?_, rfl⟩)
  exact ⟨oppositeBase, hcurve ▸ announces_oppositeHeader, rfl⟩

/-- The header of a ciphertext has been exchanged for another one, and it is decrypted. -/
theorem exists_exchanged_header_decrypt_eq :
    ∃ k ephemeral, EcKey.ofScalar? .p256 2 = some k ∧ EcKey.ofScalar? .p256 1 = some ephemeral ∧
      ∃ header body, header.length = 66 ∧
        encryptWith k.toPublic ephemeral (.zero 16) [1, 2, 3] = header ++ body ∧
        oppositeHeader ≠ header ∧ decrypt k (oppositeHeader ++ body) = .ok [1, 2, 3] := by
  obtain ⟨k, hk, hcurve, hprivate, ephemeral, hephemeral, header, body, hencrypted, h⟩ :=
    exists_produced_two
  have hopened := h.decrypt_of_announces (P := oppositeBase) hprivate
    (hcurve ▸ announces_oppositeHeader) rfl
  have hlength := h.length_header
  obtain ⟨-, hheader, -⟩ := h.eq hprivate
  rw [hcurve] at hheader hlength
  refine ⟨k, ephemeral, hk, hephemeral, header, body, hlength, hencrypted, ?_, hopened⟩
  rw [hheader]
  decide

end KeySmith.Cipher.Hybrid

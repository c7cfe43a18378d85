import KeySmith.Cipher.Hybrid
import KeySmith.Proofs.Aes.Modes
import KeySmith.Proofs.Bytes
import KeySmith.Proofs.Curve.Order
import KeySmith.Proofs.Outcome

/-!
# Decrypting hybrid ciphertexts

The first octet of a ciphertext tells how long the ephemeral point is, and the tag has a known
length, so every part is found where it was put.  Both sides multiply the base point by both
scalars, so they come to the same shared point and to the same keys.
-/

namespace KeySmith.Cipher.Hybrid

/-! ### Parts of a ciphertext -/

@[simp] theorem length_tagOf (k : SessionKeys) (authenticated : Bytes) :
    (k.tagOf authenticated).length = tagSize :=
  (Hash.hmac Hash.sha1 k.tag authenticated).length_eq

/-- The tag of octets is verified. -/
theorem verify_tagOf (k : SessionKeys) (authenticated : Bytes) :
    k.verify authenticated (k.tagOf authenticated) = .ok () :=
  if_pos rfl

/-- The body of a ciphertext: the vector, the encrypted message and the tag. -/
def sealedBody (keys : SessionKeys) (iv : Octets 16) (message : Bytes) : Bytes :=
  iv.bytes ++ Aes.encryptChained keys.cipher iv message ++
    keys.tagOf (iv.bytes ++ Aes.encryptChained keys.cipher iv message)

theorem sealWith_eq (point : Bytes) (keys : SessionKeys) (iv : Octets 16) (message : Bytes) :
    sealWith point keys iv message =
      point.length.toUInt8 :: (point ++ sealedBody keys iv message) := by
  simp only [sealWith, sealedBody, List.append_assoc]

theorem length_sealedBody (keys : SessionKeys) (iv : Octets 16) (message : Bytes) :
    (sealedBody keys iv message).length = 16 + 16 * (message.length / 16 + 1) + tagSize := by
  rw [sealedBody, List.length_append, List.length_append, iv.length_eq,
    Aes.length_encryptChained, length_tagOf]

/-- What stands behind the point is opened with the keys it was sealed with. -/
theorem openWith_sealedBody (keys : SessionKeys) (iv : Octets 16) (message : Bytes) :
    openWith keys (sealedBody keys iv message) = .ok message := by
  have hbody := length_sealedBody keys iv message
  have hsplit : (sealedBody keys iv message).length - tagSize =
      (iv.bytes ++ Aes.encryptChained keys.cipher iv message).length := by
    rw [hbody, List.length_append, iv.length_eq, Aes.length_encryptChained, Nat.add_sub_cancel]
  have hiv : Octets.firstOf 16 (iv.bytes ++ Aes.encryptChained keys.cipher iv message) = iv :=
    Octets.firstOf_append iv _
  have hmessage : unchain keys.cipher iv (Aes.encryptChained keys.cipher iv message) =
      .ok message := by
    rw [unchain, Result.ofOption_eq_ok_iff, Aes.decryptChained?_eq_some_iff]
  have hdrop : (iv.bytes ++ Aes.encryptChained keys.cipher iv message).drop 16 =
      Aes.encryptChained keys.cipher iv message :=
    List.drop_left' iv.length_eq
  unfold openWith
  simp only [hsplit]
  rw [sealedBody, List.take_left, List.drop_left, verify_tagOf, ok_bind, hiv, hdrop, hmessage]

/-! ### Whole ciphertexts -/

/-- A ciphertext to a key is decrypted when both sides come to the same point. -/
theorem decrypt_sealWith {k : EcKey} {d : Nat} (hd : k.scalar = some d) {R : Weierstrass.Point}
    (hR : Weierstrass.Contains k.curve.params R) {keys : SessionKeys}
    (hkeys : keys = .derive k.curve (Weierstrass.mul k.curve.params d R)) (iv : Octets 16)
    (message : Bytes) :
    decrypt k (sealWith (Weierstrass.uncompressed k.curve.params R) keys iv message) =
      .ok message := by
  have hlength : (Weierstrass.uncompressed k.curve.params R).length = 1 + 2 * k.curve.size :=
    Weierstrass.length_uncompressed k.curve.params R
  have hsize := k.curve.size_le
  have hoctet : (Weierstrass.uncompressed k.curve.params R).length.toUInt8.toNat =
      (Weierstrass.uncompressed k.curve.params R).length := by
    change _ % 256 = _
    omega
  have hpoint : Weierstrass.ofBytes? k.curve.params (Weierstrass.uncompressed k.curve.params R) =
      some R :=
    Weierstrass.ofBytes?_uncompressed k.curve.p_lt.le hR
  have hbody := length_sealedBody keys iv message
  have hlong : ¬ (sealedBody keys iv message).length < shortestBody := by
    rw [hbody, tagSize, shortestBody]
    omega
  rw [decrypt, hd, Result.ofOption_some, ok_bind, sealWith_eq]
  simp only [hoctet]
  rw [if_neg (by simp), List.take_left, List.drop_left, hpoint, Result.ofOption_some, ok_bind,
    if_neg hlong, ← hkeys]
  exact openWith_sealedBody keys iv message

/-- The keys of a message from the octets of the abscissa of the shared point. -/
def keysOf (abscissa : Bytes) : SessionKeys :=
  ⟨(Hash.sha256.digest (Bytes.stripZeros abscissa)).bytes.take 16,
    (Hash.sha256.digest (Bytes.stripZeros abscissa)).bytes.drop 16⟩

/-- Encryption to the public half of the key of a scalar, under the key of an ephemeral scalar.  The
ciphertext is laid out as the octet for the length of the ephemeral point, the point with both
coordinates, the vector, the encrypted message and the tag over the last two.  The keys are the
halves of the digest of the abscissa of the shared point without its leading zeros.  The encrypted
message has the blocks of the message, the last one filled up or a whole one added.  The key
decrypts the ciphertext to the message. -/
theorem decrypt_encryptWith_of_scalar (c : Curve) {d r : Nat} (hd : 0 < d ∧ d < c.params.order)
    (hr : 0 < r ∧ r < c.params.order) (iv : Octets 16) (message : Bytes) :
    ∃ recipient ephemeral S, EcKey.ofScalar? c d = some recipient ∧
      EcKey.ofScalar? c r = some ephemeral ∧
      Weierstrass.mul c.params (r * d) (Weierstrass.base c.params) = some S ∧
      let keys := keysOf (BigEndian.fixed c.size S.x)
      let encrypted := Aes.encryptChained keys.cipher iv message
      let tag := (Hash.hmac Hash.sha1 keys.tag (iv.bytes ++ encrypted)).bytes
      encryptWith recipient.toPublic ephemeral iv message =
          (1 + 2 * c.size).toUInt8 ::
            (Weierstrass.uncompressed c.params ephemeral.point ++ iv.bytes ++ encrypted ++ tag) ∧
        encrypted.length = 16 * (message.length / 16 + 1) ∧
        decrypt recipient (encryptWith recipient.toPublic ephemeral iv message) = .ok message := by
  obtain ⟨recipient, hrecipient⟩ := EcKey.exists_ofScalar? c hd.1 hd.2
  obtain ⟨ephemeral, hephemeral⟩ := EcKey.exists_ofScalar? c hr.1 hr.2
  obtain ⟨S, hS, -⟩ := c.exists_mul_base (k := r * d) fun hdvd =>
    (c.prime_order.dvd_mul.mp hdvd).elim (Nat.not_dvd_of_pos_of_lt hr.1 hr.2)
      (Nat.not_dvd_of_pos_of_lt hd.1 hd.2)
  refine ⟨recipient, ephemeral, S, hrecipient, hephemeral, hS, ?_⟩
  intro keys encrypted tag
  obtain ⟨rfl, hscalar⟩ := EcKey.ofScalar?_eq_some_iff.mp hrecipient
  obtain ⟨hcurve, hscalar'⟩ := EcKey.ofScalar?_eq_some_iff.mp hephemeral
  obtain ⟨c, R, scalar, hR, hpair⟩ := ephemeral
  cases hcurve
  cases hscalar'
  have hseal : encryptWith recipient.toPublic ⟨recipient.curve, R, some r, hR, hpair⟩ iv message =
      sealWith (Weierstrass.uncompressed recipient.curve.params R) keys iv message := by
    have hshared : Weierstrass.mul recipient.curve.params r recipient.point = some S := by
      have hpoint := (Curve.publicPoint?_eq_some_iff.mp (recipient.isPair d hscalar)).2.1
      rw [Curve.mul_mul_base _ hpoint, hS]
    change sealWith _ (.derive recipient.curve (Weierstrass.mul recipient.curve.params r
      recipient.point)) iv message = _
    rw [hshared]
    rfl
  refine ⟨?_, Aes.length_encryptChained _ _ _, ?_⟩
  · rw [hseal, sealWith, Weierstrass.length_uncompressed]
    simp only [List.append_assoc]
    rfl
  · rw [hseal]
    refine decrypt_sealWith hscalar hR ?_ iv message
    have hpoint := (Curve.publicPoint?_eq_some_iff.mp (hpair r rfl)).2.1
    rw [Curve.mul_mul_base _ hpoint, mul_comm, hS]
    rfl

/-- A message to the scalar 2 on P-256 under the ephemeral scalar 3. -/
theorem decrypt_encryptWith_of_scalar_two :
    ∃ recipient ephemeral, EcKey.ofScalar? .p256 2 = some recipient ∧
      EcKey.ofScalar? .p256 3 = some ephemeral ∧
      decrypt recipient (encryptWith recipient.toPublic ephemeral (.zero 16) [1, 2, 3]) =
        .ok [1, 2, 3] := by
  obtain ⟨recipient, ephemeral, -, hrecipient, hephemeral, -, -, -, hdecrypt⟩ :=
    decrypt_encryptWith_of_scalar .p256 (d := 2) (r := 3) (by decide) (by decide) (.zero 16)
      [1, 2, 3]
  exact ⟨recipient, ephemeral, hrecipient, hephemeral, hdecrypt⟩

end KeySmith.Cipher.Hybrid

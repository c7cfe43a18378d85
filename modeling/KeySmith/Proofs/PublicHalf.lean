import KeySmith.Cipher.PublicKey
import KeySmith.Proofs.Jwk.RoundTrip
import KeySmith.Proofs.KeyFile

/-!
# What is told of a key without its secret

Files of the public half, blobs, lines, identifiers and ciphertexts are made from the public half of
a key only: they are the same for a private key and for its public half, and so for any two keys with
the same public half.  JSON Web Keys follow: leaving the private members out of the form of a key
gives the form of its public half.  The other way there is one exception.  A private form is read
with a modulus of any size, but without its private members it is a public form, and a public key is
only read with a modulus of at most 4096 bits.
-/

namespace KeySmith

/-! ### Outputs about the public half -/

/-- The random choices that encryption to a key of any algorithm may need. -/
structure Cipher.Choices where
  /-- The filler of an RSA block. -/
  filler : Bytes
  /-- The ephemeral key on the curve of the recipient. -/
  ephemeral : EcKey
  /-- The vector of a hybrid ciphertext. -/
  iv : Octets 16
  /-- The ephemeral secret of a stream ciphertext. -/
  secret : Octets 32

/-- Encrypts a message to a key with the choices given. -/
def Cipher.encryptWith (k : Key) (choices : Choices) (message : Bytes) : Result Bytes :=
  match k with
  | .rsa k => Rsa.encryptWith k choices.filler message
  | .ecdsa k => .ok (Hybrid.encryptWith k choices.ephemeral choices.iv message)
  | .ed25519 k => Stream.encryptWith k choices.secret message

/-- Everything that is made from a key for others to see. -/
structure PublicView where
  /-- The public file with the algorithm. -/
  infoFile : Result String
  /-- The public file of an RSA key by itself. -/
  rsaFile : Result String
  /-- The public file of a curve key under a label of its own. -/
  ecFile : Result String
  /-- The public file with an SSH blob. -/
  opensshFile : String
  blob : Bytes
  /-- The authorized key line with a comment. -/
  line : (comment : String) → String
  id : Result String
  /-- The ciphertext of a message with the choices given. -/
  encryptWith : Cipher.Choices → (message : Bytes) → Result Bytes
  /-- The ciphertext of a message with choices that are drawn. -/
  encrypt : (message : Bytes) → Draw (Result Bytes)

namespace Key

/-- What is made from a key for others to see. -/
def publicView (k : Key) : PublicView where
  infoFile := KeyFile.encodePublic k
  rsaFile := KeyFile.encodeRsaPublic k
  ecFile := KeyFile.encodeEcPublic k
  opensshFile := KeyFile.encodeOpensshPublic k
  blob := Ssh.publicBlob k
  line := Ssh.AuthorizedLine.encode k
  id := k.id
  encryptWith := Cipher.encryptWith k
  encrypt := Cipher.encrypt k

@[simp] theorem algorithm_toPublic (k : Key) : k.toPublic.algorithm = k.algorithm := by
  cases k <;> rfl

/-- The description of a key is that of its public half. -/
@[simp] theorem publicBytes_toPublic (k : Key) :
    Der.Spki.publicBytes k.toPublic = Der.Spki.publicBytes k := by
  cases k <;> rfl

@[simp] theorem encode_toPublic (k : Key) : Der.Spki.encode k.toPublic = Der.Spki.encode k := by
  rw [Der.Spki.encode, publicBytes_toPublic, Der.Spki.encode]

@[simp] theorem id_toPublic (k : Key) : k.toPublic.id = k.id := by
  rw [id, encode_toPublic, id]

@[simp] theorem publicBlob_toPublic (k : Key) : Ssh.publicBlob k.toPublic = Ssh.publicBlob k := by
  cases k <;> rfl

@[simp] theorem typeName_toPublic (k : Key) : Ssh.typeName k.toPublic = Ssh.typeName k := by
  cases k <;> rfl

/-- The public file of an RSA key by itself is that of its public half; other keys are refused for
their algorithm, which their public halves share. -/
@[simp] theorem encodeRsaPublic_toPublic (k : Key) :
    KeyFile.encodeRsaPublic k.toPublic = KeyFile.encodeRsaPublic k := by
  cases k <;> rfl

@[simp] theorem encodeEcPublic_toPublic (k : Key) :
    KeyFile.encodeEcPublic k.toPublic = KeyFile.encodeEcPublic k := by
  simp only [KeyFile.encodeEcPublic, expect, algorithm_toPublic, encode_toPublic]

/-- Encryption takes the public numbers of a key only. -/
@[simp] theorem encryptWith_toPublic (k : Key) :
    Cipher.encryptWith k.toPublic = Cipher.encryptWith k := by
  cases k <;> rfl

@[simp] theorem encrypt_toPublic (k : Key) : Cipher.encrypt k.toPublic = Cipher.encrypt k := by
  cases k <;> rfl

/-- A key looks like its public half. -/
@[simp] theorem publicView_toPublic (k : Key) : k.toPublic.publicView = k.publicView := by
  have hline : Ssh.AuthorizedLine.encode k.toPublic = Ssh.AuthorizedLine.encode k := by
    funext comment
    rw [Ssh.AuthorizedLine.encode, Ssh.AuthorizedLine.encode, publicBlob_toPublic,
      typeName_toPublic]
  simp only [publicView, KeyFile.encodePublic, encode_toPublic, encodeRsaPublic_toPublic,
    encodeEcPublic_toPublic, KeyFile.encodeOpensshPublic, publicBlob_toPublic, hline, id_toPublic,
    encryptWith_toPublic, encrypt_toPublic]

/-- Keys with the same public half look alike. -/
theorem publicView_eq_of_toPublic_eq {k l : Key} (h : k.toPublic = l.toPublic) :
    k.publicView = l.publicView := by
  rw [← publicView_toPublic k, h, publicView_toPublic l]

end Key

/-! ### Forms in JSON -/

namespace Jwk

variable {j : Jwk} {k : Key}

@[simp] theorem isPrivate_toPublic (j : Jwk) : j.toPublic.isPrivate = false :=
  rfl

/-- Without its private members the form of a key is the form of its public half. -/
theorem bare_toPublic (h : bare k = .ok j) : bare k.toPublic = .ok j.toPublic := by
  cases k with
  | ed25519 k => exact absurd h throw_ne_ok
  | ecdsa k =>
    obtain rfl := pure_eq_ok_iff.mp h
    rfl
  | rsa k =>
    rcases ofRsa_eq_ok_iff.mp h with ⟨-, rfl⟩ | ⟨d, p, q, qi, -, -, rfl⟩
    · rfl
    · rfl

/-- Without its private members the form of a key with a `kid` is the form of its public half with
the same `kid`. -/
theorem ofKey_toPublic {kid? : Option String} (h : ofKey k kid? = .ok j) :
    ofKey k.toPublic kid? = .ok j.toPublic := by
  obtain ⟨kid, form, hkid, hform, rfl⟩ := ofKey_eq_ok_iff.mp h
  refine ofKey_eq_ok_iff.mpr ⟨kid, form.toPublic, ?_, bare_toPublic hform, rfl⟩
  rwa [Key.id_toPublic]

/-- Without its private members the form of an RSA key is read as the public half of the key, if the
modulus is not too large, and is refused for the modulus otherwise. -/
theorem rsaKey_toPublic {r : RsaKey} (h : rsaKey j = .ok r) :
    rsaKey j.toPublic =
      if r.bits ≤ RsaKey.sizeLimit then .ok r.toPublic
      else .error (fault (.rsa .modulusTooLarge)) := by
  obtain ⟨hn, he, -⟩ := rsaKey_eq_ok_iff.mp h
  have hread : rsaKey j.toPublic =
      Result.of (fun f => fault (.rsa f)) (RsaKey.ofPublic r.n r.e) := by
    simp only [rsaKey, toPublic, hn, he, ok_bind, isPrivate, Option.isSome_none, Bool.not_false,
      if_true]
  rw [hread, RsaKey.ofPublic_eq]
  split
  · rfl
  · rfl

/-- Without its scalar the form of a curve key is read as the public half of the key. -/
theorem ecKey_toPublic {r : EcKey} (h : ecKey j = .ok r) : ecKey j.toPublic = .ok r.toPublic := by
  obtain ⟨hcurve, hx, hy, -⟩ := ecKey_eq_ok_iff.mp h
  exact ecKey_eq_ok_iff.mpr ⟨hcurve, hx, hy, rfl⟩

/-- Without its private members a form is read as the public half of its key, exactly when the
modulus, if there is one, is not too large. -/
theorem toKey_toPublic_iff (h : toKey j = .ok k) :
    toKey j.toPublic = .ok k.toPublic ↔ k.IsReadable := by
  have hread := toKey_eq_ok_iff.mp h
  cases k with
  | ed25519 k => exact hread.elim
  | ecdsa k =>
    refine iff_of_true ?_ (Key.isReadable_ecdsa k)
    exact toKey_eq_ok_iff.mpr ⟨hread.1, ecKey_toPublic hread.2⟩
  | rsa k =>
    rw [Key.isReadable_rsa, toKey_eq_ok_iff]
    change _ ∧ rsaKey j.toPublic = .ok k.toPublic ↔ _
    rw [rsaKey_toPublic hread.2, and_iff_right (show j.toPublic.kty = rsaType from hread.1)]
    split
    · rename_i hsize
      exact iff_of_true rfl hsize
    · rename_i hsize
      exact iff_of_false (fun hkey => by cases hkey) hsize

/-- Without its private members a form is refused if its modulus is too large for a public key. -/
theorem toKey_toPublic_eq_error (h : toKey j = .ok k) (hlarge : ¬ k.IsReadable) :
    toKey j.toPublic = .error (fault (.rsa .modulusTooLarge)) := by
  have hread := toKey_eq_ok_iff.mp h
  cases k with
  | ed25519 k => exact hread.elim
  | ecdsa k => exact absurd (Key.isReadable_ecdsa k) hlarge
  | rsa k =>
    rw [Key.isReadable_rsa] at hlarge
    have herror := rsaKey_toPublic hread.2
    rw [if_neg hlarge] at herror
    rw [toKey, if_pos (show j.toPublic.kty = rsaType from hread.1), herror]
    rfl

/-- A form that is read with a modulus that is too large for a public key is a private one. -/
theorem isPrivate_of_not_isReadable (h : toKey j = .ok k) (hlarge : ¬ k.IsReadable) :
    k.isPrivate = true := by
  have hread := toKey_eq_ok_iff.mp h
  cases k with
  | ed25519 k => exact hread.elim
  | ecdsa k => exact absurd (Key.isReadable_ecdsa k) hlarge
  | rsa k =>
    rw [Key.isReadable_rsa] at hlarge
    obtain ⟨-, -, hsecret⟩ := rsaKey_eq_ok_iff.mp hread.2
    split at hsecret
    · obtain ⟨d, p, q, -, -, -, hsecret⟩ := hsecret
      simp [Key.isPrivate, hsecret]
    · exact absurd hsecret.1 hlarge

/-- A private form with a modulus of 4098 bits is read. -/
theorem exists_toKey_large : ∃ j, toKey j = .ok (.rsa .large) := by
  have hprivate : (Key.rsa .large).isPrivate = true := by decide +kernel
  have hlength : RsaKey.large.secret.map (·.primes.length) = some 2 := by decide +kernel
  have htwo : (Key.rsa .large).IsTwoPrime := by
    intro r s hr hs
    obtain rfl := Key.rsa.inj hr
    rw [hs] at hlength
    exact Option.some.inj hlength
  obtain ⟨form, hform⟩ := exists_bare (k := .rsa .large) (by decide) htwo
  exact ⟨_, (toKey_bare_iff hform form.kid).mpr (Or.inl hprivate)⟩

end Jwk

/-! ### The public half commutes -/

/-- What is made from a key for others to see is made from its public half, and does not depend on
the secret.  Taking the public half commutes with writing a form in JSON.  It commutes with reading
one unless the form is a private one with a modulus of more than 4096 bits: the form is then read,
and is refused without its private members. -/
theorem toPublic_commutes (k : Key) (kid? : Option String) (j : Jwk) :
    k.toPublic.publicView = k.publicView ∧
      (∀ l : Key, k.toPublic = l.toPublic → k.publicView = l.publicView) ∧
      (Jwk.ofKey k kid? = .ok j → Jwk.ofKey k.toPublic kid? = .ok j.toPublic) ∧
      (Jwk.toKey j = .ok k →
        (Jwk.toKey j.toPublic = .ok k.toPublic ↔ k.IsReadable) ∧
        (¬ k.IsReadable → k.isPrivate = true ∧
          Jwk.toKey j.toPublic = .error (Jwk.fault (.rsa .modulusTooLarge)))) := by
  refine ⟨Key.publicView_toPublic k, fun l => Key.publicView_eq_of_toPublic_eq, Jwk.ofKey_toPublic,
    fun h => ⟨Jwk.toKey_toPublic_iff h, fun hlarge => ?_⟩⟩
  exact ⟨Jwk.isPrivate_of_not_isReadable h hlarge, Jwk.toKey_toPublic_eq_error h hlarge⟩

/-- The form of the key with the modulus 15 is read as the key, and without its private members as
the public half, whose form it then is.  A form with a modulus of 4098 bits is read only with its
private members. -/
theorem toPublic_commutes_fifteen :
    Key.publicView (.rsa .fifteen) = Key.publicView (.rsa RsaKey.fifteen.toPublic) ∧
      (∃ j, Jwk.ofKey (.rsa .fifteen) (some "сервер") = .ok j ∧
        Jwk.ofKey (.rsa RsaKey.fifteen.toPublic) (some "сервер") = .ok j.toPublic ∧
        Jwk.toKey j = .ok (.rsa .fifteen) ∧
        Jwk.toKey j.toPublic = .ok (.rsa RsaKey.fifteen.toPublic)) ∧
      ∃ j, Jwk.toKey j = .ok (.rsa .large) ∧
        Jwk.toKey j.toPublic = .error (Jwk.fault (.rsa .modulusTooLarge)) := by
  obtain ⟨form, hform⟩ := Jwk.exists_bare (k := .rsa .fifteen) (by decide) (by
    rintro r s ⟨rfl⟩ ⟨rfl⟩
    rfl)
  have hwritten := Jwk.ofKey_eq_ok_iff.mpr
    ⟨"сервер", form, Or.inl (Eq.refl (some "сервер")), hform, rfl⟩
  have hread := (Jwk.toKey_bare_iff hform (some "сервер")).mpr (Or.inl rfl)
  have hreadable : (Key.rsa .fifteen).IsReadable := by
    rw [Key.isReadable_rsa]
    cbv
  rcases toPublic_commutes (.rsa .fifteen) (some "сервер") { form with kid := some "сервер" } with
    ⟨-, hviews, hforms, hkeys⟩
  rcases Jwk.exists_toKey_large with ⟨j, hlargeRead⟩
  have hlarge : ¬ (Key.rsa .large).IsReadable := by
    rw [Key.isReadable_rsa, not_le]
    decide +kernel
  rcases toPublic_commutes (.rsa .large) none j with ⟨-, -, -, hlargeKeys⟩
  exact ⟨hviews _ rfl, ⟨_, hwritten, hforms hwritten, hread, (hkeys hread).1.mpr hreadable⟩,
    j, hlargeRead, ((hlargeKeys hlargeRead).2 hlarge).2⟩

/-- Taking the public half does not commute with reading the form of a private key with a modulus of
4098 bits. -/
theorem exists_toKey_toPublic_ne :
    ∃ j, Jwk.toKey j = .ok (.rsa .large) ∧
      Jwk.toKey j.toPublic ≠ .ok (.rsa RsaKey.large.toPublic) := by
  obtain ⟨j, hread⟩ := Jwk.exists_toKey_large
  refine ⟨j, hread, fun hpublic => ?_⟩
  have hreadable := (Jwk.toKey_toPublic_iff hread).mp hpublic
  rw [Key.isReadable_rsa] at hreadable
  have hlarge : RsaKey.sizeLimit < RsaKey.large.bits := by decide +kernel
  omega

end KeySmith

import KeySmith.Proofs.Der.Encrypted

/-!
# Files under a passphrase

A private key that is written under a passphrase is read back with this passphrase, and without one
the file is refused for its label.  A file is written unless its contents reach the largest length
of a document, which takes a description that is itself within 256 octets of it.
-/

namespace KeySmith.KeyFile

open Der

variable {k : Key} {info passphrase : Bytes} {salt iv : Octets 16}

/-- A private key is written under a passphrase when its description is protected. -/
theorem encodeEncrypted_eq_ok_iff (hinfo : Pkcs8.encode k = .ok info) (hpassphrase : passphrase ≠ [])
    {text : String} :
    encodeEncrypted salt iv passphrase k = .ok text ↔
      (Encrypted.protect salt iv passphrase info).length < lengthLimit ∧
        text = Pem.Block.encode ⟨encryptedLabel, Encrypted.protect salt iv passphrase info⟩ := by
  have hempty : ¬ passphrase.isEmpty = true := fun h => hpassphrase (List.isEmpty_iff.mp h)
  rw [encodeEncrypted, if_neg hempty, hinfo, ok_bind, bind_eq_ok_iff]
  simp only [Encrypted.encryptInfo_encode hinfo, pure_eq_ok_iff]
  constructor
  · rintro ⟨_, ⟨hlimit, rfl⟩, rfl⟩
    exact ⟨hlimit, rfl⟩
  · rintro ⟨hlimit, rfl⟩
    exact ⟨_, ⟨hlimit, rfl⟩, rfl⟩

/-- A private key that is written under a passphrase is read back with it. -/
theorem decodeWith_encodeEncrypted (hinfo : Pkcs8.encode k = .ok info)
    (hpassphrase : passphrase ≠ []) {text : String}
    (h : encodeEncrypted salt iv passphrase k = .ok text) :
    isEncrypted (Text.toBytes text) = true ∧
      decode (Text.toBytes text) = .error (labelError .encrypted) ∧
      decodeWith passphrase (Text.toBytes text) = .ok k := by
  obtain ⟨hlimit, rfl⟩ := (encodeEncrypted_eq_ok_iff hinfo hpassphrase).mp h
  have hcontents : encrypted? (Text.toBytes (Pem.Block.encode
      ⟨encryptedLabel, Encrypted.protect salt iv passphrase info⟩)) =
        some (Encrypted.protect salt iv passphrase info) := by
    rw [encrypted?_encode isLabel_encryptedLabel, if_pos rfl]
  have hencrypted : isEncrypted (Text.toBytes (Pem.Block.encode
      ⟨encryptedLabel, Encrypted.protect salt iv passphrase info⟩)) = true := by
    rw [isEncrypted, hcontents, Option.isSome_some]
  refine ⟨hencrypted, decodeClass_of_isEncrypted hencrypted none, ?_⟩
  simp only [decodeWith, hcontents]
  exact Encrypted.decode_encryptInfo hinfo
    ((Encrypted.encryptInfo_encode hinfo salt iv passphrase).mpr ⟨hlimit, rfl⟩)

/-- A private key with a description is written under every passphrase but the empty one, as long as
the document is not too long, which it is not 256 octets below the limit.  The file is read back
with the passphrase and refused without one.  Contents under a passphrase that are not well formed
are refused as malformed; from all others a private key is read or there is one error. -/
theorem decodeWith_encodeEncrypted_iff (hinfo : Pkcs8.encode k = .ok info)
    (hpassphrase : passphrase ≠ []) (salt iv : Octets 16) :
    ((∃ text, encodeEncrypted salt iv passphrase k = .ok text) ↔
      (Encrypted.protect salt iv passphrase info).length < lengthLimit) ∧
      (info.length + 256 < lengthLimit →
        ∃ text, encodeEncrypted salt iv passphrase k = .ok text) ∧
      (∀ text, encodeEncrypted salt iv passphrase k = .ok text →
        isEncrypted (Text.toBytes text) = true ∧
          decode (Text.toBytes text) = .error (.malformed (.label .encrypted)) ∧
          decodeWith passphrase (Text.toBytes text) = .ok k) ∧
      ∀ bs attempt,
        (∀ p, Encrypted.ProtectedKey.decode bs = .ok p →
          (∃ key, Encrypted.decode bs attempt = .ok key ∧ key.isPrivate = true) ∨
            Encrypted.decode bs attempt = .error (.failure .wrongPassphrase)) ∧
        ((∀ p, Encrypted.ProtectedKey.decode bs ≠ .ok p) →
          Encrypted.decode bs attempt = .error (.malformed (.der .encryptedStructure))) := by
  have hwritten : (∃ text, encodeEncrypted salt iv passphrase k = .ok text) ↔
      (Encrypted.protect salt iv passphrase info).length < lengthLimit := by
    simp only [encodeEncrypted_eq_ok_iff hinfo hpassphrase, exists_and_left, exists_eq, and_true]
  refine ⟨hwritten, fun hlength => ?_, fun text => decodeWith_encodeEncrypted hinfo hpassphrase,
    fun bs attempt => ⟨fun p hp => ?_, fun h => Encrypted.decode_eq_malformed h attempt⟩⟩
  · exact hwritten.mpr ((Encrypted.length_protect_le hlength salt iv passphrase).trans_lt hlength)
  · by_cases hread : ∃ key, Encrypted.decode bs attempt = .ok key
    · obtain ⟨key, hkey⟩ := hread
      exact .inl ⟨key, hkey, Encrypted.isPrivate_of_decode hkey⟩
    · exact .inr (Encrypted.decode_eq_error hp fun key hkey => hread ⟨key, hkey⟩)

/-- The key with the modulus 15 is written under a passphrase of one octet and read back with it.
Every other passphrase gives a private key or the one error. -/
theorem decodeWith_encodeEncrypted_fifteen :
    (∃ text, encodeEncrypted (.zero 16) (.zero 16) [7] (.rsa .fifteen) = .ok text ∧
      isEncrypted (Text.toBytes text) = true ∧
      decodeWith [7] (Text.toBytes text) = .ok (.rsa .fifteen)) ∧
    ∃ bs p, Encrypted.ProtectedKey.decode bs = .ok p ∧ ∀ attempt,
      (∃ key, Encrypted.decode bs attempt = .ok key ∧ key.isPrivate = true) ∨
        Encrypted.decode bs attempt = .error (.failure .wrongPassphrase) := by
  have hdescription : (Pkcs8.encode (.rsa .fifteen)).toOption.any
      (fun info => info.length + 256 < lengthLimit) = true := by
    decide +kernel
  cases hinfo : Pkcs8.encode (.rsa .fifteen) with
  | error e =>
    rw [hinfo] at hdescription
    cases hdescription
  | ok info =>
    rw [hinfo] at hdescription
    have hlength : info.length + 256 < lengthLimit := of_decide_eq_true hdescription
    have hpassphrase : ([7] : Bytes) ≠ [] := by decide
    obtain ⟨hlimit, hexists, hread, huniform⟩ :=
      decodeWith_encodeEncrypted_iff hinfo hpassphrase (.zero 16) (.zero 16)
    obtain ⟨text, htext⟩ := hexists hlength
    obtain ⟨hencrypted, -, hkey⟩ := hread text htext
    obtain ⟨p, hp, -⟩ :=
      Encrypted.decrypt?_protect (.zero 16) (.zero 16) [7] info (hlimit.mp ⟨text, htext⟩)
    exact ⟨⟨text, htext, hencrypted, hkey⟩, _, p, hp, fun attempt => (huniform _ attempt).1 p hp⟩

end KeySmith.KeyFile

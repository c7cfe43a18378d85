import KeySmith.KeyFile
import KeySmith.Proofs.Der.Pkcs8
import KeySmith.Proofs.Pem
import KeySmith.Proofs.Ssh.Container

/-!
# Reading key files back

Every form has a label of its own that can be read back, so reading a file of a form is reading its
contents in that form (`decode_armor`).  What is written for a private key is then read back as the
key, and what is written for the public half as the public half, with two exceptions: a container
has to be short enough for its length fields, and a public RSA key has to have a modulus of at most
4096 bits.  Nothing keeps a key with a larger modulus from being written.
-/

namespace KeySmith.KeyFile

open Ssh

/-! ### Forms -/

namespace Form

/-- The label of a form can be read back. -/
theorem isLabel_label (form : Form) : Pem.IsLabel form.label := by
  cases form <;> decide

/-- A form is found by its label. -/
theorem ofLabel?_label (form : Form) : ofLabel? form.label = some form := by
  cases form <;> decide

/-- The label of a form is not the one of a key under a passphrase. -/
theorem label_ne_encryptedLabel (form : Form) : form.label ≠ encryptedLabel := by
  cases form <;> decide

end Form

/-- A block of a form is read as contents of the form. -/
theorem ofBlock_label (form : Form) (contents : Bytes) :
    ofBlock none ⟨form.label, contents⟩ = form.parse contents := by
  simp only [ofBlock, if_neg form.label_ne_encryptedLabel, form.ofLabel?_label,
    Result.ofOption_some, ok_bind]

/-- A file whose first block has the label of a form is read as contents of the form. -/
theorem decode_of_block {form : Form} {file contents : Bytes}
    (h : Pem.decode file = .ok ⟨form.label, contents⟩) : decode file = form.parse contents := by
  have hblock : block file = .ok ⟨form.label, contents⟩ := by
    rw [block, h, Result.of_ok]
  simp only [decode, decodeClass, Pem.occurs_of_decode h, if_true]
  rw [hblock, ok_bind, ofBlock_label]

/-- A file of a form is read as contents of the form. -/
theorem decode_armor (form : Form) (contents : Bytes) :
    decode (Text.toBytes (armor form contents)) = form.parse contents :=
  decode_of_block (Pem.decode_encode form.isLabel_label)

/-! ### Private keys -/

/-- A file with a private RSA key by itself is read back. -/
theorem decode_encodeRsaPrivate {k : Key} {text : String} (h : encodeRsaPrivate k = .ok text) :
    decode (Text.toBytes text) = .ok k := by
  simp only [encodeRsaPrivate, bind_eq_ok_iff, pure_eq_ok_iff] at h
  obtain ⟨r, hr, body, hbody, rfl⟩ := h
  cases k with
  | ecdsa k => cases hr
  | ed25519 k => cases hr
  | rsa k =>
    cases hr
    rw [decode_armor]
    exact map_eq_ok_iff.mpr ⟨_, Der.Pkcs1.decodePrivate_encodePrivate hbody, rfl⟩

/-- A file with a private key and its algorithm is read back. -/
theorem decode_encodePrivateInfo {k : Key} {text : String} (h : encodePrivateInfo k = .ok text) :
    decode (Text.toBytes text) = .ok k := by
  simp only [encodePrivateInfo, bind_eq_ok_iff, pure_eq_ok_iff] at h
  obtain ⟨info, hinfo, rfl⟩ := h
  rw [decode_armor]
  exact Der.Pkcs8.decode_encode hinfo

/-- A file with a private RSA key and its algorithm is read back. -/
theorem decode_encodeRsaPrivateInfo {k : Key} {text : String}
    (h : encodeRsaPrivateInfo k = .ok text) : decode (Text.toBytes text) = .ok k := by
  simp only [encodeRsaPrivateInfo, bind_eq_ok_iff] at h
  obtain ⟨-, -, htext⟩ := h
  exact decode_encodePrivateInfo htext

/-- A file with a private curve key by itself is read back. -/
theorem decode_encodeEcPrivate {k : Key} {text : String} (h : encodeEcPrivate k = .ok text) :
    decode (Text.toBytes text) = .ok k := by
  simp only [encodeEcPrivate, bind_eq_ok_iff, pure_eq_ok_iff] at h
  obtain ⟨r, hr, body, hbody, rfl⟩ := h
  cases k with
  | rsa k => cases hr
  | ed25519 k => cases hr
  | ecdsa k =>
    cases hr
    rw [decode_armor]
    exact map_eq_ok_iff.mpr ⟨_, Der.Sec1.decode_encode hbody, rfl⟩

/-- A file with a container is read back exactly when the container fits. -/
theorem decode_encodeOpensshPrivate_iff {k : Key} {check : UInt32} {comment text : String}
    (h : encodeOpensshPrivate check comment k = .ok text) :
    decode (Text.toBytes text) = .ok k ↔ Container.Fits ⟨k, comment, check⟩ := by
  simp only [encodeOpensshPrivate, bind_eq_ok_iff, pure_eq_ok_iff] at h
  obtain ⟨bs, hbs, rfl⟩ := h
  rw [decode_armor]
  constructor
  · intro hread
    obtain ⟨c, hc, hkey⟩ := map_eq_ok_iff.mp hread
    exact Container.fits_of_decode_encode hbs hc hkey
  · intro hfits
    exact map_eq_ok_iff.mpr ⟨_, Container.decode_of_encode hbs hfits, rfl⟩

/-- The canonical file of a private key is read back. -/
theorem decode_encodePrivate {k : Key} {check : UInt32} {text : String}
    (h : encodePrivate check k = .ok text) : decode (Text.toBytes text) = .ok k := by
  cases k with
  | rsa k => exact decode_encodeRsaPrivate h
  | ecdsa k => exact decode_encodeEcPrivate h
  | ed25519 k =>
    have hempty : (Text.toBytes "").length < 2 ^ 31 := by decide
    refine (decode_encodeOpensshPrivate_iff h).mpr (Container.fits_of_lt hempty ?_)
    rintro r s ⟨⟩

/-! ### Public keys -/

/-- A file with a public key and its algorithm is read as the public half, exactly when its modulus,
if it has one, is not too large. -/
theorem decode_encodePublic_iff {k : Key} {text : String} (h : encodePublic k = .ok text) :
    decode (Text.toBytes text) = .ok k.toPublic ↔ k.IsReadable := by
  simp only [encodePublic, bind_eq_ok_iff, pure_eq_ok_iff] at h
  obtain ⟨info, hinfo, rfl⟩ := h
  rw [decode_armor]
  exact Der.Spki.decode_encode_iff hinfo

/-- A file with a public RSA key by itself is read as the public half, exactly when its modulus is
not too large. -/
theorem decode_encodeRsaPublic_iff {k : Key} {text : String} (h : encodeRsaPublic k = .ok text) :
    decode (Text.toBytes text) = .ok k.toPublic ↔ k.IsReadable := by
  simp only [encodeRsaPublic, bind_eq_ok_iff, pure_eq_ok_iff] at h
  obtain ⟨r, hr, body, hbody, rfl⟩ := h
  cases k with
  | ecdsa k => cases hr
  | ed25519 k => cases hr
  | rsa k =>
    cases hr
    rw [decode_armor, Key.isReadable_rsa, ← Der.Pkcs1.decodePublic_encodePublic_iff hbody]
    constructor
    · intro hread
      obtain ⟨r, hr, heq⟩ := map_eq_ok_iff.mp hread
      cases heq
      exact hr
    · intro hread
      exact map_eq_ok_iff.mpr ⟨_, hread, rfl⟩

/-- A file with a public curve key is read as the public half. -/
theorem decode_encodeEcPublic {k : Key} {text : String} (h : encodeEcPublic k = .ok text) :
    decode (Text.toBytes text) = .ok k.toPublic ∧ k.IsReadable := by
  simp only [encodeEcPublic, bind_eq_ok_iff, pure_eq_ok_iff] at h
  obtain ⟨kind, hkind, info, hinfo, rfl⟩ := h
  cases k with
  | rsa k => cases hkind
  | ed25519 k => cases hkind
  | ecdsa k =>
    rw [decode_armor]
    exact ⟨Der.Spki.decodeEc_encode hinfo, Key.isReadable_ecdsa k⟩

/-- A file with a public SSH blob is read as the public half, exactly when its modulus, if it has
one, is not too large. -/
theorem decode_encodeOpensshPublic_iff (k : Key) :
    decode (Text.toBytes (encodeOpensshPublic k)) = .ok k.toPublic ↔ k.IsReadable := by
  rw [encodeOpensshPublic, decode_armor, Form.parse, if_pos (looksLikeBlob_publicBlob k)]
  exact decodeBlob_publicBlob_iff k

/-! ### All files of a key -/

/-- The files of a private key, containers apart. -/
def privateTexts (check : UInt32) (k : Key) : List (Result String) :=
  [encodeRsaPrivate k, encodePrivateInfo k, encodeRsaPrivateInfo k, encodeEcPrivate k,
    encodePrivate check k]

/-- The files of the public half of a key. -/
def publicTexts (k : Key) : List (Result String) :=
  [encodePublic k, encodeRsaPublic k, encodeEcPublic k, .ok (encodeOpensshPublic k)]

/-- Every file of a private key is read back. -/
theorem decode_privateTexts {k : Key} {check : UInt32} {text : String}
    (h : .ok text ∈ privateTexts check k) : decode (Text.toBytes text) = .ok k := by
  simp only [privateTexts, List.mem_cons, List.not_mem_nil, or_false] at h
  rcases h with h | h | h | h | h
  · exact decode_encodeRsaPrivate h.symm
  · exact decode_encodePrivateInfo h.symm
  · exact decode_encodeRsaPrivateInfo h.symm
  · exact decode_encodeEcPrivate h.symm
  · exact decode_encodePrivate h.symm

/-- A file of the public half of a key is read as that half, exactly when the modulus, if there is
one, is not too large. -/
theorem decode_publicTexts_iff {k : Key} {text : String} (h : .ok text ∈ publicTexts k) :
    decode (Text.toBytes text) = .ok k.toPublic ↔ k.IsReadable := by
  simp only [publicTexts, List.mem_cons, List.not_mem_nil, or_false] at h
  rcases h with h | h | h | h
  · exact decode_encodePublic_iff h.symm
  · exact decode_encodeRsaPublic_iff h.symm
  · obtain ⟨hread, hreadable⟩ := decode_encodeEcPublic h.symm
    exact iff_of_true hread hreadable
  · cases h
    exact decode_encodeOpensshPublic_iff k

/-- The canonical file of a key is read back, exactly when the key is private or its modulus, if it
has one, is not too large. -/
theorem decode_encode_iff {k : Key} {check : UInt32} {text : String}
    (h : encode check k = .ok text) :
    decode (Text.toBytes text) = .ok k ↔ k.isPrivate = true ∨ k.IsReadable := by
  unfold encode at h
  by_cases hprivate : k.isPrivate = true
  · rw [if_pos hprivate] at h
    exact iff_of_true (decode_encodePrivate h) (Or.inl hprivate)
  · rw [if_neg hprivate] at h
    have hiff := decode_encodePublic_iff h
    rw [Key.toPublic_of_not_isPrivate hprivate] at hiff
    rw [hiff, or_iff_right hprivate]

/-- What is read from the files of a key.  Files of the private key give the key, a container under
the condition that it fits, which it does for every key of a moderate size with a comment of fewer
than `2 ^ 31` octets.  Files of the public half give that half exactly when its modulus, if it has
one, has at most 4096 bits, although a file is written in any case. -/
theorem decode_texts_iff (check : UInt32) (k : Key) (comment text : String) :
    (.ok text ∈ privateTexts check k → decode (Text.toBytes text) = .ok k) ∧
      (encodeOpensshPrivate check comment k = .ok text →
        (decode (Text.toBytes text) = .ok k ↔ Container.Fits ⟨k, comment, check⟩)) ∧
      ((Text.toBytes comment).length < 2 ^ 31 → k.IsModerate →
        Container.Fits ⟨k, comment, check⟩) ∧
      (.ok text ∈ publicTexts k →
        (decode (Text.toBytes text) = .ok k.toPublic ↔ k.IsReadable)) ∧
      (encode check k = .ok text →
        (decode (Text.toBytes text) = .ok k ↔ k.isPrivate = true ∨ k.IsReadable)) := by
  refine ⟨decode_privateTexts, decode_encodeOpensshPrivate_iff, ?_, decode_publicTexts_iff,
    decode_encode_iff⟩
  intro hcomment hk
  exact Container.fits_of_lt hcomment hk

/-- The key with the modulus 15 is read back from its private file, from a container and from its
canonical file, and its public half from a public file. -/
theorem decode_texts_fifteen :
    (∃ text, .ok text ∈ privateTexts 7 (.rsa .fifteen) ∧
      decode (Text.toBytes text) = .ok (.rsa .fifteen)) ∧
    (∃ text, encodeOpensshPrivate 7 "сервер" (.rsa .fifteen) = .ok text ∧
      decode (Text.toBytes text) = .ok (.rsa .fifteen)) ∧
    (∃ text, .ok text ∈ publicTexts (.rsa .fifteen) ∧
      decode (Text.toBytes text) = .ok (.rsa RsaKey.fifteen.toPublic)) ∧
    ∃ text, encode 7 (.rsa .fifteen) = .ok text ∧
      decode (Text.toBytes text) = .ok (.rsa .fifteen) := by
  obtain ⟨secret, hsecret⟩ : ∃ text, encodeRsaPrivate (.rsa .fifteen) = .ok text :=
    exists_eq_ok (by decide +kernel)
  obtain ⟨container, hcontainer⟩ :
      ∃ text, encodeOpensshPrivate 7 "сервер" (.rsa .fifteen) = .ok text := by
    have hprimes : (Key.rsa .fifteen).IsTwoPrime := by
      rintro r s ⟨rfl⟩ ⟨rfl⟩
      rfl
    obtain ⟨bs, hbs⟩ := Container.exists_encode ⟨.rsa .fifteen, "сервер", 7⟩ rfl hprimes
    exact ⟨_, by rw [encodeOpensshPrivate, hbs, ok_bind, pure_eq_ok_iff]⟩
  obtain ⟨description, hdescription⟩ : ∃ text, encodePublic (.rsa .fifteen) = .ok text :=
    exists_eq_ok (by decide +kernel)
  obtain ⟨canonical, hcanonical⟩ : ∃ text, encode 7 (.rsa .fifteen) = .ok text :=
    exists_eq_ok (by decide +kernel)
  have hmemSecret : .ok secret ∈ privateTexts 7 (.rsa .fifteen) := by
    rw [privateTexts, hsecret]
    exact List.mem_cons_self
  have hmemDescription : .ok description ∈ publicTexts (.rsa .fifteen) := by
    rw [publicTexts, hdescription]
    exact List.mem_cons_self
  have hmoderate : (Key.rsa .fifteen).IsModerate := by
    rintro r s ⟨rfl⟩ ⟨rfl⟩
    cbv
  have hreadable : (Key.rsa .fifteen).IsReadable := by
    rw [Key.isReadable_rsa]
    cbv
  have hfits : Container.Fits ⟨.rsa .fifteen, "сервер", 7⟩ :=
    (decode_texts_iff 7 (.rsa .fifteen) "сервер" "").2.2.1 (by decide) hmoderate
  refine ⟨⟨secret, hmemSecret, ?_⟩, ⟨container, hcontainer, ?_⟩,
    ⟨description, hmemDescription, ?_⟩, ⟨canonical, hcanonical, ?_⟩⟩
  · exact (decode_texts_iff 7 (.rsa .fifteen) "" secret).1 hmemSecret
  · exact ((decode_texts_iff 7 (.rsa .fifteen) "сервер" container).2.1 hcontainer).mpr hfits
  · exact ((decode_texts_iff 7 (.rsa .fifteen) "" description).2.2.2.1 hmemDescription).mpr
      hreadable
  · exact ((decode_texts_iff 7 (.rsa .fifteen) "" canonical).2.2.2.2 hcanonical).mpr
      (Or.inl rfl)

/-- The public half of a key with a modulus of 4098 bits is written, and the file is not read. -/
theorem exists_decode_encodePublic_ne :
    ∃ text, encodePublic (.rsa .large) = .ok text ∧
      decode (Text.toBytes text) ≠ .ok (.rsa RsaKey.large.toPublic) := by
  obtain ⟨text, htext⟩ : ∃ text, encodePublic (.rsa .large) = .ok text :=
    exists_eq_ok (by decide +kernel)
  refine ⟨text, htext, fun hread => ?_⟩
  have hreadable : (Key.rsa .large).IsReadable := (decode_encodePublic_iff htext).mp hread
  rw [Key.isReadable_rsa] at hreadable
  have hlarge : RsaKey.sizeLimit < RsaKey.large.bits := by decide +kernel
  omega

end KeySmith.KeyFile

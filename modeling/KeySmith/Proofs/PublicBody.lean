import KeySmith.Proofs.KeyFile

/-!
# The bodies of public SSH keys

Under the label of public SSH keys stands a blob or a public key description, and which of them it is
is told by the first octets alone: whether they are a length and the start of a type name.  A
description starts with the tag of a sequence.  As the highest octet of a length this tag would
announce more octets than a document may have, so no description starts as a blob does, and every
blob that can be read does.  The choice therefore never hides a body that one of the two readers
takes: reading under this label is trying both.
-/

namespace KeySmith

namespace Ssh

/-- A sequence that is not too long for a document does not start as a blob does. -/
theorem looksLikeBlob_sequence {body : Bytes}
    (hlimit : (Der.element Der.sequenceTag body).length < Der.lengthLimit) :
    looksLikeBlob (Der.element Der.sequenceTag body) = false := by
  rw [Bool.eq_false_iff]
  intro h
  rw [Der.element, Der.Element.encode] at h hlimit
  have hlong := mul_le_length_of_looksLikeBlob h
  change 2 ^ 24 * 48 ≤ _ at hlong
  rw [List.length_cons, Der.lengthLimit_eq] at hlimit
  omega

/-- A public key description that is written does not start as a blob does. -/
theorem looksLikeBlob_of_encodeInfo {bs : Bytes} {k : Key} (h : Der.Spki.encode k = .ok bs) :
    looksLikeBlob bs = false := by
  rw [Der.Spki.encode, Result.ofOption_eq_ok_iff, Der.document?_eq_some_iff] at h
  obtain ⟨hlimit, rfl⟩ := h
  obtain ⟨body, hbody⟩ :
      ∃ body, Der.Spki.publicBytes k = Der.element Der.sequenceTag body := by
    cases k with
    | rsa k => exact ⟨_, Der.Spki.infoBytes_eq _ _⟩
    | ecdsa k => exact ⟨_, Der.Spki.infoBytes_eq _ _⟩
    | ed25519 k => exact ⟨_, Der.Spki.infoBytes_eq _ _⟩
  rw [hbody] at hlimit ⊢
  exact looksLikeBlob_sequence hlimit

/-- A public key description that is read does not start as a blob does. -/
theorem looksLikeBlob_of_decodeInfo {bs : Bytes} {k : Key} (h : Der.Spki.decode bs = .ok k) :
    looksLikeBlob bs = false := by
  obtain ⟨info, hinfo, -⟩ := Der.Spki.decode_eq_ok_iff.mp h
  obtain ⟨hlimit, hread⟩ := Der.readDocument?_eq_some_iff.mp hinfo
  rw [Der.Spki.readInfo, Der.sequence_eq_some_iff] at hread
  obtain ⟨body, -, rfl, -⟩ := hread
  rw [List.append_nil] at hlimit ⊢
  exact looksLikeBlob_sequence hlimit

end Ssh

namespace KeyFile

open Ssh

variable {file bs : Bytes} {k l : Key}

/-- Under the label of public SSH keys a body is read exactly when one of the two readers takes it. -/
theorem parse_opensshPublic_eq_ok_iff :
    Form.opensshPublic.parse bs = .ok k ↔ decodeBlob bs = .ok k ∨ Der.Spki.decode bs = .ok k := by
  rw [Form.parse]
  cases hlooks : looksLikeBlob bs with
  | true =>
    rw [if_pos rfl, or_iff_left]
    intro hinfo
    rw [looksLikeBlob_of_decodeInfo hinfo] at hlooks
    cases hlooks
  | false =>
    rw [if_neg Bool.false_ne_true, or_iff_right]
    intro hblob
    rw [looksLikeBlob_of_decodeBlob hblob] at hlooks
    cases hlooks

/-- Whether octets are a body for a key under the label of public SSH keys: its blob or its
description. -/
def IsPublicBody (k : Key) (bs : Bytes) : Prop :=
  bs = publicBlob k ∨ Der.Spki.encode k = .ok bs

/-- Each of the two bodies of a key is read as its public half and as no other key, and only when its
modulus, if it has one, is not too large. -/
theorem IsPublicBody.parse_eq_ok_iff (h : IsPublicBody k bs) :
    Form.opensshPublic.parse bs = .ok l ↔ k.IsReadable ∧ l = k.toPublic := by
  rcases h with rfl | hinfo
  · rw [Form.parse, if_pos (looksLikeBlob_publicBlob k)]
    exact decodeBlob_publicBlob_eq_ok_iff
  · rw [Form.parse, if_neg (Bool.eq_false_iff.mp (looksLikeBlob_of_encodeInfo hinfo))]
    exact Der.Spki.decode_eq_ok_iff_of_encode hinfo

/-- A key whose modulus, if it has one, is not too large has a description. -/
theorem exists_encodeInfo (h : k.IsReadable) : ∃ info, Der.Spki.encode k = .ok info := by
  rw [Der.Spki.exists_encode_iff]
  refine Der.Spki.length_publicBytes_lt ?_
  intro r hr
  exact (h r hr).trans (by decide)

/-- The two bodies under the label of public SSH keys are never confused.  What is read as a blob
starts as one does, and what is read as a description does not, so a file with this label is read as
a key exactly when one of the two readers takes its body for it.  The blob of a key and its
description are both read as its public half, and as nothing else, exactly when the modulus, if there
is one, has at most 4096 bits, although both are written in any case. -/
theorem decode_publicBody (bs : Bytes) (k l : Key) :
    (decodeBlob bs = .ok k → looksLikeBlob bs = true) ∧
      (Der.Spki.decode bs = .ok k → looksLikeBlob bs = false) ∧
      (∀ file, Pem.decode file = .ok ⟨Form.opensshPublic.label, bs⟩ →
        (decode file = .ok k ↔ decodeBlob bs = .ok k ∨ Der.Spki.decode bs = .ok k) ∧
          (IsPublicBody k bs → (decode file = .ok l ↔ k.IsReadable ∧ l = k.toPublic))) ∧
      (k.IsReadable → ∃ info, Der.Spki.encode k = .ok info) := by
  refine ⟨looksLikeBlob_of_decodeBlob, looksLikeBlob_of_decodeInfo, ?_, exists_encodeInfo⟩
  intro file hfile
  rw [decode_of_block hfile]
  exact ⟨parse_opensshPublic_eq_ok_iff, fun hbody => hbody.parse_eq_ok_iff⟩

/-- The blob of the key with the modulus 15 and its description are told apart, and both are read as
its public half. -/
theorem decode_publicBody_fifteen :
    ∃ info, Der.Spki.encode (.rsa .fifteen) = .ok info ∧
      looksLikeBlob (publicBlob (.rsa .fifteen)) = true ∧ looksLikeBlob info = false ∧
      decode (Text.toBytes (armor .opensshPublic (publicBlob (.rsa .fifteen)))) =
        .ok (.rsa RsaKey.fifteen.toPublic) ∧
      decode (Text.toBytes (armor .opensshPublic info)) = .ok (.rsa RsaKey.fifteen.toPublic) := by
  have hreadable := Key.isReadable_fifteen
  have hfile : ∀ bs, Pem.decode (Text.toBytes (armor .opensshPublic bs)) =
      .ok ⟨Form.opensshPublic.label, bs⟩ :=
    fun bs => Pem.decode_encode Form.opensshPublic.isLabel_label
  obtain ⟨info, hinfo⟩ := (decode_publicBody [] (.rsa .fifteen) (.rsa .fifteen)).2.2.2 hreadable
  have hdescription : Der.Spki.decode info = .ok (.rsa RsaKey.fifteen.toPublic) :=
    (Der.Spki.decode_encode_iff hinfo).mpr hreadable
  refine ⟨info, hinfo, ?_, ?_, ?_, ?_⟩
  · exact (decode_publicBody _ (.rsa RsaKey.fifteen.toPublic) (.rsa .fifteen)).1
      ((decodeBlob_publicBlob_iff _).mpr hreadable)
  · exact (decode_publicBody _ (.rsa RsaKey.fifteen.toPublic) (.rsa .fifteen)).2.1 hdescription
  · exact (((decode_publicBody _ (.rsa .fifteen) _).2.2.1 _ (hfile _)).2 (.inl rfl)).mpr
      ⟨hreadable, rfl⟩
  · exact (((decode_publicBody _ (.rsa .fifteen) _).2.2.1 _ (hfile _)).2 (.inr hinfo)).mpr
      ⟨hreadable, rfl⟩

/-- A key with a modulus of 4098 bits has both bodies, and neither of them is read. -/
theorem exists_decode_publicBody_ne :
    decode (Text.toBytes (armor .opensshPublic (publicBlob (.rsa .large)))) ≠
        .ok (.rsa RsaKey.large.toPublic) ∧
      ∃ info, Der.Spki.encode (.rsa .large) = .ok info ∧
        decode (Text.toBytes (armor .opensshPublic info)) ≠ .ok (.rsa RsaKey.large.toPublic) := by
  obtain ⟨info, hinfo⟩ : ∃ info, Der.Spki.encode (.rsa .large) = .ok info :=
    exists_eq_ok (by decide +kernel)
  have hnot : ∀ bs, IsPublicBody (.rsa .large) bs →
      decode (Text.toBytes (armor .opensshPublic bs)) ≠ .ok (.rsa RsaKey.large.toPublic) := by
    intro bs hbody hread
    rw [decode_armor, hbody.parse_eq_ok_iff] at hread
    exact Key.not_isReadable_large hread.1
  exact ⟨hnot _ (.inl rfl), info, hinfo, hnot _ (.inr hinfo)⟩

end KeyFile

end KeySmith

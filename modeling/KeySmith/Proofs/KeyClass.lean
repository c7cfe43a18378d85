import KeySmith.Proofs.KeyFile
import KeySmith.Proofs.Ssh.AuthorizedLine

/-!
# Private and public files

A file declares whether its key is private: a line holds a public key, and the label of a block is
the one of a class of forms (`KeyFile.declaredClass?`).  Where one class is required, a file of this
class is read as any file is, and a file of the other class is refused as malformed, before its
contents are looked at.  A file that declares neither class is refused by every reader for the same
reason (`KeyFile.exists_decodeClass_eq_error`); files under a passphrase are among these.

What each reader returns is of the class that its form has in the table of labels
(`KeyFile.Form.keyClass_of_parse`), so the class of a key is always the one that its file declares.
-/

namespace KeySmith

/-- The class of the files that a key may be read from. -/
def Key.keyClass (k : Key) : KeyClass :=
  if k.isPrivate then .privateKey else .publicKey

/-- A key is of the private class when it holds a secret. -/
theorem Key.keyClass_eq_privateKey_iff {k : Key} :
    k.keyClass = .privateKey ↔ k.isPrivate = true := by
  unfold keyClass
  cases k.isPrivate <;> simp

/-- A key is of the public class when it holds no secret. -/
theorem Key.keyClass_eq_publicKey_iff {k : Key} :
    k.keyClass = .publicKey ↔ k.isPrivate = false := by
  unfold keyClass
  cases k.isPrivate <;> simp

/-! ### Readers of one form -/

namespace Der

variable {bs : Bytes}

theorem Pkcs1.isPrivate_of_parsePrivate {error : PrivateInfoFault → Error} {k : RsaKey}
    (h : parsePrivate error bs = .ok k) : (Key.rsa k).isPrivate = true := by
  obtain ⟨b, -, -, -, -, hs⟩ := parsePrivate_eq_ok_iff.mp h
  simp [Key.isPrivate, hs]

theorem Pkcs1.isPrivate_of_parsePublic {error : PublicInfoFault → Error} {k : RsaKey}
    (h : parsePublic error bs = .ok k) : (Key.rsa k).isPrivate = false := by
  obtain ⟨-, -, -, hs⟩ := parsePublic_eq_ok_iff.mp h
  simp [Key.isPrivate, hs]

theorem Sec1.isPrivate_of_key? {b : Body} {c : Curve} {k : EcKey} (h : b.key? c = some k) :
    (Key.ecdsa k).isPrivate = true := by
  obtain ⟨-, -, hs⟩ := EcKey.ofScalarBytes?_eq_some_iff.mp (key?_eq_some_iff.mp h).1
  simp [Key.isPrivate, hs]

theorem Sec1.isPrivate_of_decode {k : EcKey} (h : decode bs = .ok k) :
    (Key.ecdsa k).isPrivate = true := by
  obtain ⟨b, oid, -, -, -, hk⟩ := decode_eq_ok_iff.mp h
  exact isPrivate_of_key? hk

/-- A key that is read from a private key description is private. -/
theorem Pkcs8.isPrivate_of_decode {k : Key} (h : decode bs = .ok k) : k.isPrivate = true := by
  obtain ⟨info, -, hk⟩ := decode_eq_ok_iff.mp h
  cases k with
  | rsa k => exact Pkcs1.isPrivate_of_parsePrivate (rsaKey_eq_ok_iff.mp hk.2).2
  | ecdsa k =>
    obtain ⟨c, body, -, -, hkey⟩ := ecKey_eq_ok_iff.mp hk.2
    exact Sec1.isPrivate_of_key? hkey
  | ed25519 k =>
    obtain ⟨-, ⟨seed, hs, -⟩, -⟩ := ed25519Key_eq_ok_iff.mp hk.2
    simp [Key.isPrivate, hs]

/-- A key that is read from a public key description is public. -/
theorem Spki.isPrivate_of_decode {k : Key} (h : decode bs = .ok k) : k.isPrivate = false := by
  obtain ⟨info, -, hk⟩ := decode_eq_ok_iff.mp h
  cases k with
  | rsa k =>
    obtain ⟨-, body, -, hkey⟩ := rsaKey_eq_ok_iff.mp hk.2
    exact Pkcs1.isPrivate_of_parsePublic hkey
  | ecdsa k =>
    obtain ⟨c, form, -, -, hkey⟩ := ecKey_eq_ok_iff.mp hk.2
    obtain ⟨-, hs, -⟩ := EcKey.ofPoint?_eq_some_iff.mp hkey
    simp [Key.isPrivate, hs]
  | ed25519 k =>
    obtain ⟨-, -, hs⟩ := ed25519Key_eq_ok_iff.mp hk.2
    simp [Key.isPrivate, hs]

theorem Spki.decode_of_decodeEc {k : Key} (h : decodeEc bs = .ok k) : decode bs = .ok k := by
  obtain ⟨key, hkey, hexpect⟩ := bind_eq_ok_iff.mp h
  obtain ⟨-, -, hpure⟩ := bind_eq_ok_iff.mp hexpect
  rw [hkey]
  exact hpure

end Der

namespace Ssh

variable {bs : Bytes}

/-- A key that is read from a container is private. -/
theorem Container.isPrivate_of_decode {c : Container} (h : decode bs = .ok c) :
    c.key.isPrivate = true := by
  obtain ⟨options, F, hlayout⟩ := decode_eq_ok_iff.mp h
  exact (isPrivate_of_describes hlayout.describes).1

/-- A key that is read from a blob is public. -/
theorem isPrivate_of_decodeBlob {k : Key} (h : decodeBlob bs = .ok k) : k.isPrivate = false := by
  obtain ⟨F, -, -, hF⟩ := decodeBlob_eq_ok_iff.mp h
  cases k with
  | rsa k =>
    cases F with
    | ed25519 point => exact hF.elim
    | rsa e n => simp [Key.isPrivate, hF.2.2.2]
    | ecdsa curve form => exact hF.elim
  | ecdsa k =>
    cases F with
    | ed25519 point => exact hF.elim
    | rsa e n => exact hF.elim
    | ecdsa curve form =>
      obtain ⟨-, hs, -⟩ := EcKey.ofPoint?_eq_some_iff.mp hF
      simp [Key.isPrivate, hs]
  | ed25519 k =>
    cases F with
    | ed25519 point => simp [Key.isPrivate, hF.2]
    | rsa e n => exact hF.elim
    | ecdsa curve form => exact hF.elim

/-- The key of a line is the one of a blob. -/
theorem AuthorizedLine.exists_decodeBlob {line comment : String} {k : Key}
    (h : decode line = .ok (k, comment)) : ∃ blob, decodeBlob blob = .ok k := by
  simp only [decode, guard_eq_ok_iff] at h
  obtain ⟨-, h⟩ := h
  split at h
  · obtain ⟨blob, -, h⟩ := bind_eq_ok_iff.mp h
    obtain ⟨key, hkey, h⟩ := bind_eq_ok_iff.mp h
    obtain ⟨-, h⟩ := guard_eq_ok_iff.mp h
    cases h
    exact ⟨blob, hkey⟩
  · exact absurd h throw_ne_ok

end Ssh

namespace KeyFile

open Ssh

variable {bs : Bytes}

/-! ### Blocks -/

/-- Contents that are read in a form give a key of the class of the form. -/
theorem Form.keyClass_of_parse {form : Form} {contents : Bytes} {k : Key}
    (h : form.parse contents = .ok k) : k.keyClass = form.keyClass := by
  cases form with
  | rsaPrivate =>
    obtain ⟨r, hr, rfl⟩ := map_eq_ok_iff.mp h
    exact Key.keyClass_eq_privateKey_iff.mpr (Der.Pkcs1.isPrivate_of_parsePrivate hr)
  | ecPrivate =>
    obtain ⟨r, hr, rfl⟩ := map_eq_ok_iff.mp h
    exact Key.keyClass_eq_privateKey_iff.mpr (Der.Sec1.isPrivate_of_decode hr)
  | opensshPrivate =>
    obtain ⟨c, hc, rfl⟩ := map_eq_ok_iff.mp h
    exact Key.keyClass_eq_privateKey_iff.mpr (Container.isPrivate_of_decode hc)
  | privateInfo => exact Key.keyClass_eq_privateKey_iff.mpr (Der.Pkcs8.isPrivate_of_decode h)
  | rsaPublic =>
    obtain ⟨r, hr, rfl⟩ := map_eq_ok_iff.mp h
    exact Key.keyClass_eq_publicKey_iff.mpr (Der.Pkcs1.isPrivate_of_parsePublic hr)
  | ecPublic =>
    have hread := Der.Spki.decode_of_decodeEc h
    exact Key.keyClass_eq_publicKey_iff.mpr (Der.Spki.isPrivate_of_decode hread)
  | publicInfo => exact Key.keyClass_eq_publicKey_iff.mpr (Der.Spki.isPrivate_of_decode h)
  | opensshPublic =>
    -- older files have a description under this label
    rw [Form.parse] at h
    split at h
    · exact Key.keyClass_eq_publicKey_iff.mpr (isPrivate_of_decodeBlob h)
    · exact Key.keyClass_eq_publicKey_iff.mpr (Der.Spki.isPrivate_of_decode h)

/-- A block under a passphrase is refused, whichever class is required. -/
theorem ofBlock_encrypted (required : Option KeyClass) {b : Pem.Block}
    (h : b.label = encryptedLabel) : ofBlock required b = .error (labelError .encrypted) := by
  rw [ofBlock, if_pos h]
  rfl

/-- A block of no form is refused, whichever class is required. -/
theorem ofBlock_of_ofLabel?_eq_none (required : Option KeyClass) {b : Pem.Block}
    (hlabel : b.label ≠ encryptedLabel) (hform : Form.ofLabel? b.label = none) :
    ofBlock required b = .error (labelError (.unknown b.label)) := by
  rw [ofBlock, if_neg hlabel, hform]
  rfl

/-- A form is found by the label that a block has. -/
theorem Form.label_of_ofLabel? {s : String} {form : Form} (h : ofLabel? s = some form) :
    form.label = s := by
  have hfound := List.find?_some h
  exact eq_of_beq hfound

/-- Where the class of its form is required, a block is read as where no class is. -/
theorem ofBlock_keyClass {b : Pem.Block} {form : Form} (h : Form.ofLabel? b.label = some form) :
    ofBlock (some form.keyClass) b = form.parse b.contents ∧
      ofBlock none b = form.parse b.contents := by
  have hlabel : b.label ≠ encryptedLabel :=
    Form.label_of_ofLabel? h ▸ form.label_ne_encryptedLabel
  constructor
  · simp only [ofBlock, if_neg hlabel, h, Result.ofOption_some, ok_bind]
    exact if_neg (not_not_intro rfl)
  · simp only [ofBlock, if_neg hlabel, h, Result.ofOption_some, ok_bind]

/-- Where the other class is required, a block is refused for its label. -/
theorem ofBlock_of_keyClass_ne {b : Pem.Block} {form : Form} {c : KeyClass}
    (h : Form.ofLabel? b.label = some form) (hc : form.keyClass ≠ c) :
    ofBlock (some c) b = .error (labelError (.wrongClass c form.label)) := by
  have hlabel : b.label ≠ encryptedLabel :=
    Form.label_of_ofLabel? h ▸ form.label_ne_encryptedLabel
  simp only [ofBlock, if_neg hlabel, h, Result.ofOption_some, ok_bind]
  exact if_pos hc

/-! ### Files -/

/-- The class that a file declares its key to be of, by being a line or by the label of its
block. -/
def declaredClass? (bs : Bytes) : Option KeyClass :=
  if Pem.occurs bs = false ∧ (line? bs).isSome = true then some .publicKey
  else (block bs).toOption.bind fun b => labelClass? b.label

/-- A line is read as one unless a private key is required. -/
theorem decodeClass_of_line? {line : String} (hoccurs : Pem.occurs bs = false)
    (hline : line? bs = some line) (required : Option KeyClass) :
    decodeClass required bs =
      if required = some .privateKey then .error (labelError .publicLine)
      else Prod.fst <$> AuthorizedLine.decode line := by
  simp only [decodeClass, hoccurs, Bool.false_eq_true, if_false, hline]

/-- What is no line is read as a block. -/
theorem decodeClass_of_not_line (h : ¬ (Pem.occurs bs = false ∧ (line? bs).isSome = true))
    (required : Option KeyClass) : decodeClass required bs = block bs >>= ofBlock required := by
  have hnone : (if Pem.occurs bs then none else line? bs) = none := by
    split
    · rfl
    · rename_i hoccurs
      cases hline : line? bs with
      | none => rfl
      | some line => exact absurd ⟨Bool.eq_false_iff.mpr hoccurs, by rw [hline]; rfl⟩ h
  simp only [decodeClass, hnone]

/-- A file is read as what it declares, and refused as malformed where the other class is
required.  The key that is read from it is of the class that it declares. -/
theorem decodeClass_of_declaredClass? {c : KeyClass} (h : declaredClass? bs = some c) :
    decodeClass (some c) bs = decode bs ∧
      (∀ c', c ≠ c' → ∃ f, decodeClass (some c') bs = .error (.malformed f)) ∧
      ∀ k, decode bs = .ok k → k.keyClass = c := by
  unfold declaredClass? at h
  split at h
  case isTrue hfile =>
    obtain ⟨hoccurs, hsome⟩ := hfile
    obtain ⟨line, hline⟩ := Option.isSome_iff_exists.mp hsome
    obtain rfl := Option.some.inj h
    rw [decode, decodeClass_of_line? hoccurs hline, decodeClass_of_line? hoccurs hline,
      if_neg (by decide), if_neg (by decide)]
    refine ⟨rfl, fun c' hc' => ?_, fun k hk => ?_⟩
    · have hprivate : c' = .privateKey := by
        cases c' with
        | privateKey => rfl
        | publicKey => exact absurd rfl hc'
      rw [decodeClass_of_line? hoccurs hline, hprivate, if_pos rfl]
      exact ⟨_, rfl⟩
    · obtain ⟨⟨key, comment⟩, hdecode, rfl⟩ := map_eq_ok_iff.mp hk
      obtain ⟨blob, hblob⟩ := AuthorizedLine.exists_decodeBlob hdecode
      exact Key.keyClass_eq_publicKey_iff.mpr (isPrivate_of_decodeBlob hblob)
  case isFalse hfile =>
    obtain ⟨b, hb, hlabel⟩ := Option.bind_eq_some_iff.mp h
    obtain ⟨form, hform, rfl⟩ := Option.map_eq_some_iff.mp hlabel
    have hblock : block bs = .ok b := by
      cases hblock : block bs with
      | error e =>
        rw [hblock] at hb
        cases hb
      | ok b' =>
        rw [hblock] at hb
        cases hb
        rfl
    obtain ⟨hsame, hany⟩ := ofBlock_keyClass hform
    simp only [decode, decodeClass_of_not_line hfile, hblock, ok_bind, hsame, hany]
    refine ⟨trivial, fun c' hc' => ?_, fun k hk => Form.keyClass_of_parse hk⟩
    rw [ofBlock_of_keyClass_ne hform hc']
    exact ⟨_, rfl⟩

/-- A file that declares no class is refused as malformed by every reader, for the same reason. -/
theorem exists_decodeClass_eq_error (h : declaredClass? bs = none) :
    ∃ f, ∀ required, decodeClass required bs = .error (.malformed f) := by
  unfold declaredClass? at h
  split at h
  case isTrue hfile => cases h
  case isFalse hfile =>
    simp only [decodeClass_of_not_line hfile]
    cases hdecode : Pem.decode bs with
    | error fault =>
      refine ⟨.pem fault, fun required => ?_⟩
      rw [block, hdecode]
      rfl
    | ok b =>
      have hblock : block bs = .ok b := by rw [block, hdecode, Result.of_ok]
      rw [hblock] at h ⊢
      have hform : Form.ofLabel? b.label = none := Option.map_eq_none_iff.mp h
      simp only [ok_bind]
      by_cases hlabel : b.label = encryptedLabel
      · exact ⟨.label .encrypted, fun required => ofBlock_encrypted required hlabel⟩
      · exact ⟨.label (.unknown b.label),
          fun required => ofBlock_of_ofLabel?_eq_none required hlabel hform⟩

/-! ### Files under a passphrase -/

/-- The label of a key under a passphrase can be read back. -/
theorem isLabel_encryptedLabel : Pem.IsLabel encryptedLabel := by
  decide

/-- The protected contents of a file of one block are those of the block, if its label says that
they are protected. -/
theorem encrypted?_encode {b : Pem.Block} (hlabel : Pem.IsLabel b.label) :
    encrypted? (Text.toBytes b.encode) =
      if b.label = encryptedLabel then some b.contents else none := by
  simp only [encrypted?, Pem.occurs_encode, if_true, Pem.decode_encode hlabel]

/-- A file with a key under a passphrase is refused by every reader that takes none. -/
theorem decodeClass_of_isEncrypted (h : isEncrypted bs = true) (required : Option KeyClass) :
    decodeClass required bs = .error (labelError .encrypted) := by
  unfold isEncrypted encrypted? at h
  split at h
  case isTrue hoccurs =>
    split at h
    case h_1 b hb =>
      split at h
      case isTrue hlabel =>
        have hblock : block bs = .ok b := by rw [block, hb, Result.of_ok]
        rw [decodeClass_of_not_line (by simp [hoccurs]), hblock, ok_bind,
          ofBlock_encrypted required hlabel]
      case isFalse => cases h
    case h_2 => cases h
  case isFalse => cases h

/-- A file without a key under a passphrase is read alike with any passphrase. -/
theorem decodeWith_of_not_isEncrypted (h : isEncrypted bs = false) (passphrase : Bytes) :
    decodeWith passphrase bs = decode bs := by
  have hnone : encrypted? bs = none := Option.isNone_iff_eq_none.mp (by simpa [isEncrypted] using h)
  simp only [decodeWith, hnone]

/-- A key is read where a class is required exactly when it is of this class and is read anyway. -/
theorem decodeClass_eq_ok_iff {c : KeyClass} {k : Key} :
    decodeClass (some c) bs = .ok k ↔ decode bs = .ok k ∧ k.keyClass = c := by
  cases hdeclared : declaredClass? bs with
  | none =>
    obtain ⟨f, hf⟩ := exists_decodeClass_eq_error hdeclared
    rw [decode, hf, hf]
    exact iff_of_false (fun h => by cases h) (fun h => by cases h.1)
  | some declared =>
    obtain ⟨hsame, hother, hkey⟩ := decodeClass_of_declaredClass? hdeclared
    by_cases hc : declared = c
    · subst hc
      rw [hsame]
      exact ⟨fun h => ⟨h, hkey k h⟩, fun h => h.1⟩
    · obtain ⟨f, hf⟩ := hother c hc
      rw [hf]
      exact iff_of_false (fun h => by cases h) (fun h => hc ((hkey k h.1).symm.trans h.2))

/-- A key that is read is of the class that its file declares, so that the file is refused where the
other class is required. -/
theorem decodeClass_of_keyClass_ne {k : Key} (h : decode bs = .ok k) {c : KeyClass}
    (hc : k.keyClass ≠ c) : ∃ f, decodeClass (some c) bs = .error (.malformed f) := by
  cases hdeclared : declaredClass? bs with
  | none =>
    obtain ⟨f, hf⟩ := exists_decodeClass_eq_error hdeclared
    exact ⟨f, hf (some c)⟩
  | some declared =>
    obtain ⟨-, hother, hkey⟩ := decodeClass_of_declaredClass? hdeclared
    exact hother c (hkey k h ▸ hc)

/-- Every file is read as a private or as a public one, if it is read at all.  A key comes from
exactly one of the two readers that require a class, and the other one refuses the file as
malformed; which reader it is tells whether the key holds a secret.  All three readers refuse files
under a passphrase, and a passphrase does not matter for other files. -/
theorem decode_eq_ok_iff_decodeClass (bs : Bytes) :
    (∀ k, decode bs = .ok k ↔
      (decodePrivate bs = .ok k ∧ ∃ f, decodePublic bs = .error (.malformed f)) ∨
        (decodePublic bs = .ok k ∧ ∃ f, decodePrivate bs = .error (.malformed f))) ∧
      (∀ k, decodePrivate bs = .ok k → k.isPrivate = true) ∧
      (∀ k, decodePublic bs = .ok k → k.isPrivate = false) ∧
      (isEncrypted bs = true → ∃ f, decode bs = .error (.malformed f) ∧
        decodePrivate bs = .error (.malformed f) ∧ decodePublic bs = .error (.malformed f)) ∧
      (isEncrypted bs = false → ∀ passphrase, decodeWith passphrase bs = decode bs) := by
  refine ⟨fun k => ?_, fun k hk => ?_, fun k hk => ?_, fun h => ?_, decodeWith_of_not_isEncrypted⟩
  · constructor
    · intro hk
      cases hclass : k.keyClass with
      | privateKey =>
        exact .inl ⟨decodeClass_eq_ok_iff.mpr ⟨hk, hclass⟩,
          decodeClass_of_keyClass_ne hk (by rw [hclass]; decide)⟩
      | publicKey =>
        exact .inr ⟨decodeClass_eq_ok_iff.mpr ⟨hk, hclass⟩,
          decodeClass_of_keyClass_ne hk (by rw [hclass]; decide)⟩
    · rintro (⟨hk, -⟩ | ⟨hk, -⟩)
      · exact (decodeClass_eq_ok_iff.mp hk).1
      · exact (decodeClass_eq_ok_iff.mp hk).1
  · exact Key.keyClass_eq_privateKey_iff.mp (decodeClass_eq_ok_iff.mp hk).2
  · exact Key.keyClass_eq_publicKey_iff.mp (decodeClass_eq_ok_iff.mp hk).2
  · have hrefused := decodeClass_of_isEncrypted h
    exact ⟨_, hrefused none, hrefused (some .privateKey), hrefused (some .publicKey)⟩

/-- The private file of the key with the modulus 15 is read as a private file and not as a public
one, with any passphrase or none.  A block under the label of protected keys is not read. -/
theorem decode_eq_ok_iff_decodeClass_fifteen :
    (∃ bs, decodePrivate bs = .ok (.rsa .fifteen) ∧ (Key.rsa .fifteen).isPrivate = true ∧
      (∃ f, decodePublic bs = .error (.malformed f)) ∧ isEncrypted bs = false ∧
      decodeWith [7] bs = .ok (.rsa .fifteen)) ∧
    ∃ bs, isEncrypted bs = true ∧ ∃ f, decode bs = .error (.malformed f) := by
  constructor
  · obtain ⟨body, hbody⟩ : ∃ body, Der.Pkcs1.encodePrivate .fifteen = .ok body :=
      exists_eq_ok (by decide +kernel)
    have hread : decode (Text.toBytes (armor .rsaPrivate body)) = .ok (.rsa .fifteen) := by
      rw [decode_armor]
      exact map_eq_ok_iff.mpr ⟨_, Der.Pkcs1.decodePrivate_encodePrivate hbody, rfl⟩
    have hopen : isEncrypted (Text.toBytes (armor .rsaPrivate body)) = false := by
      rw [isEncrypted, armor, encrypted?_encode (Form.isLabel_label .rsaPrivate),
        if_neg (Form.label_ne_encryptedLabel .rsaPrivate), Option.isSome_none]
    obtain ⟨hclasses, hprivate, hpublic, -, hwith⟩ :=
      decode_eq_ok_iff_decodeClass (Text.toBytes (armor .rsaPrivate body))
    rcases (hclasses _).mp hread with ⟨hfirst, hsecond⟩ | ⟨hfirst, -⟩
    · exact ⟨_, hfirst, hprivate _ hfirst, hsecond, hopen, (hwith hopen [7]).trans hread⟩
    · exact absurd (hpublic _ hfirst) (by decide)
  · have hencrypted : isEncrypted (Text.toBytes (Pem.Block.encode ⟨encryptedLabel, [7]⟩)) = true := by
      rw [isEncrypted, encrypted?_encode isLabel_encryptedLabel, if_pos rfl, Option.isSome_some]
    obtain ⟨f, hf, -⟩ := (decode_eq_ok_iff_decodeClass _).2.2.2.1 hencrypted
    exact ⟨_, hencrypted, f, hf⟩

end KeyFile

end KeySmith

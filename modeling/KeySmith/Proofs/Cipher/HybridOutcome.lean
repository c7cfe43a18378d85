import KeySmith.Proofs.Cipher.Hybrid
import KeySmith.Proofs.Curve.OctetForm

/-!
# How the decryption of a hybrid ciphertext ends

A ciphertext is looked at from the front: is it long enough for the point that it announces, are
these octets a form of a point, is enough left for a vector, a block and a tag.  Then the tag is
compared, and only behind a right tag the rest is decrypted and its padding is looked at.  The
outcomes are listed here in that order, each with the shape of the ciphertexts that come to it.  Of
the octets behind a right tag exactly the ciphertexts of messages are decrypted (`unchain_outcome`).
-/

namespace KeySmith.Cipher.Hybrid

open Weierstrass (OctetForm Contains)

/-- The octets that a chained ciphertext decrypts to, with their padding. -/
def chainedPlaintext (key : Bytes) (iv : Octets 16) (encrypted : Bytes) : Bytes :=
  (Aes.unchain (.ofKey key) (.ofOctets iv) (Aes.wholeBlocks encrypted)).flatMap Aes.Block.toBytes

/-- A ciphertext starts with a point that lies on the curve of a private key, in one of its forms
behind the length of the form, and goes on with `body`.  The key comes to the session keys `keys`. -/
inductive Addressed (k : EcKey) : (ciphertext : Bytes) → (keys : SessionKeys) → (body : Bytes) → Prop
  | intro {d : Nat} (hd : k.scalar = some d) {P : Weierstrass.Point}
      (hP : Contains k.curve.params P) {form : Bytes} (hform : OctetForm k.curve.params P form)
      {length : UInt8} (hlength : form.length = length.toNat) (body : Bytes) :
      Addressed k (length :: (form ++ body))
        (.derive k.curve (Weierstrass.mul k.curve.params d P)) body

/-- Behind the point there is room for a vector and a block, which are `covered`, and for a tag. -/
structure Tagged (k : EcKey) (ciphertext : Bytes) (keys : SessionKeys) (covered tag : Bytes) :
    Prop where
  addressed : Addressed k ciphertext keys (covered ++ tag)
  long : shortestBody ≤ (covered ++ tag).length
  length_tag : tag.length = tagSize

/-- What the decryption of a ciphertext comes to, with one case for each outcome. -/
inductive Outcome (k : EcKey) : (ciphertext : Bytes) → Result Bytes → Prop
  /-- The key is a public one. -/
  | missingPrivate (hd : k.scalar = none) (ciphertext : Bytes) :
      Outcome k ciphertext (.error .missingPrivate)
  | empty (hd : k.scalar.isSome) : Outcome k [] (.error (fault .hybridEmpty))
  /-- The ciphertext ends before its point does. -/
  | truncated (hd : k.scalar.isSome) {length : UInt8} {rest : Bytes}
      (hshort : rest.length < length.toNat) :
      Outcome k (length :: rest) (.error (fault .hybridTruncated))
  /-- The octets that are announced as a point are not a form of any point on the curve. -/
  | noPoint (hd : k.scalar.isSome) {length : UInt8} {form : Bytes}
      (hlength : form.length = length.toNat)
      (hform : ∀ P, Contains k.curve.params P → ¬ OctetForm k.curve.params P form) (body : Bytes) :
      Outcome k (length :: (form ++ body)) (.error .pointNotOnCurve)
  /-- There is no room for a vector, a block and a tag behind the point. -/
  | tooShort {ciphertext : Bytes} {keys : SessionKeys} {body : Bytes}
      (haddressed : Addressed k ciphertext keys body) (hshort : body.length < shortestBody) :
      Outcome k ciphertext (.error (fault (.hybridTooShort body.length)))
  /-- The last octets are not the tag of what stands between them and the point. -/
  | tagMismatch {ciphertext : Bytes} {keys : SessionKeys} {covered tag : Bytes}
      (htagged : Tagged k ciphertext keys covered tag) (htag : tag ≠ keys.tagOf covered) :
      Outcome k ciphertext (.error .tagMismatch)
  /-- The tag is right, and what it covers behind the vector is not made of whole blocks or is not
  decrypted to a padded message. -/
  | badPadding {ciphertext : Bytes} {keys : SessionKeys} {iv : Octets 16} {encrypted : Bytes}
      (htagged : Tagged k ciphertext keys (iv.bytes ++ encrypted)
        (keys.tagOf (iv.bytes ++ encrypted)))
      (hpadding : encrypted.length % 16 ≠ 0 ∨
        ∀ message, chainedPlaintext keys.cipher iv encrypted ≠ Aes.pad message) :
      Outcome k ciphertext (.error (.failure .chainPadding))
  /-- The tag is right, and what it covers behind the vector are whole blocks that are decrypted to
  the padded message. -/
  | opened {ciphertext : Bytes} {keys : SessionKeys} {iv : Octets 16} {encrypted message : Bytes}
      (htagged : Tagged k ciphertext keys (iv.bytes ++ encrypted)
        (keys.tagOf (iv.bytes ++ encrypted)))
      (hwhole : encrypted.length % 16 = 0)
      (hpadding : chainedPlaintext keys.cipher iv encrypted = Aes.pad message) :
      Outcome k ciphertext (.ok message)

variable {k : EcKey} {ciphertext : Bytes} {keys : SessionKeys} {body : Bytes}

/-! ### Chained octets -/

/-- Chained octets are decrypted to a message exactly when they are whole blocks of the padded
message. -/
theorem unchain_eq_ok_iff {key : Bytes} {iv : Octets 16} {encrypted message : Bytes} :
    unchain key iv encrypted = .ok message ↔
      encrypted.length % 16 = 0 ∧ chainedPlaintext key iv encrypted = Aes.pad message := by
  rw [unchain, Result.ofOption_eq_ok_iff, Aes.decryptChained?, Option.ite_none_right_eq_some]
  refine and_congr_right fun _ => ?_
  rw [Aes.unpad?_eq_some_iff (by rw [Aes.length_flatMap_toBytes, Nat.mul_mod_right]), eq_comm]
  rfl

/-- Chained octets are decrypted to a message exactly when they are the ciphertext of the message. -/
theorem unchain_eq_ok_iff_encryptChained {key : Bytes} {iv : Octets 16}
    {encrypted message : Bytes} :
    unchain key iv encrypted = .ok message ↔ Aes.encryptChained key iv message = encrypted := by
  rw [unchain, Result.ofOption_eq_ok_iff, Aes.decryptChained?_eq_some_iff]

/-- Octets are the ciphertext of a message exactly when they are whole blocks that are decrypted to
octets with a padding at their end. -/
theorem exists_encryptChained_eq_iff {key : Bytes} {iv : Octets 16} {encrypted : Bytes} :
    (∃ message, Aes.encryptChained key iv message = encrypted) ↔
      encrypted.length % 16 = 0 ∧ Aes.IsPadded (chainedPlaintext key iv encrypted) := by
  have hwhole : (chainedPlaintext key iv encrypted).length % 16 = 0 := by
    rw [chainedPlaintext, Aes.length_flatMap_toBytes, Nat.mul_mod_right]
  rw [← Aes.exists_pad_eq_iff hwhole, ← exists_and_left]
  refine exists_congr fun message => ?_
  rw [← unchain_eq_ok_iff_encryptChained, unchain_eq_ok_iff, eq_comm (b := Aes.pad message)]

/-- Chained octets fail for their padding exactly when they are no ciphertext of a message. -/
theorem unchain_eq_error_iff {key : Bytes} {iv : Octets 16} {encrypted : Bytes} :
    unchain key iv encrypted = .error (.failure .chainPadding) ↔
      ∀ message, Aes.encryptChained key iv message ≠ encrypted := by
  rw [unchain, Result.ofOption_eq_error_iff, Option.eq_none_iff_forall_ne_some]
  exact forall_congr' fun message => not_congr Aes.decryptChained?_eq_some_iff

/-- Chained octets that are not decrypted to a padded message fail for their padding. -/
theorem unchain_eq_error {key : Bytes} {iv : Octets 16} {encrypted : Bytes}
    (h : encrypted.length % 16 ≠ 0 ∨
      ∀ message, chainedPlaintext key iv encrypted ≠ Aes.pad message) :
    unchain key iv encrypted = .error (.failure .chainPadding) := by
  refine unchain_eq_error_iff.mpr fun message hmessage => ?_
  obtain ⟨hwhole, hpad⟩ := unchain_eq_ok_iff.mp (unchain_eq_ok_iff_encryptChained.mpr hmessage)
  exact h.elim (absurd hwhole) fun hnot => hnot message hpad

/-- Under every key and vector, octets are decrypted to a message exactly when they are its
ciphertext, which fills one block more than the message.  All others fail for their padding.  These
are the empty ciphertext, those that are not made of whole blocks, and those that are decrypted to
octets with no padding at their end. -/
theorem unchain_outcome (key : Bytes) (iv : Octets 16) :
    (∀ encrypted message,
      unchain key iv encrypted = .ok message ↔ Aes.encryptChained key iv message = encrypted) ∧
      (∀ encrypted, unchain key iv encrypted = .error (.failure .chainPadding) ↔
        ∀ message, Aes.encryptChained key iv message ≠ encrypted) ∧
      (∀ encrypted, (∀ message, Aes.encryptChained key iv message ≠ encrypted) ↔
        encrypted = [] ∨ encrypted.length % 16 ≠ 0 ∨
          ¬ Aes.IsPadded (chainedPlaintext key iv encrypted)) ∧
      ∀ message, (Aes.encryptChained key iv message).length = 16 * (message.length / 16 + 1) := by
  refine ⟨fun _ _ => unchain_eq_ok_iff_encryptChained, fun _ => unchain_eq_error_iff, ?_,
    Aes.length_encryptChained key iv⟩
  intro encrypted
  have hempty : encrypted = [] → ¬ Aes.IsPadded (chainedPlaintext key iv encrypted) := by
    rintro rfl ⟨count, hpos, -, hsuffix⟩
    have hlength := hsuffix.length_le
    rw [List.length_replicate] at hlength
    exact absurd hpos (Nat.not_lt.mpr hlength)
  rw [← not_exists, exists_encryptChained_eq_iff, not_and_or]
  exact ⟨.inr, fun h => h.elim (.inr ∘ hempty) id⟩

/-! ### Behind the point -/

/-- A wrong tag is all that is looked at. -/
theorem openWith_of_tag_ne {covered tag : Bytes} (hsize : tag.length = tagSize)
    (htag : tag ≠ keys.tagOf covered) :
    openWith keys (covered ++ tag) = .error .tagMismatch := by
  have hsplit : (covered ++ tag).length - tagSize = covered.length := by
    rw [List.length_append, hsize, Nat.add_sub_cancel]
  simp only [openWith, hsplit, List.take_left, List.drop_left]
  rw [SessionKeys.verify, if_neg htag.symm]
  rfl

/-- Behind a right tag the rest is decrypted. -/
theorem openWith_tagOf (iv : Octets 16) (encrypted : Bytes) :
    openWith keys (iv.bytes ++ encrypted ++ keys.tagOf (iv.bytes ++ encrypted)) =
      unchain keys.cipher iv encrypted := by
  have hsplit : (iv.bytes ++ encrypted ++ keys.tagOf (iv.bytes ++ encrypted)).length - tagSize =
      (iv.bytes ++ encrypted).length := by
    rw [List.length_append, length_tagOf, Nat.add_sub_cancel]
  simp only [openWith, hsplit, List.take_left, List.drop_left]
  rw [verify_tagOf, ok_bind, Octets.firstOf_append, List.drop_left' iv.length_eq]

/-! ### Up to the point -/

/-- Behind the point of a ciphertext anything may stand. -/
theorem Addressed.exists_header (h : Addressed k ciphertext keys body) :
    ∃ header, ciphertext = header ++ body ∧ ∀ body', Addressed k (header ++ body') keys body' := by
  cases h with
  | @intro d hd P hP form hform length hlength =>
    refine ⟨length :: form, rfl, fun body' => .intro hd hP hform hlength body'⟩

/-- Behind a point what stands there decides, once it is long enough. -/
theorem Addressed.decrypt_eq (h : Addressed k ciphertext keys body) :
    decrypt k ciphertext =
      if body.length < shortestBody then .error (fault (.hybridTooShort body.length))
      else openWith keys body := by
  cases h with
  | @intro d hd P hP form hform length hlength =>
    have hread := k.curve.ofBytes?_eq_some_iff.mpr ⟨hP, hform⟩
    rw [decrypt, hd, Result.ofOption_some, ok_bind]
    simp only [← hlength]
    rw [if_neg (by simp), List.take_left, List.drop_left, hread, Result.ofOption_some, ok_bind]
    split
    · rfl
    · rfl

/-- A wrong tag decides. -/
theorem Tagged.decrypt_of_tag_ne {covered tag : Bytes} (h : Tagged k ciphertext keys covered tag)
    (htag : tag ≠ keys.tagOf covered) : decrypt k ciphertext = .error .tagMismatch := by
  rw [h.addressed.decrypt_eq, if_neg h.long.not_gt, openWith_of_tag_ne h.length_tag htag]

/-- With the right tag the rest is decrypted. -/
theorem Tagged.decrypt_of_tagOf {iv : Octets 16} {encrypted : Bytes}
    (h : Tagged k ciphertext keys (iv.bytes ++ encrypted) (keys.tagOf (iv.bytes ++ encrypted))) :
    decrypt k ciphertext = unchain keys.cipher iv encrypted := by
  rw [h.addressed.decrypt_eq, if_neg h.long.not_gt, openWith_tagOf]

/-- Enough octets behind a point are covered octets and a tag. -/
theorem Addressed.exists_tagged (h : Addressed k ciphertext keys body)
    (hlong : shortestBody ≤ body.length) : ∃ covered tag, Tagged k ciphertext keys covered tag := by
  have hsplit := List.take_append_drop (body.length - tagSize) body
  refine ⟨body.take (body.length - tagSize), body.drop (body.length - tagSize), ?_, ?_, ?_⟩
  · rwa [hsplit]
  · rwa [hsplit]
  · rw [List.length_drop]
    exact Nat.sub_sub_self ((show tagSize ≤ shortestBody by decide).trans hlong)

/-- The covered octets start with a vector. -/
theorem Tagged.exists_vector {covered tag : Bytes} (h : Tagged k ciphertext keys covered tag) :
    ∃ (iv : Octets 16) (encrypted : Bytes), covered = iv.bytes ++ encrypted := by
  have hcovered : 16 ≤ covered.length := by
    have hlong := h.long
    rw [List.length_append, h.length_tag, shortestBody, tagSize] at hlong
    omega
  exact ⟨⟨covered.take 16, List.length_take_of_le hcovered⟩, covered.drop 16,
    (List.take_append_drop 16 covered).symm⟩

/-! ### Every outcome -/

/-- Every outcome is the one of the decryption. -/
theorem Outcome.decrypt_eq {r : Result Bytes} (h : Outcome k ciphertext r) :
    decrypt k ciphertext = r := by
  cases h with
  | missingPrivate hd =>
    rw [decrypt, hd]
    rfl
  | empty hd =>
    rcases Option.isSome_iff_exists.mp hd with ⟨d, hd⟩
    rw [decrypt, hd]
    rfl
  | truncated hd hshort =>
    rcases Option.isSome_iff_exists.mp hd with ⟨d, hd⟩
    rw [decrypt, hd, Result.ofOption_some, ok_bind]
    simp only [if_pos hshort]
    rfl
  | @noPoint hd length form hlength hform body =>
    rcases Option.isSome_iff_exists.mp hd with ⟨d, hd⟩
    have hread := k.curve.ofBytes?_eq_none_iff.mpr hform
    rw [decrypt, hd, Result.ofOption_some, ok_bind]
    simp only [← hlength]
    rw [if_neg (by simp), List.take_left, hread]
    rfl
  | tooShort haddressed hshort => rw [haddressed.decrypt_eq, if_pos hshort]
  | tagMismatch htagged htag => exact htagged.decrypt_of_tag_ne htag
  | badPadding htagged hpadding => rw [htagged.decrypt_of_tagOf, unchain_eq_error hpadding]
  | opened htagged hwhole hpadding =>
    rw [htagged.decrypt_of_tagOf]
    exact unchain_eq_ok_iff.mpr ⟨hwhole, hpadding⟩

/-- A tagged ciphertext comes to one of the last three outcomes. -/
theorem Tagged.exists_outcome {covered tag : Bytes} (h : Tagged k ciphertext keys covered tag) :
    ∃ r, Outcome k ciphertext r := by
  by_cases htag : tag ≠ keys.tagOf covered
  · exact ⟨_, .tagMismatch h htag⟩
  rw [not_not] at htag
  rcases h.exists_vector with ⟨iv, encrypted, rfl⟩
  subst htag
  by_cases hpadding : encrypted.length % 16 ≠ 0 ∨
      ∀ message, chainedPlaintext keys.cipher iv encrypted ≠ Aes.pad message
  · exact ⟨_, .badPadding h hpadding⟩
  · push Not at hpadding
    rcases hpadding with ⟨hwhole, message, hmessage⟩
    exact ⟨_, .opened h hwhole hmessage⟩

/-- Every decryption comes to an outcome. -/
theorem exists_outcome (k : EcKey) (ciphertext : Bytes) : ∃ r, Outcome k ciphertext r := by
  rcases hd : k.scalar with _ | d
  · exact ⟨_, .missingPrivate hd ciphertext⟩
  have hprivate : k.scalar.isSome := by rw [hd]; rfl
  rcases ciphertext with _ | ⟨length, rest⟩
  · exact ⟨_, .empty hprivate⟩
  by_cases hshort : rest.length < length.toNat
  · exact ⟨_, .truncated hprivate hshort⟩
  have hlength : (rest.take length.toNat).length = length.toNat :=
    List.length_take_of_le (Nat.not_lt.mp hshort)
  rw [← List.take_append_drop length.toNat rest]
  by_cases hform : ∀ P, Contains k.curve.params P →
      ¬ OctetForm k.curve.params P (rest.take length.toNat)
  · exact ⟨_, .noPoint hprivate hlength hform _⟩
  push Not at hform
  rcases hform with ⟨P, hP, hform⟩
  have haddressed := Addressed.intro hd hP hform hlength (rest.drop length.toNat)
  by_cases hlong : shortestBody ≤ (rest.drop length.toNat).length
  · rcases haddressed.exists_tagged hlong with ⟨covered, tag, htagged⟩
    exact htagged.exists_outcome
  · exact ⟨_, .tooShort haddressed (Nat.lt_of_not_le hlong)⟩

/-- A decryption comes to a result exactly when the result is an outcome. -/
theorem decrypt_eq_iff {r : Result Bytes} : decrypt k ciphertext = r ↔ Outcome k ciphertext r := by
  constructor
  · rintro rfl
    rcases exists_outcome k ciphertext with ⟨r, hr⟩
    rwa [hr.decrypt_eq]
  · exact Outcome.decrypt_eq

/-! ### Tags -/

/-- A tag is refused exactly when it is not the right one. -/
theorem Tagged.decrypt_eq_tagMismatch_iff {covered tag : Bytes}
    (h : Tagged k ciphertext keys covered tag) :
    decrypt k ciphertext = .error .tagMismatch ↔ tag ≠ keys.tagOf covered := by
  refine ⟨?_, h.decrypt_of_tag_ne⟩
  rintro hmismatch rfl
  rcases h.exists_vector with ⟨iv, encrypted, rfl⟩
  rw [h.decrypt_of_tagOf, unchain] at hmismatch
  rcases hplain : Aes.decryptChained? keys.cipher iv encrypted with _ | message
  · rw [hplain] at hmismatch
    cases hmismatch
  · rw [hplain] at hmismatch
    cases hmismatch

/-- Another tag may stand in the place of a tag. -/
theorem Tagged.exists_header {covered tag : Bytes} (h : Tagged k ciphertext keys covered tag) :
    ∃ header, ciphertext = header ++ tag ∧
      ∀ tag', tag'.length = tagSize → Tagged k (header ++ tag') keys covered tag' := by
  rcases h.addressed.exists_header with ⟨header, rfl, haddressed⟩
  refine ⟨header ++ covered, (List.append_assoc header covered tag).symm, ?_⟩
  intro tag' hsize
  rw [List.append_assoc]
  refine ⟨haddressed (covered ++ tag'), ?_, hsize⟩
  have hlong := h.long
  rwa [List.length_append, h.length_tag, ← hsize, ← List.length_append] at hlong

/-- An accepted ciphertext is tagged with the right tag. -/
theorem exists_tagged_of_decrypt {message : Bytes} (h : decrypt k ciphertext = .ok message) :
    ∃ keys covered, Tagged k ciphertext keys covered (keys.tagOf covered) := by
  cases decrypt_eq_iff.mp h with
  | opened htagged hwhole hpadding => exact ⟨_, _, htagged⟩

/-- An accepted ciphertext with other last octets is refused for its tag. -/
theorem decrypt_of_tag_ne {front tag tag' message : Bytes} (hsize : tag.length = tagSize)
    (hsize' : tag'.length = tagSize) (h : decrypt k (front ++ tag) = .ok message)
    (hne : tag' ≠ tag) : decrypt k (front ++ tag') = .error .tagMismatch := by
  rcases exists_tagged_of_decrypt h with ⟨keys, covered, htagged⟩
  rcases htagged.exists_header with ⟨header, hsplit, hother⟩
  rcases List.append_inj' hsplit (hsize.trans htagged.length_tag.symm) with ⟨rfl, rfl⟩
  exact (hother tag' hsize').decrypt_of_tag_ne hne

/-- The decryption of a ciphertext comes to the first outcome that applies: a public key, an empty
ciphertext, a truncated point, no point on the curve, too little behind the point, a wrong tag, a bad
length or padding, the message.  It comes to a wrong tag exactly when the last twenty octets are not
the tag of what stands between the point and them.  So an accepted ciphertext with other last octets
comes to a wrong tag, and all ciphertexts with wrong tags come to the same, whatever they cover. -/
theorem decrypt_outcome (k : EcKey) :
    (∀ ciphertext r, decrypt k ciphertext = r ↔ Outcome k ciphertext r) ∧
      (∀ ciphertext keys covered tag, Tagged k ciphertext keys covered tag →
        (decrypt k ciphertext = .error .tagMismatch ↔ tag ≠ keys.tagOf covered)) ∧
      (∀ front tag tag' message, tag.length = tagSize → tag'.length = tagSize →
        decrypt k (front ++ tag) = .ok message → tag' ≠ tag →
        decrypt k (front ++ tag') = .error .tagMismatch) ∧
      ∀ ciphertext ciphertext' keys keys' covered covered' tag tag',
        Tagged k ciphertext keys covered tag → tag ≠ keys.tagOf covered →
        Tagged k ciphertext' keys' covered' tag' → tag' ≠ keys'.tagOf covered' →
        decrypt k ciphertext = decrypt k ciphertext' := by
  refine ⟨fun _ _ => decrypt_eq_iff, fun _ _ _ _ h => h.decrypt_eq_tagMismatch_iff,
    fun _ _ _ _ => decrypt_of_tag_ne, ?_⟩
  intro ciphertext ciphertext' keys keys' covered covered' tag tag' h htag h' htag'
  rw [h.decrypt_of_tag_ne htag, h'.decrypt_of_tag_ne htag']

/-- Octets that are all one higher are others. -/
theorem map_add_one_ne {tag : Bytes} (hsize : tag.length = tagSize) : tag.map (· + 1) ≠ tag := by
  rcases tag with _ | ⟨b, rest⟩
  · cases hsize
  · intro h
    have hb : b + 1 = b := (List.cons.inj h).1
    simp at hb

/-- The key of the scalar 2 on P-256 opens a message to it.  It refuses the ciphertext with another
tag, and in the same way one that covers nothing but zeros under a wrong tag. -/
theorem decrypt_outcome_two :
    ∃ k, EcKey.ofScalar? .p256 2 = some k ∧ Outcome k [] (.error (fault .hybridEmpty)) ∧
      ∃ front front' tag tag' : Bytes, tag.length = tagSize ∧ tag'.length = tagSize ∧
        decrypt k (front ++ tag) = .ok [1, 2, 3] ∧
        decrypt k (front ++ tag.map (· + 1)) = .error .tagMismatch ∧
        decrypt k (front' ++ tag'.map (· + 1)) = decrypt k (front ++ tag.map (· + 1)) := by
  obtain ⟨k, hk⟩ := EcKey.exists_ofScalar? .p256 (d := 2) (by decide) (by decide)
  obtain ⟨houtcome, hmismatch, haltered, hsame⟩ := decrypt_outcome k
  rcases EcKey.ofScalar?_eq_some_iff.mp hk with ⟨hcurve, hscalar⟩
  have hon : Contains k.curve.params (Weierstrass.base k.curve.params) := by
    rw [hcurve]
    decide
  have haccepted := decrypt_sealWith hscalar hon rfl (.zero 16) [1, 2, 3]
  rcases exists_tagged_of_decrypt haccepted with ⟨keys, covered, htagged⟩
  rcases htagged.exists_header with ⟨front, hsplit, hother⟩
  rcases htagged.addressed.exists_header with ⟨header, -, hany⟩
  rw [hsplit] at haccepted
  have hchanged (authenticated : Bytes) :
      ((keys.tagOf authenticated).map (· + 1)).length = tagSize := by
    rw [List.length_map, length_tagOf]
  have hzeros : Tagged k (header ++ List.replicate 32 0 ++
      (keys.tagOf (List.replicate 32 0)).map (· + 1)) keys (List.replicate 32 0)
      ((keys.tagOf (List.replicate 32 0)).map (· + 1)) := by
    refine ⟨?_, ?_, hchanged _⟩
    · rw [List.append_assoc]
      exact hany _
    · rw [List.length_append, hchanged, List.length_replicate]
      decide
  have haltered := haltered _ _ _ _ (length_tagOf _ _) (hchanged covered) haccepted
    (map_add_one_ne (length_tagOf _ _))
  refine ⟨k, hk, (houtcome _ _).mp ?_, front, header ++ List.replicate 32 0,
    keys.tagOf covered, keys.tagOf (List.replicate 32 0), length_tagOf _ _, length_tagOf _ _,
    haccepted, haltered, ?_⟩
  · rw [decrypt, hscalar]
    rfl
  · exact hsame _ _ _ _ _ _ _ _ hzeros (map_add_one_ne (length_tagOf _ _)) (hother _ (hchanged _))
      ((hmismatch _ _ _ _ (hother _ (hchanged _))).mp haltered)

end KeySmith.Cipher.Hybrid

import KeySmith.Cipher.Hybrid
import KeySmith.Cipher.Shared
import KeySmith.Cipher.Stream
import KeySmith.Proofs.Strict.Pem
import KeySmith.Proofs.Strict.Ssh

/-!
# Encrypting and decrypting in bounds

A ciphertext is cut where its parts meet, and before each cut the length of what is cut has been
looked at, or is known: digests, tags and points have fixed lengths.  The tag of a hybrid ciphertext
is cut off from the end and the vector from the front of what is left.  `Hybrid.openWith` relies on
`Hybrid.decrypt` for both: by itself it stays in bounds only on octets that are long enough, as
`openWith_agrees_iff` says.

With the ciphers every program that takes octets from outside has its run, and `programs_agree` puts
them together: on all inputs and under all keys each of them ends with a value or with an error.
-/

namespace KeySmith.Strict

/-! ### Ciphertexts to keys on a curve -/

namespace Hybrid

open KeySmith.Cipher.Hybrid

/-- The keys that a shared point gives, each copied from its part of the digest of the abscissa. -/
def derive (c : Curve) (shared : Option Weierstrass.Point) : Option SessionKeys := do
  let x := BigEndian.fixed c.size ((shared.map (·.x)).getD 0)
  let digest := (Hash.sha256.digest (← from? (x.findIdx (· != 0)) x)).bytes
  let cipher ← Octets.ofBytes? 16 (← upTo? 16 digest)
  let tag ← Octets.ofBytes? 16 (← between? 16 32 digest)
  return ⟨cipher.bytes, tag.bytes⟩

/-- The tag of a vector and an encrypted message, copied to its twenty octets. -/
def tagOf (k : SessionKeys) (authenticated : Bytes) : Option (Octets 20) :=
  Octets.ofBytes? 20 (Hash.hmac Hash.sha1 k.tag authenticated).bytes

/-- A ciphertext from its parts. The octets that the tag covers are those behind the point. -/
def sealWith (point : Bytes) (keys : SessionKeys) (iv : Octets 16) (message : Bytes) :
    Option Bytes := do
  let front := (← octet? point.length) :: point
  let out := front ++ iv.bytes ++ Aes.encryptChained keys.cipher iv message
  let tag ← tagOf keys (← from? front.length out)
  return out ++ tag.bytes

/-- Encrypts a message with the ephemeral key and the vector given. -/
def encryptWith (recipient ephemeral : EcKey) (iv : Octets 16) (message : Bytes) :
    Option Bytes := do
  let shared := Weierstrass.mul recipient.curve.params (ephemeral.scalar.getD 0) recipient.point
  sealWith ephemeral.pointBytes (← derive recipient.curve shared) iv message

/-- Decrypts what a tag covers, a vector and an encrypted message. -/
def openCovered (keys : SessionKeys) (covered : Bytes) : Run Error Bytes := do
  let (iv, ciphertext) ← splitAt? 16 covered
  unchain keys.cipher (← Octets.ofBytes? 16 iv) ciphertext

/-- Decrypts what stands behind the ephemeral point. -/
def openWith (keys : SessionKeys) (body : Bytes) : Run Error Bytes := do
  let (covered, tag) ← splitAt? (← difference? body.length tagSize) body
  keys.verify covered tag
  openCovered keys covered

/-- Decrypts a ciphertext. -/
def decrypt (k : EcKey) (ciphertext : Bytes) : Run Error Bytes := do
  let d ← Result.ofOption .missingPrivate k.scalar
  match ciphertext with
  | [] => throw (fault .hybridEmpty)
  | length :: rest =>
    if rest.length < length.toNat then throw (fault .hybridTruncated)
    let (form, body) ← splitAt? length.toNat rest
    let point ← readForm k.curve.params form
    if body.length < shortestBody then throw (fault (.hybridTooShort body.length))
    openWith (← derive k.curve (Weierstrass.mul k.curve.params d point)) body

/-- The digest is as long as both keys. -/
theorem derive_eq (c : Curve) (shared : Option Weierstrass.Point) :
    derive c shared = some (.derive c shared) := by
  unfold derive SessionKeys.derive
  simp only [from?_findIdx, Option.bind_eq_bind, Option.bind_some]
  generalize Hash.sha256.digest _ = digest
  have hdigest : digest.bytes.length = 32 := digest.length_eq
  have hcipher : (digest.bytes.take 16).length = 16 := by
    rw [List.length_take]
    omega
  have htag : (digest.bytes.drop 16).length = 16 := by
    rw [List.length_drop]
    omega
  have hfirst : upTo? 16 digest.bytes = some (digest.bytes.take 16) := upTo?_of_le (by omega)
  have hsecond : between? 16 32 digest.bytes = some (digest.bytes.drop 16) := by
    rw [between?_of_le (by decide) hdigest.ge, List.take_of_length_le hdigest.le]
  simp only [hfirst, hsecond, Option.bind_some, ofBytes?_of_length hcipher,
    ofBytes?_of_length htag]
  rfl

theorem tagOf_eq (k : SessionKeys) (authenticated : Bytes) :
    tagOf k authenticated = some (Hash.hmac Hash.sha1 k.tag authenticated) :=
  Octets.ofBytes?_bytes _

/-- What the tag covers starts inside the ciphertext. -/
theorem sealWith_eq {point : Bytes} (h : point.length < 256) (keys : SessionKeys) (iv : Octets 16)
    (message : Bytes) :
    sealWith point keys iv message =
      some (KeySmith.Cipher.Hybrid.sealWith point keys iv message) := by
  have hcovered (front covered : Bytes) :
      from? front.length (front ++ covered) = some covered := by
    rw [from?_of_le (by simp), List.drop_left]
  unfold sealWith
  simp only [octet?_of_lt h, Option.bind_eq_bind, Option.bind_some, List.append_assoc, hcovered,
    tagOf_eq]
  simp only [KeySmith.Cipher.Hybrid.sealWith, SessionKeys.tagOf, List.append_assoc]
  rfl

/-- The length of a point fits its octet on every curve. -/
theorem encryptWith_eq (recipient ephemeral : EcKey) (iv : Octets 16) (message : Bytes) :
    encryptWith recipient ephemeral iv message =
      some (KeySmith.Cipher.Hybrid.encryptWith recipient ephemeral iv message) := by
  have hpoint : ephemeral.pointBytes.length < 256 := by
    have hsize := ephemeral.curve.size_le
    rw [EcKey.length_pointBytes]
    omega
  unfold encryptWith
  simp only [derive_eq, Option.bind_eq_bind, Option.bind_some, sealWith_eq hpoint]
  rfl

/-- What a tag covers is cut in bounds exactly when it holds a vector. -/
theorem openCovered_agrees_iff (keys : SessionKeys) (covered : Bytes) :
    Agrees (openCovered keys covered)
      (unchain keys.cipher (.firstOf 16 covered) (covered.drop 16)) ↔ 16 ≤ covered.length := by
  by_cases hvector : 16 ≤ covered.length
  · refine iff_of_true (.step (splitAt?_of_le hvector) ?_) hvector
    exact .step (ofBytes?_take hvector) (.lift _)
  · have hshort : splitAt? 16 covered = none := splitAt?_eq_none_iff.mpr (Nat.not_le.mp hvector)
    exact iff_of_false (Agrees.stop hshort _) hvector

/-- A body is cut in bounds exactly when it holds a tag and, unless the tag is found to be wrong
before, a vector. -/
theorem openWith_agrees_iff (keys : SessionKeys) (body : Bytes) :
    Agrees (openWith keys body) (KeySmith.Cipher.Hybrid.openWith keys body) ↔
      tagSize ≤ body.length ∧
        (keys.tagOf (body.take (body.length - tagSize)) = body.drop (body.length - tagSize) →
          tagSize + 16 ≤ body.length) := by
  by_cases hlength : tagSize ≤ body.length
  · have hcovered : (body.take (body.length - tagSize)).length = body.length - tagSize := by
      rw [List.length_take]
      omega
    simp only [hlength, true_and]
    unfold openWith KeySmith.Cipher.Hybrid.openWith
    rw [Agrees.value_iff (.some (difference?_of_le hlength)),
      Agrees.value_iff (.some (splitAt?_of_le (Nat.sub_le _ _)))]
    generalize body.take (body.length - tagSize) = covered at hcovered ⊢
    generalize body.drop (body.length - tagSize) = tag
    dsimp only
    by_cases htag : keys.tagOf covered = tag
    · have hok : keys.verify covered tag = .ok () := if_pos htag
      rw [hok, Agrees.value_iff (.lift _), ok_bind, openCovered_agrees_iff]
      simp only [htag, true_implies]
      omega
    · have herror : keys.verify covered tag = .error .tagMismatch := if_neg htag
      rw [herror]
      exact iff_of_true (.error (.lift _)) fun h => absurd h htag
  · have hdifference : difference? body.length tagSize = none := if_neg hlength
    unfold openWith
    rw [hdifference]
    simp only [hlength, false_and, iff_false]
    exact Agrees.stop rfl _

theorem openWith_agrees (keys : SessionKeys) {body : Bytes} (h : shortestBody ≤ body.length) :
    Agrees (openWith keys body) (KeySmith.Cipher.Hybrid.openWith keys body) := by
  have hlengths : tagSize + 16 ≤ shortestBody := by decide
  rw [openWith_agrees_iff]
  exact ⟨by omega, fun _ => hlengths.trans h⟩

theorem decrypt_agrees (k : EcKey) (ciphertext : Bytes) :
    Agrees (decrypt k ciphertext) (KeySmith.Cipher.Hybrid.decrypt k ciphertext) := by
  refine .bind (.lift _) fun d _ => ?_
  cases ciphertext with
  | nil => exact .throw _
  | cons length rest =>
    refine .guard fun hle => ?_
    refine .step (splitAt?_of_le (Nat.not_lt.mp hle)) ?_
    refine .bind (readForm_agrees _ _) fun point _ => .guard fun hlong => ?_
    exact .step (derive_eq _ _) (openWith_agrees _ (Nat.not_lt.mp hlong))

end Hybrid

/-! ### Ciphertexts to Ed25519 keys -/

namespace Stream

open KeySmith.Cipher.Stream (publicSize messageLimit)

/-- Clears the three lowest bits and the highest one and sets the bit below it, each in its octet. -/
def clamp (scalar : Octets 32) : Option (Octets 32) := do
  let low ← update? 0 (· &&& 248) scalar.bytes
  let high ← update? 31 (· &&& 127) low
  Octets.ofBytes? 32 (← update? 31 (· ||| 64) high)

/-- The scalar of a seed, copied from the lower half of its digest. -/
def secretScalar (seed : Octets 32) : Option (Octets 32) := do
  clamp (← Octets.ofBytes? 32 (← upTo? 32 (Hash.sha512.digest seed.bytes).bytes))

/-- The secret of a key on the Montgomery form of the curve. The seed is copied from the pair of the
seed and the point. -/
def montgomerySecret (k : Ed25519Key) : Run Error (Octets 32) := do
  let pair ← Result.ofOption .missingPrivate k.pairBytes?
  secretScalar (← Octets.ofBytes? 32 (← upTo? 32 pair))

/-- The octets that are added to a message, copied from a digest. -/
def keystream (shared : Octets 32) : Option (Octets 64) :=
  Octets.ofBytes? 64 (Hash.sha512.digest shared.bytes).bytes

/-- Decrypts a ciphertext. -/
def decrypt (k : Ed25519Key) (ciphertext : Bytes) : Run Error Bytes := do
  let secret ← montgomerySecret k
  if ciphertext.length < publicSize then throw (.malformed (.text .noEphemeralKey))
  if publicSize + messageLimit < ciphertext.length then
    throw (.inputTooLarge ciphertext.length (publicSize + messageLimit))
  let (point, body) ← splitAt? publicSize ciphertext
  let ephemeral ← Octets.ofBytes? 32 point
  let stream ← keystream (X25519.agree secret ephemeral)
  return Bytes.xor body stream.bytes

/-- A scalar has both octets that are changed. -/
theorem clamp_eq (scalar : Octets 32) : clamp scalar = some (Edwards25519.clamp scalar) := by
  have hlow : update? 0 (· &&& 248) scalar.bytes = some (scalar.bytes.modify 0 (· &&& 248)) :=
    update?_of_lt (by rw [scalar.length_eq]; decide) _
  have hhigh (f : UInt8 → UInt8) {bs : Bytes} (hbs : bs.length = 32) :
      update? 31 f bs = some (bs.modify 31 f) :=
    update?_of_lt (by rw [hbs]; decide) f
  unfold clamp
  simp only [hlow, Option.bind_eq_bind, Option.bind_some]
  rw [hhigh _ (by simp [scalar.length_eq]), Option.bind_some,
    hhigh _ (by simp [scalar.length_eq]), Option.bind_some, Octets.ofBytes?_eq_some_iff]
  apply List.ext_getElem?
  intro place
  simp only [List.getElem?_modify, Edwards25519.clamp, List.getElem?_mapIdx]
  cases scalar.bytes[place]? with
  | none => rfl
  | some b =>
    by_cases hfirst : place = 0
    · subst hfirst
      rfl
    · by_cases hlast : place = 31
      · subst hlast
        rfl
      · simp [hfirst, hlast, Ne.symm hfirst, Ne.symm hlast]

theorem secretScalar_eq (seed : Octets 32) :
    secretScalar seed = some (Edwards25519.secretScalar seed) := by
  have hdigest : 32 ≤ (Hash.sha512.digest seed.bytes).bytes.length := by
    rw [Octets.length_eq]
    decide
  unfold secretScalar
  rw [upTo?_of_le hdigest]
  simp only [Option.bind_eq_bind, Option.bind_some, ofBytes?_take hdigest]
  exact clamp_eq _

theorem montgomerySecret_agrees (k : Ed25519Key) :
    Agrees (montgomerySecret k) k.montgomerySecret := by
  unfold montgomerySecret Ed25519Key.montgomerySecret Ed25519Key.pairBytes?
  cases k.seed with
  | none => exact .throw _
  | some seed =>
    have hpair : 32 ≤ (seed.bytes ++ k.point.bytes).length := by
      rw [List.length_append, seed.length_eq]
      exact Nat.le_add_right _ _
    refine .value (.lift _) (.step (upTo?_of_le hpair) (.step (ofBytes?_take hpair) ?_))
    rw [Octets.firstOf_append]
    exact .some (secretScalar_eq seed)

theorem decrypt_agrees (k : Ed25519Key) (ciphertext : Bytes) :
    Agrees (decrypt k ciphertext) (KeySmith.Cipher.Stream.decrypt k ciphertext) := by
  refine .bind (montgomerySecret_agrees k) fun secret _ => .guard fun hle => .guard fun _ => ?_
  have hlength : publicSize ≤ ciphertext.length := Nat.not_lt.mp hle
  refine .step (splitAt?_of_le hlength) (.step (ofBytes?_take hlength) ?_)
  exact .step (Octets.ofBytes?_bytes _) (.pure _)

end Stream

/-! ### Ciphertexts under a shared key -/

namespace SharedKey

open KeySmith.SharedKey (vectorSize)

/-- Decrypts a ciphertext. -/
def decrypt (k : KeySmith.SharedKey) (ciphertext : Bytes) : Run Error Bytes :=
  if ciphertext.length < vectorSize then throw (.malformed (.text .noVector))
  else do
    let (iv, body) ← splitAt? vectorSize ciphertext
    return Aes.applyKeystream k.bytes (← Octets.ofBytes? 16 iv) body

theorem decrypt_agrees (k : KeySmith.SharedKey) (ciphertext : Bytes) :
    Agrees (decrypt k ciphertext) (k.decrypt ciphertext) := by
  refine .ite (fun _ => .throw _) fun hle => ?_
  have hlength : vectorSize ≤ ciphertext.length := Nat.not_lt.mp hle
  exact .step (splitAt?_of_le hlength) (.step (ofBytes?_take hlength) (.pure _))

end SharedKey

/-! ### All programs -/

open KeySmith.Ssh in
/-- No octet string, no text and no key makes a program reach for something out of bounds. This holds
for reading armored blocks, for every reader of the SSH wire format, for the three SSH formats that
are read, for JSON Web Keys, and for decrypting by each cipher. On every curve key it also holds for
writing a JSON Web Key and for encrypting, whatever is drawn for it. -/
theorem programs_agree :
    (∀ bs, Agrees (Pem.decode bs) (KeySmith.Pem.decode bs)) ∧
    ((∀ count, ReaderAgrees (Ssh.take count) (Reader.take count)) ∧
      ReaderAgrees Ssh.uint32 Reader.uint32 ∧ ReaderAgrees Ssh.string Reader.string ∧
      ReaderAgrees Ssh.text Reader.text ∧ ReaderAgrees Ssh.magnitude Reader.magnitude ∧
      ReaderAgrees Ssh.finish Reader.finish) ∧
    (∀ bs, Agrees (Ssh.decodeContainer bs) (Container.decode bs)) ∧
    (∀ blob, Agrees (Ssh.decodeBlob blob) (decodeBlob blob)) ∧
    (∀ line, Agrees (Ssh.decodeLine line) (AuthorizedLine.decode line)) ∧
    (∀ j, Agrees (Jwk.toKey j) j.toKey ∧ Agrees (Jwk.ecKey j) j.ecKey) ∧
    (∀ k bs, Agrees (Hybrid.decrypt k bs) (Cipher.Hybrid.decrypt k bs)) ∧
    (∀ k bs, Agrees (Stream.decrypt k bs) (Cipher.Stream.decrypt k bs)) ∧
    (∀ k bs, Agrees (SharedKey.decrypt k bs) (k.decrypt bs)) ∧
    (∀ k, Jwk.ofEc k = some (.ofEc k)) ∧
    ∀ recipient ephemeral iv message, Hybrid.encryptWith recipient ephemeral iv message =
      some (Cipher.Hybrid.encryptWith recipient ephemeral iv message) := by
  refine ⟨Pem.decode_agrees, ?_, Ssh.decodeContainer_agrees, Ssh.decodeBlob_agrees,
    Ssh.decodeLine_agrees, ?_, Hybrid.decrypt_agrees, Stream.decrypt_agrees,
    SharedKey.decrypt_agrees, Jwk.ofEc_eq, Hybrid.encryptWith_eq⟩
  · exact ⟨Ssh.take_agrees, Ssh.uint32_agrees, Ssh.string_agrees, Ssh.text_agrees,
      Ssh.magnitude_agrees, Ssh.finish_agrees⟩
  · intro j
    exact ⟨Jwk.toKey_agrees j, Jwk.ecKey_agrees j⟩

end KeySmith.Strict

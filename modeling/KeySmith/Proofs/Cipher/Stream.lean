import KeySmith.Cipher.Stream
import KeySmith.Proofs.Bytes
import KeySmith.Proofs.Curve.StoredPoint
import KeySmith.Proofs.Key
import KeySmith.Proofs.Outcome

/-!
# Decrypting stream ciphertexts

A secret is clamped once, so the ephemeral secret and its clamped form agree on the same value, and
the secret of a seed is clamped already.  The key of a seed belongs to the same multiple of the base
point on both forms of the curve.  So both sides of an agreement come to the same multiple and add
the same keystream, and what is added twice is taken off.  Nothing else about a ciphertext is looked
at: whatever value stands in front, the octets behind it come out with a keystream added to them.
-/

namespace KeySmith

namespace Edwards25519

/-! ### Clamping -/

/-- A scalar is clamped once. -/
@[simp] theorem clamp_clamp (s : Octets 32) : clamp (clamp s) = clamp s := by
  obtain ⟨bs, hbs⟩ := s
  have hlow : ∀ b : UInt8, b &&& 248 &&& 248 = b &&& 248 := by
    intro b
    rw [UInt8.and_assoc, UInt8.and_self]
  have hhigh : ∀ b : UInt8, (b &&& 127 ||| 64) &&& 127 ||| 64 = b &&& 127 ||| 64 := by
    intro b
    apply UInt8.toNat_inj.mp
    refine Nat.eq_of_testBit_eq fun i => ?_
    simp only [UInt8.toNat_or, UInt8.toNat_and, Nat.testBit_or, Nat.testBit_and]
    cases (UInt8.toNat 64).testBit i <;> simp
  apply Octets.ext
  simp only [clamp, List.mapIdx_mapIdx]
  congr 1
  funext place b
  simp only [Function.comp_apply]
  split
  · exact hlow b
  · split
    · exact hhigh b
    · rfl

/-- A clamped scalar has at most 255 bits. -/
theorem toNat_clamp_lt (s : Octets 32) : LittleEndian.toNat (clamp s).bytes < 2 ^ 255 := by
  obtain ⟨bs, hbs⟩ := s
  obtain rfl | ⟨init, last, rfl⟩ := bs.eq_nil_or_concat'
  · cases hbs
  have hinit : init.length = 31 := by simpa using hbs
  have hlast : (last &&& 127 ||| 64).toNat < 2 ^ 7 := by
    rw [UInt8.toNat_or, UInt8.toNat_and]
    exact Nat.or_lt_two_pow (Nat.and_lt_two_pow _ (by decide)) (by decide)
  have hclamp : (clamp ⟨init ++ [last], hbs⟩).bytes =
      init.mapIdx (fun place b => if place = 0 then b &&& 248 else
        if place = 31 then b &&& 127 ||| 64 else b) ++ [last &&& 127 ||| 64] := by
    simp [clamp, List.mapIdx_append, hinit]
  have hlow := BigEndian.toNat_lt (init.mapIdx (fun place b => if place = 0 then b &&& 248 else
    if place = 31 then b &&& 127 ||| 64 else b)).reverse
  rw [List.length_reverse, List.length_mapIdx, hinit] at hlow
  rw [hclamp, LittleEndian.toNat, List.reverse_append, List.reverse_singleton,
    List.singleton_append, BigEndian.toNat_cons, List.length_reverse, List.length_mapIdx, hinit]
  omega

/-! ### Multiples of the base point -/

/-- The multiples of the two base points have the same abscissa on the Montgomery form. -/
theorem toMontgomery_mul_base {k : Nat} (hk : k < 2 ^ 255) :
    toMontgomery (mul k base) = X25519.mul k 9 := by
  obtain ⟨B, hB, hnine⟩ := exists_base
  have hval : (9 : ZMod p).val = 9 := (Modular.eq_val_of_cast (by decide) (by norm_num)).symm
  rw [← hB, mul_coordinates, toMontgomery_coordinates, ← X25519.mul_abscissa hk, hnine, hval]

/-- The stored multiple of the base point is read back. -/
theorem decompress?_compress_mul_base (k : Nat) :
    decompress? (compress (mul k base)) = some (mul k base) := by
  obtain ⟨B, hB, -⟩ := exists_base
  rw [← hB, mul_coordinates, decompress?_compress]

end Edwards25519

namespace X25519

open Edwards25519 (p p_eq clamp)

theorem mul_lt (scalar u : Nat) : mul scalar u < p :=
  Nat.mod_lt _ (by decide)

/-- Multiplications of the base point commute. -/
theorem mul_mul_comm {a b : Nat} (ha : a < 2 ^ 255) (hb : b < 2 ^ 255) :
    mul a (mul b 9) = mul b (mul a 9) := by
  obtain ⟨B, -, hnine⟩ := Edwards25519.exists_base
  have hval : (abscissa B).val = 9 := by
    rw [hnine]
    exact (Modular.eq_val_of_cast (by decide) (by norm_num)).symm
  rw [← hval, mul_abscissa hb, mul_abscissa ha, mul_abscissa ha, mul_abscissa hb, smul_comm]

/-- The number of the clamped form of a secret. -/
def scalarOf (secret : Octets 32) : Nat :=
  LittleEndian.toNat (clamp secret).bytes

theorem scalarOf_lt (secret : Octets 32) : scalarOf secret < 2 ^ 255 :=
  Edwards25519.toNat_clamp_lt secret

theorem scalarOf_secretScalar (seed : Octets 32) :
    scalarOf (Edwards25519.secretScalar seed) =
      LittleEndian.toNat (Edwards25519.secretScalar seed).bytes := by
  rw [scalarOf, Edwards25519.secretScalar, Edwards25519.clamp_clamp]

/-- Secrets with the same clamped form agree on the same. -/
theorem agree_clamp (secret other : Octets 32) :
    agree (clamp secret) other = agree secret other := by
  rw [agree, agree, agree.clamp, Edwards25519.clamp_clamp]

/-- Agreeing with a reduced public value multiplies it. -/
theorem agree_octets (secret : Octets 32) {u : Nat} (hu : u < p) :
    agree secret (LittleEndian.octets 32 u) = LittleEndian.octets 32 (mul (scalarOf secret) u) := by
  have hp := p_eq
  have hpow : (256 : Nat) ^ 32 = 2 ^ 256 := by norm_num
  have hread : LittleEndian.toNat (LittleEndian.octets 32 u).bytes = u :=
    LittleEndian.toNat_octets (by omega)
  rw [agree, hread, twoTo_eq, Nat.mod_eq_of_lt (by omega : u < 2 ^ 255), Nat.mod_eq_of_lt hu]
  rfl

/-- The public value of a secret is a multiple of the base point. -/
theorem publicValue_eq (secret : Octets 32) :
    publicValue secret = LittleEndian.octets 32 (mul (scalarOf secret) 9) :=
  agree_octets secret (by decide)

/-- Both sides of an agreement come to the same value. -/
theorem agree_publicValue (secret other : Octets 32) :
    agree secret (publicValue other) = agree other (publicValue secret) := by
  rw [publicValue_eq, publicValue_eq, agree_octets _ (mul_lt _ _), agree_octets _ (mul_lt _ _),
    mul_mul_comm (scalarOf_lt secret) (scalarOf_lt other)]

end X25519

namespace Ed25519Key

open Edwards25519

/-- There is a key for every seed. -/
theorem exists_ofSeed? (seed : Octets 32) : ∃ k, ofSeed? seed = some k := by
  have hread : (decompress? (publicPoint seed)).isSome := by
    rw [publicPoint, decompress?_compress_mul_base]
    rfl
  exact ⟨_, dif_pos hread⟩

/-- On the Montgomery form the secret of a key and its public value are a pair. -/
theorem montgomeryPublic_eq {k : Ed25519Key} {seed : Octets 32} (hs : k.seed = some seed) :
    k.montgomeryPublic = .ok (X25519.publicValue (secretScalar seed)) := by
  have hpoint : k.point = publicPoint seed := k.isPair seed hs
  have hlt : LittleEndian.toNat (secretScalar seed).bytes < 2 ^ 255 := toNat_clamp_lt _
  rw [montgomeryPublic, montgomeryOf, hpoint, publicPoint, decompress?_compress_mul_base,
    Result.ofOption_some, X25519.publicValue_eq, X25519.scalarOf_secretScalar,
    ← toMontgomery_mul_base hlt]
  rfl

end Ed25519Key

namespace Cipher.Stream

open Edwards25519 (secretScalar)
open X25519 (agree publicValue)

theorem length_keystream (shared : Octets 32) : (keystream shared).length = messageLimit :=
  (Hash.sha512.digest shared.bytes).length_eq

/-- What is encrypted to a key with a public value on the Montgomery form. -/
theorem encryptWith_eq {k : Ed25519Key} {recipient : Octets 32}
    (hk : k.montgomeryPublic = .ok recipient) (ephemeral : Octets 32) {message : Bytes}
    (hmessage : message.length ≤ messageLimit) :
    encryptWith k ephemeral message = .ok ((publicValue ephemeral).bytes ++
      Bytes.xor message (keystream (agree ephemeral recipient))) := by
  rw [encryptWith, if_neg (Nat.not_lt.mpr hmessage), hk]
  rfl

/-! ### Decryption -/

/-- A key without its seed decrypts nothing. -/
theorem decrypt_of_public {k : Ed25519Key} (hk : k.seed = none) (ciphertext : Bytes) :
    decrypt k ciphertext = .error .missingPrivate := by
  rw [decrypt, Ed25519Key.montgomerySecret, hk]
  rfl

/-- A key with its seed has a secret on the Montgomery form. -/
theorem exists_montgomerySecret {k : Ed25519Key} (hk : k.seed ≠ none) :
    ∃ secret, k.montgomerySecret = .ok secret := by
  obtain ⟨seed, hseed⟩ := Option.ne_none_iff_exists'.mp hk
  refine ⟨secretScalar seed, ?_⟩
  rw [Ed25519Key.montgomerySecret, hseed]
  rfl

variable {k : Ed25519Key} {secret : Octets 32}

/-- Octets without room for a public value are no ciphertext. -/
theorem decrypt_of_short (hk : k.montgomerySecret = .ok secret) {ciphertext : Bytes}
    (h : ciphertext.length < publicSize) :
    decrypt k ciphertext = .error (.malformed (.text .noEphemeralKey)) := by
  simp only [decrypt, hk, ok_bind]
  rw [if_pos h]
  rfl

/-- No ciphertext is longer than the one of the longest message. -/
theorem decrypt_of_long (hk : k.montgomerySecret = .ok secret) {ciphertext : Bytes}
    (h : publicSize + messageLimit < ciphertext.length) :
    decrypt k ciphertext =
      .error (.inputTooLarge ciphertext.length (publicSize + messageLimit)) := by
  simp only [decrypt, hk, ok_bind]
  rw [if_neg (by omega), if_pos h]
  rfl

/-- Every public value with at most 64 octets behind it is decrypted, whatever the value is: the
keystream that is added to the octets comes from the value alone. -/
theorem decrypt_append (hk : k.montgomerySecret = .ok secret) (other : Octets 32) {body : Bytes}
    (hbody : body.length ≤ messageLimit) :
    decrypt k (other.bytes ++ body) = .ok (Bytes.xor body (keystream (agree secret other))) := by
  have hlength : (other.bytes ++ body).length = publicSize + body.length := by
    rw [List.length_append, other.length_eq]
    rfl
  have hother : Octets.firstOf 32 (other.bytes ++ body) = other := Octets.firstOf_append other _
  have hdrop : (other.bytes ++ body).drop publicSize = body := List.drop_left' other.length_eq
  simp only [decrypt, hk, ok_bind, hlength, hother, hdrop]
  rw [if_neg (by omega), if_neg (by omega)]
  rfl

/-- A ciphertext is decrypted when both sides agree on the same value. -/
theorem decrypt_append_xor (hk : k.montgomerySecret = .ok secret) (other shared : Octets 32)
    (hshared : agree secret other = shared) {message : Bytes}
    (hmessage : message.length ≤ messageLimit) :
    decrypt k (other.bytes ++ Bytes.xor message (keystream shared)) = .ok message := by
  have hcovers : message.length ≤ (keystream shared).length := by rwa [length_keystream]
  have hbody : (Bytes.xor message (keystream shared)).length ≤ messageLimit := by
    rwa [Bytes.length_xor, min_eq_left hcovers]
  rw [decrypt_append hk other hbody, hshared, Bytes.xor_xor_cancel hcovers]

/-- Octets of a length in range are a public value and at most 64 octets behind it. -/
theorem exists_eq_append {ciphertext : Bytes} (hroom : publicSize ≤ ciphertext.length)
    (hlimit : ciphertext.length ≤ publicSize + messageLimit) :
    ∃ (other : Octets 32) (body : Bytes), ciphertext = other.bytes ++ body ∧
      body.length ≤ messageLimit ∧ body.length = ciphertext.length - publicSize := by
  have htake : (ciphertext.take publicSize).length = 32 := by
    rw [List.length_take, min_eq_left hroom, publicSize]
  have hdrop : (ciphertext.drop publicSize).length = ciphertext.length - publicSize :=
    List.length_drop
  exact ⟨⟨ciphertext.take publicSize, htake⟩, ciphertext.drop publicSize,
    (List.take_append_drop _ _).symm, by omega, hdrop⟩

/-- Encryption to the public half of the key of a seed.  On the Montgomery form the secret and the
public value of the key are a pair.  A message of at most 64 octets is encrypted to 32 octets more,
in the same way under an ephemeral secret and its clamped form, and the key decrypts it.  A longer
message is refused. -/
theorem decrypt_encryptWith_of_seed (seed : Octets 32) :
    ∃ k, Ed25519Key.ofSeed? seed = some k ∧
      (∃ secret, k.montgomerySecret = .ok secret ∧
        k.montgomeryPublic = .ok (agree secret (LittleEndian.octets 32 9))) ∧
      ∀ ephemeral message,
        (message.length ≤ 64 →
          ∃ ciphertext, encryptWith k.toPublic ephemeral message = .ok ciphertext ∧
            encryptWith k.toPublic (Edwards25519.clamp ephemeral) message = .ok ciphertext ∧
            ciphertext.length = 32 + message.length ∧ decrypt k ciphertext = .ok message) ∧
        (64 < message.length →
          encryptWith k.toPublic ephemeral message =
            .error (.inputTooLarge message.length 64)) := by
  obtain ⟨k, hk⟩ := Ed25519Key.exists_ofSeed? seed
  have hs := Ed25519Key.ofSeed?_eq_some_iff.mp hk
  have hsecret : k.montgomerySecret = .ok (secretScalar seed) := by
    rw [Ed25519Key.montgomerySecret, hs]
    rfl
  have hpublic := Ed25519Key.montgomeryPublic_eq hs
  refine ⟨k, hk, ⟨_, hsecret, hpublic⟩, fun ephemeral message =>
    ⟨fun hmessage => ?_, fun hmessage => if_pos hmessage⟩⟩
  change message.length ≤ messageLimit at hmessage
  have hkeystream := length_keystream (agree ephemeral (publicValue (secretScalar seed)))
  have hclamp : publicValue (Edwards25519.clamp ephemeral) = publicValue ephemeral :=
    X25519.agree_clamp ephemeral _
  refine ⟨_, encryptWith_eq hpublic ephemeral hmessage, ?_, ?_, ?_⟩
  · have hencrypt := encryptWith_eq (k := k.toPublic) hpublic (Edwards25519.clamp ephemeral)
      hmessage
    rwa [hclamp, X25519.agree_clamp] at hencrypt
  · rw [List.length_append, Bytes.length_xor, hkeystream, min_eq_left hmessage,
      (publicValue ephemeral).length_eq]
  · exact decrypt_append_xor hsecret _ _ (X25519.agree_publicValue _ _) hmessage

/-- Messages to the key of the zero seed under the zero ephemeral secret, a short one and one that
is an octet too long. -/
theorem decrypt_encryptWith_of_seed_zero :
    ∃ k, Ed25519Key.ofSeed? (.zero 32) = some k ∧
      (∃ ciphertext, encryptWith k.toPublic (.zero 32) [1, 2, 3] = .ok ciphertext ∧
        ciphertext.length = 35 ∧ decrypt k ciphertext = .ok [1, 2, 3]) ∧
      encryptWith k.toPublic (.zero 32) (List.replicate 65 0) = .error (.inputTooLarge 65 64) := by
  obtain ⟨k, hk, -, hmessages⟩ := decrypt_encryptWith_of_seed (.zero 32)
  obtain ⟨ciphertext, hencrypt, -, hlength, hdecrypt⟩ :=
    (hmessages (.zero 32) [1, 2, 3]).1 (by decide)
  have hlong := (hmessages (.zero 32) (List.replicate 65 0)).2 (by decide)
  exact ⟨k, hk, ⟨ciphertext, hencrypt, hlength, hdecrypt⟩, hlong⟩

/-- What decryption does with all octets.  Without the seed of the key they are all refused alike.
With it their number alone decides: too few and too many are refused, and all others are decrypted,
whatever value stands in front of them, to as many octets as stand behind it.  The octets behind one
value come out with one keystream added to them, so two results add up to what the octets do, and a
change to a ciphertext is the same change to the message. -/
theorem decrypt_malleable (k : Ed25519Key) :
    (k.seed = none → ∀ ciphertext, decrypt k ciphertext = .error .missingPrivate) ∧
    (k.seed ≠ none →
      (∀ ciphertext : Bytes,
        (ciphertext.length < 32 →
          decrypt k ciphertext = .error (.malformed (.text .noEphemeralKey))) ∧
        (96 < ciphertext.length →
          decrypt k ciphertext = .error (.inputTooLarge ciphertext.length 96)) ∧
        (32 ≤ ciphertext.length → ciphertext.length ≤ 96 →
          ∃ message, decrypt k ciphertext = .ok message ∧
            message.length = ciphertext.length - 32)) ∧
      ∀ (other : Octets 32) (a b m n : Bytes),
        decrypt k (other.bytes ++ a) = .ok m → decrypt k (other.bytes ++ b) = .ok n →
          Bytes.xor m n = Bytes.xor a b) := by
  refine ⟨decrypt_of_public, fun hseed => ?_⟩
  obtain ⟨secret, hk⟩ := exists_montgomerySecret hseed
  refine ⟨fun ciphertext => ⟨decrypt_of_short hk, decrypt_of_long hk, ?_⟩, ?_⟩
  · intro hroom hlimit
    obtain ⟨other, body, rfl, hbody, hlength⟩ := exists_eq_append hroom hlimit
    refine ⟨_, decrypt_append hk other hbody, ?_⟩
    rw [Bytes.length_xor, length_keystream, min_eq_left hbody, hlength, publicSize]
  · intro other a b m n hm hn
    have hbound {body message : Bytes} (h : decrypt k (other.bytes ++ body) = .ok message) :
        body.length ≤ messageLimit := by
      by_contra hlong
      rw [decrypt_of_long hk (by rw [List.length_append, other.length_eq, publicSize]; omega)] at h
      cases h
    have ha := hbound hm
    have hb := hbound hn
    rw [decrypt_append hk other ha, Except.ok.injEq] at hm
    rw [decrypt_append hk other hb, Except.ok.injEq] at hn
    rw [← hm, ← hn]
    exact Bytes.xor_xor_xor_cancel (by rwa [length_keystream]) (by rwa [length_keystream])

/-- The key of the zero seed at the value 1 of low order: two octets that differ in one bit are
decrypted to octets that differ in this bit.  Without its seed the key decrypts neither, and with it
neither 31 octets nor 97. -/
theorem decrypt_malleable_zero :
    ∃ k, Ed25519Key.ofSeed? (.zero 32) = some k ∧
      (∃ m n, decrypt k ((LittleEndian.octets 32 1).bytes ++ [8]) = .ok m ∧
        decrypt k ((LittleEndian.octets 32 1).bytes ++ [9]) = .ok n ∧ Bytes.xor m n = [1]) ∧
      decrypt k.toPublic ((LittleEndian.octets 32 1).bytes ++ [8]) = .error .missingPrivate ∧
      decrypt k (List.replicate 31 0) = .error (.malformed (.text .noEphemeralKey)) ∧
      decrypt k (List.replicate 97 0) = .error (.inputTooLarge 97 96) := by
  obtain ⟨k, hk⟩ := Ed25519Key.exists_ofSeed? (.zero 32)
  have hseed : k.seed ≠ none := by
    rw [Ed25519Key.ofSeed?_eq_some_iff.mp hk]
    exact Option.some_ne_none _
  obtain ⟨hlengths, hxor⟩ := (decrypt_malleable k).2 hseed
  have hlength (byte : UInt8) : ((LittleEndian.octets 32 1).bytes ++ [byte]).length = 33 := by
    rw [List.length_append, (LittleEndian.octets 32 1).length_eq]
    rfl
  obtain ⟨m, hm, -⟩ := (hlengths _).2.2 (by rw [hlength 8]; decide) (by rw [hlength 8]; decide)
  obtain ⟨n, hn, -⟩ := (hlengths _).2.2 (by rw [hlength 9]; decide) (by rw [hlength 9]; decide)
  refine ⟨k, hk, ⟨m, n, hm, hn, ?_⟩, (decrypt_malleable k.toPublic).1 rfl _, ?_, ?_⟩
  · rw [hxor _ _ _ _ _ hm hn]
    decide
  · exact (hlengths _).1 (by decide)
  · exact (hlengths _).2.1 (by decide)

end Cipher.Stream

end KeySmith

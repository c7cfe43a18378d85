import KeySmith.Cipher.Shared
import KeySmith.Proofs.Aes.Keystream
import KeySmith.Proofs.Outcome
import KeySmith.Proofs.Pem.Layout

/-!
# Decrypting ciphertexts of shared keys

A ciphertext is a vector and a message under the keystream of this vector, so everything with room
for a vector is the ciphertext of one message, and nothing else is one.  Nothing tells a ciphertext
that was made with the key from other octets.
-/

namespace KeySmith

namespace Cipher

/-- A ciphertext is read from its Base64 form, whatever white space stands around it. -/
theorem ofBase64_append (ciphertext : Bytes) {front back : List Char}
    (hfront : ∀ c ∈ front, Text.isBlank c = true) (hback : ∀ c ∈ back, Text.isBlank c = true) :
    ofBase64 (String.ofList (front ++ ((toBase64 ciphertext).toList ++ back))) =
      .ok ciphertext := by
  have hsymbols : ∀ c ∈ (toBase64 ciphertext).toList, Text.isBlank c = false := by
    intro c hc
    rw [toBase64, Base64.encode, String.toList_ofList] at hc
    exact (Pem.isContent_of_mem_encodeChars hc).1
  rw [ofBase64, String.toList_ofList, Text.trim_append_append hfront hsymbols hback,
    String.ofList_toList, toBase64, Base64.decodeText_encode Base64.standard_isFaithful,
    Result.of_ok]

end Cipher

namespace SharedKey

variable (k : SharedKey) (iv : Octets 16)

/-- A vector and octets behind it are decrypted by the keystream of the vector. -/
theorem decrypt_append (body : Bytes) :
    k.decrypt (iv.bytes ++ body) = .ok (Aes.applyKeystream k.bytes iv body) := by
  have hroom : ¬ (iv.bytes ++ body).length < vectorSize := by
    rw [List.length_append, iv.length_eq, vectorSize]
    omega
  rw [decrypt, if_neg hroom, Octets.firstOf_append, vectorSize, List.drop_left' iv.length_eq]

/-- Octets with room for a vector are a vector and octets behind it. -/
theorem exists_eq_append {ciphertext : Bytes} (h : vectorSize ≤ ciphertext.length) :
    ∃ (iv : Octets 16) (body : Bytes), ciphertext = iv.bytes ++ body := by
  refine ⟨⟨ciphertext.take vectorSize, ?_⟩, ciphertext.drop vectorSize, ?_⟩
  · rw [List.length_take, min_eq_left h, vectorSize]
  · exact (List.take_append_drop _ _).symm

/-- Octets are decrypted exactly when they have room for a vector. -/
theorem exists_decrypt_iff (ciphertext : Bytes) :
    (∃ message, k.decrypt ciphertext = .ok message) ↔ vectorSize ≤ ciphertext.length := by
  constructor
  · rintro ⟨message, h⟩
    by_contra hshort
    rw [decrypt, if_pos (not_le.mp hshort)] at h
    cases h
  · intro h
    obtain ⟨iv, body, rfl⟩ := exists_eq_append h
    exact ⟨_, k.decrypt_append iv body⟩

/-- Octets that are decrypted to a message are its ciphertext with the vector in front of them. -/
theorem encryptWith_of_decrypt {ciphertext message : Bytes}
    (h : k.decrypt ciphertext = .ok message) (hiv : iv.bytes = ciphertext.take vectorSize) :
    k.encryptWith iv message = ciphertext := by
  obtain ⟨v, body, rfl⟩ := exists_eq_append ((k.exists_decrypt_iff ciphertext).mp ⟨_, h⟩)
  rw [vectorSize, List.take_left' v.length_eq] at hiv
  obtain rfl := Octets.ext hiv
  rw [decrypt_append, Except.ok.injEq] at h
  rw [encryptWith, ← h, Aes.applyKeystream_applyKeystream]

/-- What a key of 16, 24 or 32 octets does.  The ciphertext of a message is the vector and as many
octets as the message has, and is decrypted to the message.  The octets of two messages under one
vector add up to what the messages add up to, as far as the shorter one reaches: the keystream has
no part of the messages in it.  Octets are decrypted exactly when they have room for a vector, and
then they are the ciphertext of what they are decrypted to.  In Base64 white space around a
ciphertext does not matter. -/
theorem decrypt_encryptWith_of_length {key : Bytes}
    (hkey : key.length = 16 ∨ key.length = 24 ∨ key.length = 32) :
    ∃ k, ofBytes key = .ok k ∧ k.bytes = key ∧
      (∀ iv message, k.decrypt (k.encryptWith iv message) = .ok message ∧
        ∃ body, k.encryptWith iv message = iv.bytes ++ body ∧ body.length = message.length) ∧
      (∀ iv p q, Bytes.xor ((k.encryptWith iv p).drop 16) ((k.encryptWith iv q).drop 16) =
        Bytes.xor p q) ∧
      ∀ ciphertext,
        ((∃ message, k.decrypt ciphertext = .ok message) ↔ 16 ≤ ciphertext.length) ∧
        (∀ message, k.decrypt ciphertext = .ok message →
          ∀ iv : Octets 16, iv.bytes = ciphertext.take 16 →
            k.encryptWith iv message = ciphertext) ∧
        ∀ front back, (∀ c ∈ front ++ back, Text.isBlank c = true) →
          (Cipher.ofBase64 (String.ofList
            (front ++ ((Cipher.toBase64 ciphertext).toList ++ back))) >>= k.decrypt) =
              k.decrypt ciphertext := by
  refine ⟨⟨key, hkey⟩, dif_pos hkey, rfl, fun iv message => ⟨?_, ?_⟩, fun iv p q => ?_,
    fun ciphertext => ⟨exists_decrypt_iff _ _, fun message h iv hiv => ?_,
      fun front back hblank => ?_⟩⟩
  · rw [encryptWith, decrypt_append, Aes.applyKeystream_applyKeystream]
  · exact ⟨_, rfl, Aes.length_applyKeystream key iv message⟩
  · rw [encryptWith, encryptWith, List.drop_left' iv.length_eq, List.drop_left' iv.length_eq,
      Aes.xor_applyKeystream]
  · exact encryptWith_of_decrypt _ iv h hiv
  · obtain ⟨hfront, hback⟩ := List.forall_mem_append.mp hblank
    rw [Cipher.ofBase64_append ciphertext hfront hback, ok_bind]

/-- The key of 24 zero octets decrypts its ciphertext of a message that does not fill a block, also
in Base64 behind a no-break space and in front of a line break, and its ciphertexts of two messages
differ as the messages do. -/
theorem decrypt_encryptWith_of_length_24 :
    ∃ k, ofBytes (List.replicate 24 0) = .ok k ∧
      k.decrypt (k.encryptWith (.zero 16) [1, 2, 3]) = .ok [1, 2, 3] ∧
      Bytes.xor ((k.encryptWith (.zero 16) [1, 2, 3]).drop 16)
        ((k.encryptWith (.zero 16) [5, 2]).drop 16) = [4, 0] ∧
      (Cipher.ofBase64 (String.ofList (['\u00a0'] ++
        ((Cipher.toBase64 (k.encryptWith (.zero 16) [1, 2, 3])).toList ++ ['\n']))) >>= k.decrypt) =
          .ok [1, 2, 3] := by
  have hkey : (List.replicate 24 (0 : UInt8)).length = 24 := by decide
  obtain ⟨k, hk, -, hcipher, hxor, hoctets⟩ :=
    decrypt_encryptWith_of_length (.inr (.inl hkey))
  have hmessage := (hcipher (.zero 16) [1, 2, 3]).1
  have hspace : Text.isBlank '\u00a0' = true := by decide
  have hfeed : Text.isBlank '\n' = true := by decide
  have hblank : ∀ c ∈ ['\u00a0'] ++ ['\n'], Text.isBlank c = true :=
    List.forall_mem_cons.mpr ⟨hspace, List.forall_mem_singleton.mpr hfeed⟩
  refine ⟨k, hk, hmessage, ?_, ?_⟩
  · rw [hxor]
    decide
  · rw [(hoctets _).2.2 _ _ hblank, hmessage]

end SharedKey

end KeySmith

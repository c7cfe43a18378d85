import KeySmith.Der.Pkcs1
import KeySmith.Proofs.Der.Element
import KeySmith.Proofs.Key

/-!
# Reading RSA key bodies back

A public body is exactly what is written for the key that it is read as.  A private body is read
back as the key it was written for; the numbers for the Chinese remainder theorem in it are not
looked at.
-/

namespace KeySmith.Der.Pkcs1

variable {bs rest : Bytes}

/-! ### Public bodies -/

/-- Reading a modulus and an exponent undoes writing them. -/
theorem readPublic_eq_some_iff {n e : Nat} :
    readPublic bs = some ((n, e), rest) ↔
      (naturalBytes n ++ naturalBytes e).length < lengthLimit ∧
        bs = sequenceBytes [naturalBytes n, naturalBytes e] ++ rest := by
  have hparts : [naturalBytes n, naturalBytes e].flatten = naturalBytes n ++ naturalBytes e := by
    simp
  unfold readPublic
  rw [sequence_eq_some_iff]
  simp only [Reader.bind_eq_some_iff, natural_eq_some_iff, Reader.pure_eq_some_iff, Prod.mk.injEq]
  constructor
  · rintro ⟨_, hlimit, rfl, _, _, ⟨-, rfl⟩, _, _, ⟨-, rfl⟩, ⟨rfl, rfl⟩, rfl⟩
    rw [List.append_nil] at hlimit ⊢
    exact ⟨hlimit, by rw [sequenceBytes_eq, hparts]⟩
  · rintro ⟨hlimit, rfl⟩
    rw [← hparts] at hlimit
    refine ⟨_, hlimit, rfl, n, naturalBytes e, ⟨length_naturalContent_lt hlimit (by simp), hparts⟩,
      e, [], ⟨length_naturalContent_lt hlimit (by simp), (List.append_nil _).symm⟩, ⟨rfl, rfl⟩, rfl⟩

/-- The modulus and the exponent in the public body of a key are read back. -/
theorem readDocument?_publicBytes {k : RsaKey} (hlimit : (publicBytes k).length < lengthLimit) :
    readDocument? readPublic (publicBytes k) = some (k.n, k.e) := by
  have hbody : (naturalBytes k.n ++ naturalBytes k.e).length < lengthLimit := by
    have hlen := length_lt_length_element sequenceTag (naturalBytes k.n ++ naturalBytes k.e)
    have hbytes : publicBytes k = element sequenceTag (naturalBytes k.n ++ naturalBytes k.e) := by
      simp [publicBytes, sequenceBytes_eq]
    rw [hbytes] at hlimit
    exact hlen.trans hlimit
  exact readDocument?_eq_some_iff.mpr ⟨hlimit, readPublic_eq_some_iff.mpr
    ⟨hbody, (List.append_nil _).symm⟩⟩

/-- A public body is read exactly when it is the one of a key whose modulus is not too large. -/
theorem parsePublic_eq_ok_iff {error : PublicInfoFault → Error} {k : RsaKey} :
    parsePublic error bs = .ok k ↔
      bs.length < lengthLimit ∧ bs = publicBytes k ∧ k.bits ≤ RsaKey.sizeLimit ∧
        k.secret = none := by
  unfold parsePublic
  constructor
  · intro h
    split at h
    · cases h
    · rename_i n e hread
      obtain ⟨hlimit, hread⟩ := readDocument?_eq_some_iff.mp hread
      obtain ⟨-, rfl⟩ := readPublic_eq_some_iff.mp hread
      rw [Result.of_eq_ok_iff, RsaKey.ofPublic_eq_ok_iff] at h
      obtain ⟨hsize, rfl, rfl, hsecret⟩ := h
      rw [List.append_nil] at hlimit ⊢
      exact ⟨hlimit, rfl, hsize, hsecret⟩
  · rintro ⟨hlimit, rfl, hsize, hsecret⟩
    rw [readDocument?_publicBytes hlimit]
    exact Result.of_eq_ok_iff.mpr (RsaKey.ofPublic_eq_ok_iff.mpr ⟨hsize, rfl, rfl, hsecret⟩)

/-- The public body of a key is read as its public half and as no other key, wherever it stands, and
only when its modulus is not too large. -/
theorem parsePublic_publicBytes_eq_ok_iff {error : PublicInfoFault → Error} {k l : RsaKey}
    (hlimit : (publicBytes k).length < lengthLimit) :
    parsePublic error (publicBytes k) = .ok l ↔ k.bits ≤ RsaKey.sizeLimit ∧ l = k.toPublic := by
  rw [parsePublic, readDocument?_publicBytes hlimit]
  simp only [Result.of_eq_ok_iff, RsaKey.ofPublic_eq_ok_iff]
  constructor
  · rintro ⟨hsize, hn, he, hsecret⟩
    exact ⟨hsize, RsaKey.eq_of_numbers hn he hsecret⟩
  · rintro ⟨hsize, rfl⟩
    exact ⟨hsize, rfl, rfl, rfl⟩

/-- The public body of a key is read as its public half, wherever it stands, exactly when its
modulus is not too large. -/
theorem parsePublic_publicBytes_iff {error : PublicInfoFault → Error} {k : RsaKey}
    (hlimit : (publicBytes k).length < lengthLimit) :
    parsePublic error (publicBytes k) = .ok k.toPublic ↔ k.bits ≤ RsaKey.sizeLimit := by
  rw [parsePublic_publicBytes_eq_ok_iff hlimit]
  exact and_iff_left rfl

/-- The public body that is written for a key is read as its public half, exactly when its modulus
is not too large. -/
theorem decodePublic_encodePublic_iff {k : RsaKey} {out : Bytes} (h : encodePublic k = .ok out) :
    decodePublic out = .ok k.toPublic ↔ k.bits ≤ RsaKey.sizeLimit := by
  rw [encodePublic, Result.ofOption_eq_ok_iff, document?_eq_some_iff] at h
  obtain ⟨hlimit, rfl⟩ := h
  exact parsePublic_publicBytes_iff hlimit

/-! ### Private bodies -/

/-- The parts of a private body without further primes. -/
def PrivateBody.parts (b : PrivateBody) : List Bytes :=
  [naturalBytes 0, naturalBytes b.n, naturalBytes b.e, naturalBytes b.d, naturalBytes b.p,
    naturalBytes b.q, naturalBytes b.dp, naturalBytes b.dq, naturalBytes b.qi]

/-- A private body without further primes is read back. -/
theorem readPrivate_parts {b : PrivateBody} (hmore : b.hasMore = false)
    (hlimit : b.parts.flatten.length < lengthLimit) :
    readPrivate (sequenceBytes b.parts) = some (b, []) := by
  have hlen : ∀ n, naturalBytes n ∈ b.parts → (naturalContent n).length < lengthLimit :=
    fun n => length_naturalContent_lt hlimit
  have hflat : b.parts.flatten = naturalBytes 0 ++ (naturalBytes b.n ++ (naturalBytes b.e ++
      (naturalBytes b.d ++ (naturalBytes b.p ++ (naturalBytes b.q ++ (naturalBytes b.dp ++
      (naturalBytes b.dq ++ (naturalBytes b.qi ++ [])))))))) := by
    simp [PrivateBody.parts]
  unfold readPrivate
  rw [sequence_eq_some_iff]
  refine ⟨b.parts.flatten, hlimit, (List.append_nil _).symm, ?_⟩
  rw [hflat]
  simp only [Reader.bind_eq_some_iff, naturalBelow_eq_some_iff, natural_eq_some_iff]
  refine ⟨0, _, ⟨by decide, hlen 0 (by simp [PrivateBody.parts]), rfl⟩,
    b.n, _, ⟨hlen b.n (by simp [PrivateBody.parts]), rfl⟩,
    b.e, _, ⟨hlen b.e (by simp [PrivateBody.parts]), rfl⟩,
    b.d, _, ⟨hlen b.d (by simp [PrivateBody.parts]), rfl⟩,
    b.p, _, ⟨hlen b.p (by simp [PrivateBody.parts]), rfl⟩,
    b.q, _, ⟨hlen b.q (by simp [PrivateBody.parts]), rfl⟩,
    b.dp, _, ⟨hlen b.dp (by simp [PrivateBody.parts]), rfl⟩,
    b.dq, _, ⟨hlen b.dq (by simp [PrivateBody.parts]), rfl⟩,
    b.qi, _, ⟨hlen b.qi (by simp [PrivateBody.parts]), rfl⟩, false, [], rfl, ?_⟩
  rw [if_pos (by decide), ← hmore]
  exact Reader.pure_eq_some_iff.mpr ⟨rfl, rfl⟩

/-- What is written for a private key is a body with its numbers and no further primes. -/
theorem privateBytes_eq_ok {k : RsaKey} {out : Bytes} (h : privateBytes k = .ok out) :
    ∃ b : PrivateBody, b.hasMore = false ∧ out = sequenceBytes b.parts ∧ k.n = b.n ∧ k.e = b.e ∧
      k.secret = some ⟨b.d, [b.p, b.q]⟩ := by
  unfold privateBytes at h
  split at h
  · rename_i c s hcrt hs
    split at h
    · rename_i hmore
      cases h
      obtain ⟨c', hc, hc'⟩ := k.exists_crt hs
      obtain rfl : c = c' := Option.some.inj (hcrt.symm.trans hc')
      have hprimes := (RsaSecret.more_eq_nil_iff hc).mp (List.isEmpty_iff.mp hmore)
      refine ⟨⟨k.n, k.e, s.d, c.p, c.q, c.dp, c.dq, c.qi, false⟩, rfl, rfl, rfl, rfl, ?_⟩
      rw [hs, ← hprimes]
    · cases h
  · cases h

/-- A private body without further primes is read as the key with its numbers, wherever it stands.
What it says about the Chinese remainder theorem does not matter. -/
theorem parsePrivate_eq_ok_iff {error : PrivateInfoFault → Error} {k : RsaKey} :
    parsePrivate error bs = .ok k ↔
      ∃ b, readDocument? readPrivate bs = some b ∧ b.hasMore = false ∧ k.n = b.n ∧ k.e = b.e ∧
        k.secret = some ⟨b.d, [b.p, b.q]⟩ := by
  unfold parsePrivate
  cases readDocument? readPrivate bs with
  | none => simp
  | some b =>
    cases hmore : b.hasMore with
    | true => simp [hmore]
    | false => simp [hmore, RsaKey.ofSecret_eq_ok_iff]

/-- The private body that is written for a key is read back, wherever it stands. -/
theorem parsePrivate_privateBytes {error : PrivateInfoFault → Error} {k : RsaKey} {out : Bytes}
    (h : privateBytes k = .ok out) (hlimit : out.length < lengthLimit) :
    parsePrivate error out = .ok k := by
  obtain ⟨b, hmore, rfl, hn, he, hs⟩ := privateBytes_eq_ok h
  have hparts : b.parts.flatten.length < lengthLimit :=
    (length_lt_length_element sequenceTag b.parts.flatten).trans hlimit
  have hread : readDocument? readPrivate (sequenceBytes b.parts) = some b :=
    readDocument?_eq_some_iff.mpr ⟨hlimit, readPrivate_parts hmore hparts⟩
  exact parsePrivate_eq_ok_iff.mpr ⟨b, hread, hmore, hn, he, hs⟩

/-- The private body that is written for a key is read back. -/
theorem decodePrivate_encodePrivate {k : RsaKey} {out : Bytes} (h : encodePrivate k = .ok out) :
    decodePrivate out = .ok k := by
  simp only [encodePrivate, guard_eq_ok_iff, bind_eq_ok_iff, Result.of_eq_ok_iff,
    Result.ofOption_eq_ok_iff, document?_eq_some_iff] at h
  obtain ⟨-, body, hbody, hlimit, rfl⟩ := h
  exact parsePrivate_privateBytes hbody hlimit

/-- A key whose private body is not too long has a modulus of at most `2 ^ 30` bits, since its primes
together are as long as the modulus. -/
theorem bits_le_of_privateBytes {k : RsaKey} {out : Bytes} (h : privateBytes k = .ok out)
    (hlimit : out.length < lengthLimit) : k.bits ≤ 2 ^ 30 := by
  rcases privateBytes_eq_ok h with ⟨b, hmore, rfl, hn, -, hs⟩
  have hparts := (length_lt_length_element sequenceTag b.parts.flatten).trans hlimit
  simp only [PrivateBody.parts, List.flatten_cons, List.length_append] at hparts
  have hproduct : b.p * b.q = k.n := by
    rw [← k.foldl_primes hs]
    exact congrArg (· * b.q) (Nat.one_mul b.p).symm
  have hsize : BigEndian.size k.n ≤ BigEndian.size b.p + BigEndian.size b.q := by
    rw [BigEndian.size_le_iff, ← hproduct, pow_add]
    exact Nat.mul_lt_mul'' (BigEndian.lt_pow_size b.p) (BigEndian.lt_pow_size b.q)
  have hp := size_le_length_naturalBytes b.p
  have hq := size_le_length_naturalBytes b.q
  have hmodulus : BigEndian.size k.n ≤ (naturalBytes b.n).length :=
    hn ▸ size_le_length_naturalBytes b.n
  have hbits : k.bits ≤ 8 * BigEndian.size k.n := by
    rw [RsaKey.bits, BigEndian.size]
    omega
  rw [lengthLimit_eq] at hparts
  omega

end KeySmith.Der.Pkcs1

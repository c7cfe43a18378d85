import Mathlib.NumberTheory.LucasLehmer
import KeySmith.Proofs.Cipher.Rsa
import KeySmith.Proofs.Export
import KeySmith.Proofs.NewKey
import KeySmith.Proofs.Settings

/-!
# Sizes of new RSA keys

The settings and the generator accept the same sizes, the multiples of 8 from 1024.  Of every such
size, consistent numbers make a private key, the generator makes one whenever it draws two numbers
without a common factor, and the file of a private key is read back.  Only the public half of a key
has a largest size: beyond 4096 bits it is written and not read (`newSize_readable_iff`).
-/

namespace KeySmith

variable {bits p q d n : Nat}

/-- The settings are valid when the size is one of new keys. -/
theorem Settings.exists_validate_iff {s : Settings} :
    (∃ t, s.validate = .ok t) ↔ 1024 ≤ s.rsaBits ∧ s.rsaBits % 8 = 0 := by
  simp only [validate_eq_ok_iff, exists_and_left, exists_eq, and_true, isRsaSize_iff]

namespace RsaKey

/-! ### Consistent numbers -/

/-- An odd modulus of some size has no fault with the exponent of new keys. -/
theorem publicFault?_newExponent (hbits : 18 ≤ BigEndian.bitLength n) (hodd : n % 2 = 1) :
    publicFault? n newExponent = none := by
  have hlarge : ¬ n < 2 ^ 17 := fun h => by
    have hle := (BigEndian.bitLength_le_iff n 17).mpr h
    omega
  have hexponent : newExponent = 65537 := rfl
  unfold publicFault?
  rw [if_neg (by decide), if_neg (by omega), if_neg (by decide), if_neg (by decide),
    if_neg (by decide)]

/-- Whether two primes and a private exponent are the numbers of a key of a size with the exponent of
new keys: the exponents belong to each other, and no factor is common to the primes or even. -/
structure IsConsistent (bits d p q : Nat) : Prop where
  isFor : RsaSecret.IsFor ⟨d, [p, q]⟩ (p * q) newExponent
  coprime : p.Coprime q
  odd : p * q % 2 = 1
  bitLength_eq : BigEndian.bitLength (p * q) = bits

/-- Consistent numbers of some size make a key. -/
theorem IsConsistent.exists_ofSecret (h : IsConsistent bits d p q) (hbits : 18 ≤ bits) :
    ∃ k, ∀ error, ofSecret error (p * q) newExponent ⟨d, [p, q]⟩ = .ok k := by
  have hp : 0 < p := by
    have hone := (h.isFor.2 p (by simp)).1
    omega
  exact exists_ofSecret_of_crt (publicFault?_newExponent (h.bitLength_eq ▸ hbits) h.odd) h.isFor
    (RsaSecret.exists_crt_of_inverse? d ((Modular.isSome_inverse?_iff hp).mpr h.coprime.symm))

/-! ### Keys that are made -/

/-- A key of a size with the exponent of new keys, two primes and a reduced private exponent. -/
structure IsNew (bits : Nat) (k : RsaKey) : Prop where
  bits_eq : k.bits = bits
  e_eq : k.e = newExponent
  exists_secret : ∃ d p q, k.secret = some ⟨d, [p, q]⟩ ∧ d < k.n

theorem IsCandidate.pos (h : IsCandidate bits p) : 0 < p - 1 := by
  obtain ⟨hlower, -⟩ := h.range
  have hpos : 0 < 2 ^ (bits - 2) := Nat.two_pow_pos _
  omega

/-- The inverse of the exponent modulo a product belongs to both factors. -/
theorem isFor_of_inverse? {e : Nat} (hp : 1 < p) (hq : 1 < q)
    (hd : Modular.inverse? ((p - 1) * (q - 1)) e = some d) :
    RsaSecret.IsFor ⟨d, [p, q]⟩ (p * q) e := by
  have hinverse : d * e ≡ 1 [MOD (p - 1) * (q - 1)] := by
    rw [Nat.mul_comm d e]
    exact Modular.mul_of_inverse? hd
  refine ⟨by simp, ?_⟩
  rw [List.forall_mem_cons, List.forall_mem_singleton]
  exact ⟨⟨hp, hinverse.of_mul_right _⟩, hq, hinverse.of_mul_left _⟩

/-- The inverse of the exponent makes two candidates without a common factor consistent. -/
theorem isConsistent_of_inverse? {a b : Nat} (ha : 2 ≤ a) (hb : 2 ≤ b) (hp : IsCandidate a p)
    (hq : IsCandidate b q) (hcoprime : p.Coprime q)
    (hd : Modular.inverse? ((p - 1) * (q - 1)) newExponent = some d) :
    IsConsistent (a + b) d p q where
  isFor := by
    have hppos := hp.pos
    have hqpos := hq.pos
    exact isFor_of_inverse? (by omega) (by omega) hd
  coprime := hcoprime
  odd := by rw [Nat.mul_mod, hp.odd, hq.odd]
  bitLength_eq := bitLength_mul ha hb hp.range hq.range

/-- Two candidates make a key exactly when they have no common factor. -/
theorem exists_ofPrimes?_iff {a b : Nat} (ha : 9 ≤ a) (hb : 9 ≤ b) (hp : IsCandidate a p)
    (hq : IsCandidate b q) : (∃ k, ofPrimes? p q = some k) ↔ p.Coprime q := by
  have hppos := hp.pos
  constructor
  · rintro ⟨k, hk⟩
    obtain ⟨d, -, -, -, hs⟩ := ofPrimes?_eq_some_iff.mp hk
    obtain ⟨c, hc, -⟩ := k.exists_crt hs
    obtain ⟨⟨rest, hprimes, -⟩, hqi, -⟩ := RsaSecret.crt_eq_ok_iff.mp hc
    obtain ⟨rfl, rfl, -⟩ : p = c.p ∧ q = c.q ∧ rest = [] := by simpa [eq_comm] using hprimes
    exact ((Modular.isSome_inverse?_iff (by omega)).mp (Option.isSome_of_mem hqi)).symm
  · intro hcoprime
    have hexponent : newExponent.Coprime ((p - 1) * (q - 1)) :=
      (hp.coprime.mul_left hq.coprime).symm
    obtain ⟨d, hd⟩ := Option.isSome_iff_exists.mp
      ((Modular.isSome_inverse?_iff (Nat.mul_pos hppos hq.pos)).mpr hexponent)
    have hnumbers := isConsistent_of_inverse? (by omega) (by omega) hp hq hcoprime hd
    obtain ⟨k, hk⟩ := hnumbers.exists_ofSecret (by omega)
    exact ⟨k, ofPrimes?_eq_some_iff.mpr
      ⟨d, hd, ofSecret_eq_ok_iff.mp (hk fun _ => .failure .rsaGeneration)⟩⟩

/-- A key of a size is made whenever two numbers without a common factor are drawn. -/
theorem exists_generate_iff {source : Entropy} (hbits : 18 ≤ bits) :
    (∃ k, (generate bits source).1 = .ok k) ↔
      ∃ p q, DrawsPrimes bits source p q ∧ p.Coprime q := by
  simp only [generate_eq_ok_iff]
  constructor
  · rintro ⟨k, p, q, hdraws, hk⟩
    obtain ⟨hp, hq⟩ := hdraws.isCandidate (by omega)
    exact ⟨p, q, hdraws, (exists_ofPrimes?_iff (by omega) (by omega) hp hq).mp ⟨k, hk⟩⟩
  · rintro ⟨p, q, hdraws, hcoprime⟩
    obtain ⟨hp, hq⟩ := hdraws.isCandidate (by omega)
    obtain ⟨k, hk⟩ := (exists_ofPrimes?_iff (by omega) (by omega) hp hq).mpr hcoprime
    exact ⟨k, p, q, hdraws, hk⟩

/-- Where no key is made, the reason is that the numbers drawn make none. -/
theorem generate_eq_error {source : Entropy} {e : Error} (h : (generate bits source).1 = .error e) :
    e = .failure .rsaGeneration := by
  simp only [generate, Draw.bind_apply, Draw.pure_apply, Result.ofOption] at h
  split at h
  · cases h
  · cases h
    rfl

/-- A key of two candidates is a new one of both sizes together. -/
theorem isNew_of_ofPrimes? {a b : Nat} {k : RsaKey} (ha : 2 ≤ a) (hb : 2 ≤ b)
    (hp : IsCandidate a p) (hq : IsCandidate b q) (hk : ofPrimes? p q = some k) :
    IsNew (a + b) k := by
  obtain ⟨d, hd, hn, he, hs⟩ := ofPrimes?_eq_some_iff.mp hk
  have hlt : d < k.n :=
    calc d < (p - 1) * (q - 1) := Modular.lt_of_inverse? (Nat.mul_pos hp.pos hq.pos) hd
      _ ≤ p * q := Nat.mul_le_mul (Nat.sub_le p 1) (Nat.sub_le q 1)
      _ = k.n := hn.symm
  exact ⟨by rw [RsaKey.bits, hn, bitLength_mul ha hb hp.range hq.range], he, d, p, q, hs, hlt⟩

/-- A key that is made is a new one of the size. -/
theorem isNew_of_generate {source : Entropy} {k : RsaKey} (hbits : 6 ≤ bits)
    (h : (generate bits source).1 = .ok k) : IsNew bits k := by
  obtain ⟨p, q, hdraws, hk⟩ := generate_eq_ok_iff.mp h
  obtain ⟨hp, hq⟩ := hdraws.isCandidate hbits
  have hnew := isNew_of_ofPrimes? (by omega) (by omega) hp hq hk
  rwa [show bits / 2 + (bits - bits / 2) = bits by omega] at hnew

end RsaKey

namespace Key

/-- Of a size that is accepted a key is made whenever two numbers without a common factor are drawn,
it is a new one of the size, and there is one reason to make none. -/
theorem generate_rsa_of_isRsaSize (hsize : isRsaSize bits = true) (source : Entropy) :
    ((∃ k, (generate (.rsa bits) source).1 = .ok k) ↔
      ∃ p q, RsaKey.DrawsPrimes bits source p q ∧ p.Coprime q) ∧
    (∀ k, (generate (.rsa bits) source).1 = .ok k → ∃ r, k = .rsa r ∧ r.IsNew bits) ∧
    ∀ e, (generate (.rsa bits) source).1 = .error e → e = .failure .rsaGeneration := by
  have hbits : 1024 ≤ bits := (isRsaSize_iff.mp hsize).1
  rw [generate_rsa, if_pos hsize, ← RsaKey.exists_generate_iff (by omega)]
  rcases hmade : (RsaKey.generate bits source).1 with e | r
  · refine ⟨by simp, fun k hk => ?_, fun f hf => ?_⟩
    · cases hk
    · cases hf
      exact RsaKey.generate_eq_error hmade
  · refine ⟨by simp, fun k hk => ?_, fun f hf => ?_⟩
    · cases hk
      exact ⟨r, rfl, RsaKey.isNew_of_generate (by omega) hmade⟩
    · cases hf

/-- The size is to blame exactly when it is not accepted. -/
theorem generate_rsa_eq_error_iff {source : Entropy} :
    (generate (.rsa bits) source).1 = .error (.failure (.rsaKeySize bits)) ↔
      isRsaSize bits = false := by
  rcases hsize : isRsaSize bits with _ | _
  · rw [generate_rsa, hsize]
    exact iff_of_true rfl rfl
  · refine iff_of_false (fun h => ?_) (by decide)
    cases (generate_rsa_of_isRsaSize hsize source).2.2 _ h

end Key

/-! ### Files -/

namespace RsaKey.IsNew

variable {k : RsaKey}

theorem isPrivate (h : k.IsNew bits) : (Key.rsa k).isPrivate = true := by
  obtain ⟨d, p, q, hs, -⟩ := h.exists_secret
  rw [Key.isPrivate, hs, Option.isSome_some]

theorem isTwoPrime (h : k.IsNew bits) : (Key.rsa k).IsTwoPrime := by
  obtain ⟨d, p, q, hs, -⟩ := h.exists_secret
  exact (Key.isTwoPrime_rsa_iff hs).mpr rfl

/-- The private exponent is no longer than the modulus. -/
theorem isModest (h : k.IsNew bits) (hbits : bits ≤ 2 ^ 27) : (Key.rsa k).IsModest := by
  rintro _ ⟨rfl⟩
  have hmodulus : k.bits ≤ 2 ^ 27 := h.bits_eq ▸ hbits
  refine ⟨hmodulus, fun s hs => ?_⟩
  obtain ⟨d, p, q, hs', hd⟩ := h.exists_secret
  obtain rfl := Option.some.inj (hs'.symm.trans hs)
  rw [BigEndian.bitLength_le_iff]
  exact hd.trans ((BigEndian.bitLength_le_iff _ _).mp hmodulus)

/-- The file of a new key is the text of its numbers. -/
theorem encode_eq (h : k.IsNew bits) (check : UInt32) :
    KeyFile.encode check (.rsa k) = ExportFormat.encode check "" .pkcs1 (.rsa k) := by
  rw [KeyFile.encode, if_pos h.isPrivate, ExportFormat.encode]
  · rfl
  · exact h.isPrivate

end RsaKey.IsNew

/-- What the files of a new key do. -/
structure RsaKey.HasFiles (k : RsaKey) : Prop where
  /-- The private file is written unless its contents are too long. -/
  exists_encode_iff : ∀ check, (∃ text, KeyFile.encode check (.rsa k) = .ok text) ↔
    ExportFormat.pkcs1.Fits (.rsa k)
  /-- The public file is written unless its contents are too long. -/
  exists_encodePublic_iff : (∃ text, KeyFile.encodePublic (.rsa k) = .ok text) ↔
    ExportFormat.pkix.Fits (.rsa k)
  /-- Up to `2 ^ 27` bits nothing is too long. -/
  fits : k.bits ≤ 2 ^ 27 → ExportFormat.pkcs1.Fits (.rsa k) ∧ ExportFormat.pkix.Fits (.rsa k)
  /-- The private file is read back. -/
  decode_encode : ∀ check text, KeyFile.encode check (.rsa k) = .ok text →
    KeyFile.decode (Text.toBytes text) = .ok (.rsa k)
  /-- The public file is read as the public half, unless it has more than 4096 bits. -/
  decode_encodePublic_iff : ∀ text, KeyFile.encodePublic (.rsa k) = .ok text →
    (KeyFile.decode (Text.toBytes text) = .ok (.rsa k.toPublic) ↔ k.bits ≤ sizeLimit)

theorem RsaKey.IsNew.hasFiles {k : RsaKey} (h : k.IsNew bits) : k.HasFiles where
  exists_encode_iff check := by
    rw [h.encode_eq check, (ExportFormat.failsUnless_pkcs1 k).exists_eq_ok_iff]
    exact and_iff_right h.isTwoPrime
  exists_encodePublic_iff :=
    (@ExportFormat.failsUnless_pkix 0 "" (.rsa k)).exists_eq_ok_iff
  fits hbits := by
    have hmodest := h.isModest (h.bits_eq ▸ hbits)
    exact ⟨ExportFormat.fits_of_isModest hmodest, ExportFormat.fits_of_isModest hmodest⟩
  decode_encode check text htext := by
    rw [KeyFile.encode, if_pos h.isPrivate] at htext
    exact KeyFile.decode_encodePrivate htext
  decode_encodePublic_iff text htext :=
    (KeyFile.decode_encodePublic_iff htext).trans (Key.isReadable_rsa k)

namespace RsaKey

/-! ### Keys of two Mersenne primes -/

/-- A Mersenne number is a candidate if its predecessor has no factor in common with the exponent. -/
theorem isCandidate_mersenne {a : Nat} (ha : 3 ≤ a)
    (hcoprime : (mersenne a - 1).Coprime newExponent) : IsCandidate a (mersenne a) where
  range := by
    have hpower : 2 ^ a = 2 ^ 2 * 2 ^ (a - 2) := by
      rw [← pow_add]
      congr 1
      omega
    have hlarge : 2 ^ 1 ≤ 2 ^ (a - 2) := Nat.pow_le_pow_right (by decide) (by omega)
    rw [mersenne]
    omega
  odd := by
    have hpower : 2 ^ a = 2 * 2 ^ (a - 1) := by
      rw [← pow_succ']
      congr 1
      omega
    have hpos : 0 < 2 ^ (a - 1) := Nat.two_pow_pos _
    rw [mersenne]
    omega
  coprime := hcoprime

theorem prime_mersenne_521 : (mersenne 521).Prime :=
  lucas_lehmer_sufficiency _ (by norm_num) (by norm_num)

theorem prime_mersenne_607 : (mersenne 607).Prime :=
  lucas_lehmer_sufficiency _ (by norm_num) (by norm_num)

theorem prime_mersenne_1279 : (mersenne 1279).Prime :=
  lucas_lehmer_sufficiency _ (by norm_num) (by norm_num)

theorem prime_mersenne_3217 : (mersenne 3217).Prime :=
  lucas_lehmer_sufficiency _ (by norm_num) (by norm_num)

/-- Two Mersenne primes that are candidates have a private exponent, and make a key. -/
theorem exists_isConsistent_mersenne {a b : Nat} (hab : 9 ≤ a ∧ a < b) (ha : (mersenne a).Prime)
    (hb : (mersenne b).Prime) (hcoprime : (mersenne a - 1).Coprime newExponent)
    (hcoprime' : (mersenne b - 1).Coprime newExponent) :
    ∃ d k, IsConsistent (a + b) d (mersenne a) (mersenne b) ∧ IsNew (a + b) k ∧
      k.secret = some ⟨d, [mersenne a, mersenne b]⟩ := by
  have hp := isCandidate_mersenne (by omega) hcoprime
  have hq := isCandidate_mersenne (by omega) hcoprime'
  have hdistinct : (mersenne a).Coprime (mersenne b) :=
    (Nat.coprime_primes ha hb).mpr (strictMono_mersenne hab.2).ne
  obtain ⟨k, hk⟩ := (exists_ofPrimes?_iff (by omega) (by omega) hp hq).mpr hdistinct
  obtain ⟨d, hd, -, -, hs⟩ := ofPrimes?_eq_some_iff.mp hk
  exact ⟨d, k, isConsistent_of_inverse? (by omega) (by omega) hp hq hdistinct hd,
    isNew_of_ofPrimes? (by omega) (by omega) hp hq hk, hs⟩

/-! ### Sizes that are accepted -/

/-- The sizes that the settings and the generator accept, and what keys of these sizes are good for.
Consistent numbers of such a size make a private key, and the public half is read by its numbers up to
4096 bits and refused for its size beyond.  The generator makes a key whenever it draws two numbers
without a common factor, and never fails because of the size.  What it makes has a private file that
is read back, and a public file that is read up to 4096 bits. -/
theorem newSize_readable_iff (bits : Nat) :
    (∀ s : Settings, (∃ t, s.validate = .ok t) ↔ 1024 ≤ s.rsaBits ∧ s.rsaBits % 8 = 0) ∧
    (∀ source, (Key.generate (.rsa bits) source).1 = .error (.failure (.rsaKeySize bits)) ↔
      ¬ (1024 ≤ bits ∧ bits % 8 = 0)) ∧
    (1024 ≤ bits ∧ bits % 8 = 0 →
      (∀ d p q, IsConsistent bits d p q →
        ∃ k : RsaKey, (∀ error, ofSecret error (p * q) newExponent ⟨d, [p, q]⟩ = .ok k) ∧
          ofPublic (p * q) newExponent =
            if bits ≤ sizeLimit then .ok k.toPublic else .error .modulusTooLarge) ∧
      (∀ source,
        ((∃ k, (Key.generate (.rsa bits) source).1 = .ok k) ↔
          ∃ p q, DrawsPrimes bits source p q ∧ p.Coprime q) ∧
        (∀ k, (Key.generate (.rsa bits) source).1 = .ok k →
          ∃ r, k = .rsa r ∧ r.IsNew bits) ∧
        ∀ e, (Key.generate (.rsa bits) source).1 = .error e → e = .failure .rsaGeneration) ∧
      ∀ k : RsaKey, k.IsNew bits → k.HasFiles) := by
  refine ⟨fun s => Settings.exists_validate_iff, fun source => ?_, fun hsize =>
    ⟨fun d p q hnumbers => ?_,
      Key.generate_rsa_of_isRsaSize (isRsaSize_iff.mpr hsize), fun k h => h.hasFiles⟩⟩
  · rw [Key.generate_rsa_eq_error_iff, ← isRsaSize_iff, Bool.not_eq_true]
  · obtain ⟨k, hk⟩ := hnumbers.exists_ofSecret (by omega)
    obtain ⟨hn, he, -⟩ := ofSecret_eq_ok_iff.mp (hk fun _ => .failure .rsaGeneration)
    refine ⟨k, hk, ?_⟩
    rw [← hnumbers.bitLength_eq, ← hn, ← he]
    exact ofPublic_eq k

/-- Two Mersenne primes of 521 and 607 bits make a key of 1128 bits, whose public half is read. -/
theorem newSize_readable_1128 :
    (1024 ≤ 1128 ∧ 1128 % 8 = 0) ∧ ∃ d k, IsConsistent 1128 d (mersenne 521) (mersenne 607) ∧
      IsNew 1128 k ∧ k.secret = some ⟨d, [mersenne 521, mersenne 607]⟩ ∧ k.HasFiles ∧
      ∃ made : RsaKey, (∀ error, ofSecret error (mersenne 521 * mersenne 607) newExponent
          ⟨d, [mersenne 521, mersenne 607]⟩ = .ok made) ∧
        ofPublic (mersenne 521 * mersenne 607) newExponent = .ok made.toPublic := by
  obtain ⟨d, k, hnumbers, hnew, hs⟩ := exists_isConsistent_mersenne (by decide)
    prime_mersenne_521 prime_mersenne_607 (by decide +kernel) (by decide +kernel)
  have hsize : 1024 ≤ 1128 ∧ 1128 % 8 = 0 := by decide
  obtain ⟨-, -, hgood⟩ := newSize_readable_iff 1128
  obtain ⟨hconsistent, -, hfiles⟩ := hgood hsize
  obtain ⟨made, hmade, hpublic⟩ := hconsistent _ _ _ hnumbers
  exact ⟨hsize, d, k, hnumbers, hnew, hs, hfiles k hnew, made, hmade, hpublic⟩

/-- Two Mersenne primes of 1279 and 3217 bits make a key of 4496 bits, a size that the settings and the
generator accept.  Its public half is refused, by its numbers and in its file. -/
theorem exists_ofPublic_eq_error :
    ({ rsaBits := 4496 } : Settings).validate = .ok { rsaBits := 4496 } ∧ isRsaSize 4496 = true ∧
      (mersenne 1279).Prime ∧ (mersenne 3217).Prime ∧
      ∃ d k, IsConsistent 4496 d (mersenne 1279) (mersenne 3217) ∧
        (∀ error, ofSecret error (mersenne 1279 * mersenne 3217) newExponent
          ⟨d, [mersenne 1279, mersenne 3217]⟩ = .ok k) ∧
        ofPublic (mersenne 1279 * mersenne 3217) newExponent = .error .modulusTooLarge ∧
        ∃ text, KeyFile.encodePublic (.rsa k) = .ok text ∧
          KeyFile.decode (Text.toBytes text) ≠ .ok (.rsa k.toPublic) := by
  obtain ⟨d, k, hnumbers, hnew, hs⟩ := exists_isConsistent_mersenne (by decide)
    prime_mersenne_1279 prime_mersenne_3217 (by decide +kernel) (by decide +kernel)
  have hfiles := hnew.hasFiles
  have hbits : k.bits = 4496 := hnew.bits_eq
  obtain ⟨text, htext⟩ :=
    hfiles.exists_encodePublic_iff.mpr (hfiles.fits (by rw [hbits]; decide)).2
  have hn : k.n = mersenne 1279 * mersenne 3217 := by
    have hproduct := k.foldl_primes hs
    rw [← hproduct]
    simp
  have hkey : ∀ error, ofSecret error (mersenne 1279 * mersenne 3217) newExponent
      ⟨d, [mersenne 1279, mersenne 3217]⟩ = .ok k := fun error =>
    ofSecret_eq_ok_iff.mpr ⟨hn, hnew.e_eq, hs⟩
  have hpublic : ofPublic k.n k.e = .error .modulusTooLarge := by
    rw [ofPublic_eq, if_neg (by rw [hbits]; decide)]
  rw [hn, hnew.e_eq] at hpublic
  refine ⟨Settings.validate_eq_ok_iff.mpr ⟨by decide, rfl⟩, by decide, prime_mersenne_1279,
    prime_mersenne_3217, d, k, hnumbers, hkey, hpublic, text, htext, fun hread => ?_⟩
  have hle := (hfiles.decode_encodePublic_iff text htext).mp hread
  rw [hbits] at hle
  exact absurd hle (by decide)

end RsaKey

end KeySmith

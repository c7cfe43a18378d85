import KeySmith.Key.Generate
import KeySmith.Proofs.Cipher.Stream

/-!
# What new keys are

A new key is of the kind that was asked for and has a secret.  Both primes of a new RSA key have
their two highest bits set, so the modulus has exactly as many bits as were asked for.
-/

namespace KeySmith

/-- The private keys of a kind. -/
inductive KeySpec.Makes : KeySpec → Key → Prop
  /-- A key with two primes and a modulus of the size. -/
  | rsa {bits : Nat} {k : RsaKey} {s : RsaSecret} (hs : k.secret = some s)
      (hprimes : s.primes.length = 2) (hbits : k.bits = bits) : Makes (.rsa bits) (.rsa k)
  | ecdsa {c : Curve} {k : EcKey} (hcurve : k.curve = c) (hscalar : k.scalar.isSome) :
      Makes (.ecdsa c) (.ecdsa k)
  | ed25519 {k : Ed25519Key} (hseed : k.seed.isSome) : Makes .ed25519 (.ed25519 k)

namespace KeySpec.Makes

variable {spec : KeySpec} {k : Key}

theorem isPrivate (h : spec.Makes k) : k.isPrivate = true := by
  cases h with
  | @rsa bits r s hs hprimes hbits => rw [Key.isPrivate, hs, Option.isSome_some]
  | ecdsa hcurve hscalar => exact hscalar
  | ed25519 hseed => exact hseed

theorem algorithm (h : spec.Makes k) : k.algorithm = spec.algorithm := by
  cases h <;> rfl

/-- The public half of a key of a kind can be read by itself, unless the kind are RSA keys of more
than 4096 bits. -/
theorem isReadable_iff (h : spec.Makes k) :
    k.IsReadable ↔ ∀ bits, spec = .rsa bits → bits ≤ RsaKey.sizeLimit := by
  cases h with
  | @rsa bits r s hs hprimes hbits =>
    rw [Key.isReadable_rsa, hbits]
    simp
  | ecdsa hcurve hscalar => exact iff_of_true (Key.isReadable_ecdsa _) (by simp)
  | ed25519 hseed => exact iff_of_true (Key.isReadable_ed25519 _) (by simp)

end KeySpec.Makes

/-! ### Draws -/

namespace Draw

variable {α β : Type}

theorem bind_apply (d : Draw α) (f : α → Draw β) (source : Entropy) :
    (d >>= f) source = f (d source).1 (d source).2 :=
  rfl

theorem pure_apply (a : α) (source : Entropy) : (pure a : Draw α) source = (a, source) :=
  rfl

end Draw

/-! ### Primes -/

theorem isRsaSize_iff {bits : Nat} : isRsaSize bits = true ↔ 1024 ≤ bits ∧ bits % 8 = 0 := by
  rw [isRsaSize, smallestRsaBits, Bool.and_eq_true, decide_eq_true_eq, beq_iff_eq]

/-- What a search finds is wanted, and an even number of steps behind the start. -/
theorem Primality.search?_eq_some {bases : List Nat} {wanted : Nat → Bool} {count start p : Nat}
    (h : search? bases wanted count start = some p) :
    start ≤ p ∧ p % 2 = start % 2 ∧ wanted p = true := by
  induction count generalizing start with
  | zero => cases h
  | succ count ih =>
    rw [search?] at h
    split at h
    · rename_i hfound
      obtain rfl := Option.some.inj h
      exact ⟨le_rfl, rfl, (Bool.and_eq_true_iff.mp hfound).2⟩
    · obtain ⟨hstart, hparity, hwanted⟩ := ih h
      exact ⟨by omega, by omega, hwanted⟩

namespace RsaKey

/-- Whether a number of the size may become a prime of a new key: its two highest bits are set, it is
odd, and its predecessor has no factor in common with the exponent. -/
structure IsCandidate (bits p : Nat) : Prop where
  range : 3 * 2 ^ (bits - 2) < p ∧ p < 2 ^ bits
  odd : p % 2 = 1
  coprime : (p - 1).Coprime newExponent

/-- A prime that is drawn is a candidate. -/
theorem drawPrime?_eq_some {bits p : Nat} {source : Entropy} (hbits : 3 ≤ bits)
    (h : (drawPrime? bits source).1 = some p) : IsCandidate bits p := by
  simp only [drawPrime?, Draw.bind_apply, Draw.pure_apply] at h
  obtain ⟨hstart, hparity, hwanted⟩ := Primality.search?_eq_some h
  simp only [Bool.and_eq_true, decide_eq_true_eq, beq_iff_eq, twoTo_eq] at hstart hparity hwanted
  have heven : 2 ^ (bits - 2) = 2 * 2 ^ (bits - 3) := by
    rw [← pow_succ']
    congr 1
    omega
  exact ⟨⟨by omega, hwanted.1⟩, by omega, hwanted.2⟩

/-- The product of two numbers with their two highest bits set has as many bits as both. -/
theorem bitLength_mul {a b p q : Nat} (ha : 2 ≤ a) (hb : 2 ≤ b)
    (hp : 3 * 2 ^ (a - 2) < p ∧ p < 2 ^ a) (hq : 3 * 2 ^ (b - 2) < q ∧ q < 2 ^ b) :
    BigEndian.bitLength (p * q) = a + b := by
  have hupper : p * q < 2 ^ (a + b) := by
    rw [pow_add]
    exact Nat.mul_lt_mul'' hp.2 hq.2
  have hlower : 2 ^ (a + b - 1) ≤ p * q := by
    calc 2 ^ (a + b - 1) = 8 * (2 ^ (a - 2) * 2 ^ (b - 2)) := by
          rw [← pow_add, show a + b - 1 = 3 + (a - 2 + (b - 2)) by omega, pow_add 2 3]
          rfl
      _ ≤ 9 * (2 ^ (a - 2) * 2 ^ (b - 2)) := Nat.mul_le_mul_right _ (by decide)
      _ = 3 * 2 ^ (a - 2) * (3 * 2 ^ (b - 2)) := by ring
      _ ≤ p * q := Nat.mul_le_mul hp.1.le hq.1.le
  have hle := (BigEndian.bitLength_le_iff (p * q) (a + b)).mpr hupper
  have hge : ¬ BigEndian.bitLength (p * q) ≤ a + b - 1 := by
    rw [BigEndian.bitLength_le_iff]
    omega
  omega

/-- The key of two primes has the reduced inverse of the exponent for its private exponent. -/
theorem ofPrimes?_eq_some_iff {p q : Nat} {k : RsaKey} :
    ofPrimes? p q = some k ↔ ∃ d, Modular.inverse? ((p - 1) * (q - 1)) newExponent = some d ∧
      k.n = p * q ∧ k.e = newExponent ∧ k.secret = some ⟨d, [p, q]⟩ := by
  simp only [ofPrimes?, Option.bind_eq_bind, Option.bind_eq_some_iff]
  refine exists_congr fun d => and_congr_right fun _ => ?_
  rw [← @ofSecret_eq_ok_iff fun _ => .failure .rsaGeneration]
  rcases ofSecret (fun _ => .failure .rsaGeneration) (p * q) newExponent ⟨d, [p, q]⟩ with e | made
  · exact iff_of_false (fun h => by cases h) fun h => by cases h
  · rw [Except.ok.injEq]
    exact Option.some_inj

/-- Whether a source gives two numbers for the primes of a key of the size. -/
def DrawsPrimes (bits : Nat) (source : Entropy) (p q : Nat) : Prop :=
  (drawPrime? (bits / 2) source).1 = some p ∧
    (drawPrime? (bits - bits / 2) (drawPrime? (bits / 2) source).2).1 = some q

/-- Two numbers that are drawn are candidates of half the size. -/
theorem DrawsPrimes.isCandidate {bits p q : Nat} {source : Entropy} (hbits : 6 ≤ bits)
    (h : DrawsPrimes bits source p q) :
    IsCandidate (bits / 2) p ∧ IsCandidate (bits - bits / 2) q :=
  ⟨drawPrime?_eq_some (by omega) h.1, drawPrime?_eq_some (by omega) h.2⟩

/-- The product of two numbers that are drawn has the size. -/
theorem DrawsPrimes.bitLength_eq {bits p q : Nat} {source : Entropy} (hbits : 6 ≤ bits)
    (h : DrawsPrimes bits source p q) : BigEndian.bitLength (p * q) = bits := by
  obtain ⟨hp, hq⟩ := h.isCandidate hbits
  rw [bitLength_mul (by omega) (by omega) hp.range hq.range]
  omega

/-- A key is made from two numbers that are drawn, or none is made. -/
theorem generate_eq_ok_iff {bits : Nat} {source : Entropy} {k : RsaKey} :
    (generate bits source).1 = .ok k ↔
      ∃ p q, DrawsPrimes bits source p q ∧ ofPrimes? p q = some k := by
  simp only [generate, Draw.bind_apply, Draw.pure_apply, Result.ofOption_eq_ok_iff,
    Option.bind_eq_bind, Option.bind_eq_some_iff, DrawsPrimes]
  constructor
  · rintro ⟨p, hp, q, hq, hkey⟩
    exact ⟨p, q, ⟨hp, hq⟩, hkey⟩
  · rintro ⟨p, q, ⟨hp, hq⟩, hkey⟩
    exact ⟨p, hp, q, hq, hkey⟩

/-- A key that is made has two primes and a modulus of the size. -/
theorem generate_eq_ok {bits : Nat} {source : Entropy} {k : RsaKey} (hbits : 6 ≤ bits)
    (h : (generate bits source).1 = .ok k) :
    ∃ s, k.secret = some s ∧ s.primes.length = 2 ∧ k.bits = bits := by
  obtain ⟨p, q, hdraws, hkey⟩ := generate_eq_ok_iff.mp h
  obtain ⟨d, -, hn, -, hs⟩ := ofPrimes?_eq_some_iff.mp hkey
  exact ⟨_, hs, rfl, by rw [RsaKey.bits, hn, hdraws.bitLength_eq hbits]⟩

end RsaKey

/-- A key on a curve that is drawn lies on the curve and has a scalar. -/
theorem Cipher.Hybrid.drawKey?_eq_some {c : Curve} {tries : Nat} {source : Entropy} {k : EcKey}
    (h : (drawKey? c tries source).1 = some k) : k.curve = c ∧ k.scalar.isSome := by
  induction tries generalizing source with
  | zero => cases h
  | succ tries ih =>
    rw [drawKey?, Draw.bind_apply] at h
    rcases hkey : EcKey.ofScalar? c (Draw.below c.params.order source).1 with _ | found
    · rw [hkey] at h
      exact ih h
    · rw [hkey] at h
      obtain rfl := Option.some.inj h
      obtain ⟨hcurve, hscalar⟩ := EcKey.ofScalar?_eq_some_iff.mp hkey
      exact ⟨hcurve, by rw [hscalar]; rfl⟩

namespace Key

/-- A key is made of the sizes that are accepted, and the size is the fault of all others. -/
theorem generate_rsa (bits : Nat) (source : Entropy) :
    (generate (.rsa bits) source).1 =
      if isRsaSize bits then .rsa <$> (RsaKey.generate bits source).1
      else .error (.failure (.rsaKeySize bits)) := by
  rw [generate]
  split
  · rw [Draw.bind_apply, Draw.pure_apply]
    rfl
  · rw [Draw.pure_apply]

/-- A key that is made is of the kind that was asked for. -/
theorem makes_of_generate {spec : KeySpec} {source : Entropy} {k : Key}
    (h : (generate spec source).1 = .ok k) : spec.Makes k := by
  cases spec with
  | rsa bits =>
    rw [generate_rsa] at h
    split at h
    · rename_i hsize
      obtain ⟨r, hr, rfl⟩ := map_eq_ok_iff.mp h
      have hbits : 1024 ≤ bits := (isRsaSize_iff.mp hsize).1
      obtain ⟨s, hs, hprimes, hbits⟩ := RsaKey.generate_eq_ok (by omega) hr
      exact .rsa hs hprimes hbits
    · cases h
  | ecdsa c =>
    rw [generate, Draw.bind_apply, Draw.pure_apply] at h
    obtain ⟨r, hr, rfl⟩ := map_eq_ok_iff.mp h
    obtain ⟨hcurve, hscalar⟩ :=
      Cipher.Hybrid.drawKey?_eq_some (Result.ofOption_eq_ok_iff.mp hr)
    exact .ecdsa hcurve hscalar
  | ed25519 =>
    rw [generate, Draw.bind_apply, Draw.pure_apply] at h
    obtain ⟨r, hr, rfl⟩ := map_eq_ok_iff.mp h
    have hseed := Ed25519Key.ofSeed?_eq_some_iff.mp (Result.ofOption_eq_ok_iff.mp hr)
    exact .ed25519 (by rw [hseed, Option.isSome_some])

/-- Every seed makes an Ed25519 key. -/
theorem exists_generate_ed25519 (source : Entropy) :
    ∃ k, (generate .ed25519 source).1 = .ok k := by
  rcases Ed25519Key.exists_ofSeed? (Draw.octets 32 source).1 with ⟨k, hk⟩
  refine ⟨.ed25519 k, ?_⟩
  rw [generate, Draw.bind_apply, Draw.pure_apply, hk, Result.ofOption_some]
  rfl

end Key

end KeySmith

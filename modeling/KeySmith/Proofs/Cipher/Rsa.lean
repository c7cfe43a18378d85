import KeySmith.Cipher.Rsa
import KeySmith.Proofs.Curve.Primes
import KeySmith.Proofs.Halves

/-!
# Decrypting RSA ciphertexts

Modulo each prime the two exponents undo each other, also on multiples of the prime
(`pow_modEq_self`).  The private operation starts from the result modulo the second prime and extends
it by one prime after the other; a step of this kind keeps what is known modulo the product so far
(`modEq_step`), so by induction over the primes the message comes back modulo their product.  That
the primes are different is needed for the extension only, and every checked key has the inverses
that it takes.

A block is smaller than the modulus because of its leading zero octet, and the filler is found in it
because it has no zero octet; a drawn filler is of this kind (`Draw.nonzero_length_ne_zero`).  Two or
more different primes, with exponents that belong to them, make a key (`RsaKey.exists_ofSecret`).
-/

namespace KeySmith

/-! ### Powers modulo a prime -/

/-- A power with an exponent that is 1 modulo a prime less one is the number itself. -/
theorem pow_modEq_self {p k : Nat} (hp : p.Prime) (hk : k % (p - 1) = 1) (m : Nat) :
    m ^ k ≡ m [MOD p] := by
  have : Fact p.Prime := ⟨hp⟩
  have hsplit : k = (p - 1) * (k / (p - 1)) + 1 := by
    conv_lhs => rw [← Nat.div_add_mod k (p - 1), hk]
  rw [← ZMod.natCast_eq_natCast_iff, Nat.cast_pow]
  by_cases hm : (m : ZMod p) = 0
  · rw [hm, hsplit, zero_pow (Nat.succ_ne_zero _)]
  · rw [hsplit, pow_succ, pow_mul, ZMod.pow_card_sub_one_eq_one hm, one_pow, one_mul]

/-- A power is undone modulo a prime by any reduced form of the inverse exponent. -/
theorem pow_mod_pow_modEq_self {p e d n m : Nat} (hp : p.Prime) (hdvd : p ∣ n)
    (hexponents : e * d % (p - 1) = 1) :
    Modular.pow p (m ^ e % n) (d % (p - 1)) ≡ m [MOD p] := by
  have hone : e * (d % (p - 1)) % (p - 1) = 1 := by rw [Nat.mul_mod_mod, hexponents]
  calc Modular.pow p (m ^ e % n) (d % (p - 1))
      = (m ^ e % n) ^ (d % (p - 1)) % p := Modular.pow_eq _ _ _
    _ ≡ (m ^ e % n) ^ (d % (p - 1)) [MOD p] := Nat.mod_modEq _ _
    _ ≡ (m ^ e) ^ (d % (p - 1)) [MOD p] := ((Nat.mod_modEq _ n).of_dvd hdvd).pow _
    _ = m ^ (e * (d % (p - 1))) := (pow_mul m e _).symm
    _ ≡ m [MOD p] := pow_modEq_self hp hone m

/-! ### Keys with primes -/

namespace RsaSecret

/-- Primes that differ from each other and have no factor in common with a product have residues for
the Chinese remainder theorem. -/
theorem exists_residues (d product : Nat) {primes : List Nat}
    (hpos : ∀ p ∈ primes, 0 < p) (hproduct : ∀ p ∈ primes, product.Coprime p)
    (hprimes : primes.Pairwise Nat.Coprime) : ∃ rs, residues d product primes = .ok rs := by
  induction primes generalizing product with
  | nil => exact ⟨[], rfl⟩
  | cons p primes ih =>
    obtain ⟨hp, hrest⟩ := List.pairwise_cons.mp hprimes
    obtain ⟨coefficient, hcoefficient⟩ := Option.isSome_iff_exists.mp
      ((Modular.isSome_inverse?_iff (hpos p List.mem_cons_self)).mpr
        (hproduct p List.mem_cons_self))
    obtain ⟨rs, hrs⟩ := ih (product * p)
      (fun q hq => hpos q (List.mem_cons_of_mem p hq))
      (fun q hq => (hproduct q (List.mem_cons_of_mem p hq)).mul_left (hp q hq)) hrest
    refine ⟨⟨p, d % (p - 1), product, coefficient⟩ :: rs, ?_⟩
    rw [residues, hcoefficient]
    simp only [hrs, ok_bind]
    rfl

/-- Two or more different primes have all the numbers for the Chinese remainder theorem. -/
theorem exists_crt_of_primes {s : RsaSecret} (hlength : 2 ≤ s.primes.length)
    (hnodup : s.primes.Nodup) (hprimes : ∀ p ∈ s.primes, p.Prime) : ∃ c, s.crt = .ok c := by
  have hpos : ∀ p ∈ s.primes, 0 < p := fun p hp => (hprimes p hp).pos
  have hcoprime : s.primes.Pairwise Nat.Coprime := by
    refine List.Pairwise.imp_of_mem ?_ hnodup
    intro p q hp hq hne
    exact (Nat.coprime_primes (hprimes p hp) (hprimes q hq)).mpr hne
  rcases hlist : s.primes with _ | ⟨p, _ | ⟨q, rest⟩⟩
  · simp [hlist] at hlength
  · simp [hlist] at hlength
  rw [hlist] at hpos hcoprime
  obtain ⟨hp, hothers⟩ := List.pairwise_cons.mp hcoprime
  obtain ⟨hq, hrest⟩ := List.pairwise_cons.mp hothers
  obtain ⟨qi, hqi⟩ := Option.isSome_iff_exists.mp
    ((Modular.isSome_inverse?_iff (hpos p (by simp))).mpr (hp q (by simp)).symm)
  obtain ⟨rs, hrs⟩ := exists_residues s.d (p * q)
    (fun r hr => hpos r (by simp [hr]))
    (fun r hr => (hp r (by simp [hr])).mul_left (hq r hr)) hrest
  exact ⟨⟨p, q, s.d % (p - 1), s.d % (q - 1), qi, rs⟩,
    crt_eq_ok_iff.mpr ⟨⟨rest, hlist, hrs⟩, hqi, rfl, rfl⟩⟩

end RsaSecret

/-- The modulus of a key is odd. -/
theorem RsaKey.mod_two_ne_zero {n e : Nat} (h : publicFault? n e = none) : n % 2 ≠ 0 := by
  intro heven
  rw [publicFault?] at h
  split at h
  · cases h
  rw [if_pos (.inr heven)] at h
  cases h

/-- Numbers that belong to a modulus in range make a key if they have the numbers for the Chinese
remainder theorem. -/
theorem RsaKey.exists_ofSecret_of_crt {n e : Nat} {s : RsaSecret}
    (hpublic : publicFault? n e = none) (hfor : s.IsFor n e) (hcrt : ∃ c, s.crt = .ok c) :
    ∃ k, ∀ error, ofSecret error n e s = .ok k := by
  obtain ⟨hproduct, hexponents⟩ := hfor
  have hodd : n % 2 ≠ 0 := RsaKey.mod_two_ne_zero hpublic
  have hfault : secretFault? n e s = none := by
    refine secretFault?_eq_none_iff.mpr ⟨hpublic, fun p hp => (hexponents p hp).1,
      List.prod_eq_foldl.symm.trans hproduct, fun p hp => ?_⟩
    have hne : p ≠ 2 := by
      rintro rfl
      have hdvd : 2 ∣ n := hproduct ▸ List.dvd_prod hp
      omega
    obtain ⟨hlt, hinverse⟩ := hexponents p hp
    calc e * s.d % (p - 1) = s.d * e % (p - 1) := by rw [Nat.mul_comm]
      _ = 1 % (p - 1) := hinverse
      _ = 1 := Nat.mod_eq_of_lt (by omega)
  obtain ⟨c, hc⟩ := hcrt
  exact ⟨⟨n, e, some s, hpublic, fun t ht => by cases ht; exact ⟨hfault, c, hc⟩⟩,
    fun error => ofSecret_eq_ok_iff.mpr ⟨rfl, rfl, rfl⟩⟩

/-- Two or more different primes and an exponent that belong to a modulus in range make a key. -/
theorem RsaKey.exists_ofSecret {n e : Nat} {s : RsaSecret} (hpublic : publicFault? n e = none)
    (hfor : s.IsFor n e) (hlength : 2 ≤ s.primes.length) (hnodup : s.primes.Nodup)
    (hprimes : ∀ p ∈ s.primes, p.Prime) : ∃ k, ∀ error, ofSecret error n e s = .ok k :=
  exists_ofSecret_of_crt hpublic hfor (RsaSecret.exists_crt_of_primes hlength hnodup hprimes)

/-! ### The private operation -/

namespace Cipher.Rsa

/-- A number that is right modulo a product is made right modulo one more prime. -/
theorem modEq_step {p product coefficient x y m : Nat} (hp : 0 < p)
    (hcoefficient : Modular.inverse? p product = some coefficient) (hx : x ≡ m [MOD product])
    (hy : y ≡ m [MOD p]) :
    x + Modular.sub p y (x % p) * coefficient % p * product ≡ m [MOD product * p] := by
  have hmul : product * coefficient ≡ 1 [MOD p] := Modular.mul_of_inverse? hcoefficient
  have hcoprime : Nat.Coprime product p := Nat.coprime_of_mul_modEq_one coefficient hmul
  refine (Nat.modEq_and_modEq_iff_modEq_mul hcoprime).mp ⟨?_, ?_⟩
  · calc x + Modular.sub p y (x % p) * coefficient % p * product
        ≡ x + 0 [MOD product] := (Nat.modEq_zero_iff_dvd.mpr (Nat.dvd_mul_left _ _)).add_left x
      _ ≡ m [MOD product] := hx
  · have : NeZero p := ⟨hp.ne'⟩
    rw [← ZMod.natCast_eq_natCast_iff] at hmul hy ⊢
    rw [Nat.cast_mul, Nat.cast_one] at hmul
    rw [Nat.cast_add, Nat.cast_mul, ZMod.natCast_mod, Nat.cast_mul,
      Modular.cast_sub (Modular.mod_le x), ZMod.natCast_mod, ← hy]
    linear_combination ((y : ZMod p) - x) * hmul

/-- A number below a product stays below it when both are extended by one more prime. -/
theorem lt_step {p product x t : Nat} (hp : 0 < p) (hx : x < product) :
    x + t % p * product < product * p := by
  have ht : t % p + 1 ≤ p := Nat.mod_lt t hp
  calc x + t % p * product < product + t % p * product := Nat.add_lt_add_right hx _
    _ = (t % p + 1) * product := by ring
    _ ≤ p * product := Nat.mul_le_mul_right product ht
    _ = product * p := Nat.mul_comm _ _

/-- A number that is right modulo a product is extended to one that is right modulo the further
primes as well. -/
theorem extend_modEq {e d n m x product : Nat} {primes : List Nat} {rs : List RsaResidue}
    (hrs : RsaSecret.residues d product primes = .ok rs)
    (hprimes : ∀ p ∈ primes, p.Prime ∧ p ∣ n ∧ e * d % (p - 1) = 1)
    (hx : x ≡ m [MOD product]) (hlt : x < product) :
    extend (m ^ e % n) rs x ≡ m [MOD product * primes.prod] ∧
      extend (m ^ e % n) rs x < product * primes.prod := by
  induction primes generalizing product x rs with
  | nil =>
    cases hrs
    rw [extend, List.prod_nil, Nat.mul_one]
    exact ⟨hx, hlt⟩
  | cons p primes ih =>
    rw [RsaSecret.residues] at hrs
    split at hrs
    · cases hrs
    rename_i coefficient hcoefficient
    obtain ⟨more, hmore, hcons⟩ := bind_eq_ok_iff.mp hrs
    cases hcons
    obtain ⟨hp, hdvd, hexponents⟩ := hprimes p List.mem_cons_self
    have hstep := modEq_step hp.pos hcoefficient hx
      (pow_mod_pow_modEq_self (m := m) hp hdvd hexponents)
    rw [extend, List.prod_cons, ← Nat.mul_assoc]
    exact ih hmore (fun q hq => hprimes q (List.mem_cons_of_mem p hq)) hstep
      (lt_step hp.pos hlt)

/-- The private operation undoes the public one on numbers below the modulus. -/
theorem privatePower_pow {k : RsaKey} {s : RsaSecret} {c : RsaCrt} (hs : k.secret = some s)
    (hc : s.crt = .ok c) (hprimes : ∀ p ∈ s.primes, p.Prime) {m : Nat} (hm : m < k.n) :
    privatePower c (Modular.pow k.n m k.e) = m := by
  obtain ⟨-, -, hproduct, hexponents⟩ :=
    RsaKey.secretFault?_eq_none_iff.mp (k.isConsistent s hs).1
  have hprod : s.primes.prod = k.n := List.prod_eq_foldl.trans hproduct
  have hall : ∀ p ∈ s.primes, p.Prime ∧ p ∣ k.n ∧ k.e * s.d % (p - 1) = 1 := fun p hp =>
    ⟨hprimes p hp, hprod ▸ List.dvd_prod hp, hexponents p hp⟩
  obtain ⟨⟨rest, hlist, hmore⟩, hqi, hdp, hdq⟩ := RsaSecret.crt_eq_ok_iff.mp hc
  rw [hlist] at hall
  obtain ⟨hp, hpdvd, hpexp⟩ := hall c.p (by simp)
  obtain ⟨hq, hqdvd, hqexp⟩ := hall c.q (by simp)
  have hfirst := pow_mod_pow_modEq_self (m := m) hp hpdvd hpexp
  have hsecond := pow_mod_pow_modEq_self (m := m) hq hqdvd hqexp
  rw [← hdp] at hfirst
  rw [← hdq] at hsecond
  have hreduced : Modular.pow c.q (m ^ k.e % k.n) c.dq < c.q := by
    rw [Modular.pow_eq]
    exact Nat.mod_lt _ hq.pos
  -- the two first primes are a step of the same kind, from the second to the first
  have hstep := modEq_step hp.pos hqi hsecond hfirst
  have hlt := lt_step (t := Modular.sub c.p (Modular.pow c.p (m ^ k.e % k.n) c.dp)
    (Modular.pow c.q (m ^ k.e % k.n) c.dq % c.p) * c.qi) hp.pos hreduced
  rw [Nat.add_comm, Nat.mul_comm c.q c.p] at hstep hlt
  obtain ⟨hmod, hbound⟩ := extend_modEq hmore (fun p hp => hall p (by simp [hp])) hstep hlt
  have hn : c.p * c.q * rest.prod = k.n := by
    rw [← hprod, hlist, List.prod_cons, List.prod_cons, Nat.mul_assoc]
  rw [hn] at hmod hbound
  rw [Modular.pow_eq]
  exact hmod.eq_of_lt_of_lt hbound hm

/-! ### Blocks -/

/-- A block is as long as the modulus when its filler has the length that the message needs. -/
theorem length_blockOf {k : RsaKey} {filler message : Bytes}
    (hfiller : filler.length = fillerLength k message)
    (hmessage : message.length + overhead ≤ k.size) :
    (blockOf filler message).length = k.size := by
  rw [fillerLength] at hfiller
  rw [overhead] at hmessage
  simp only [blockOf, List.length_cons, List.length_append]
  omega

/-- A block as long as the modulus stands for a number below it. -/
theorem toNat_blockOf_lt {k : RsaKey} {filler message : Bytes}
    (hlength : (blockOf filler message).length = k.size) :
    BigEndian.toNat (blockOf filler message) < k.n := by
  rw [blockOf, List.length_cons] at hlength
  have hshort : ¬ k.size ≤ (2 :: (filler ++ 0 :: message)).length := by omega
  rw [RsaKey.size, BigEndian.size_le_iff, Nat.not_lt] at hshort
  calc BigEndian.toNat (blockOf filler message)
      = BigEndian.toNat (2 :: (filler ++ 0 :: message)) := BigEndian.toNat_zero_cons _
    _ < 256 ^ (2 :: (filler ++ 0 :: message)).length := BigEndian.toNat_lt _
    _ ≤ k.n := hshort

/-- The message is found in a block behind at least eight octets of filler, none of them zero. -/
theorem messageOf?_blockOf {filler : Bytes} (hlength : 8 ≤ filler.length)
    (hfiller : ∀ b ∈ filler, b ≠ 0) (message : Bytes) :
    messageOf? (blockOf filler message) = some message := by
  have hkeep : ∀ b ∈ filler, (b != 0) = true := fun b hb => bne_iff_ne.mpr (hfiller b hb)
  have hdrop : (filler ++ 0 :: message).dropWhile (· != 0) = 0 :: message := by
    rw [List.dropWhile_append_of_pos hkeep, List.dropWhile_cons_of_neg (by simp)]
  have htake : (filler ++ 0 :: message).takeWhile (· != 0) = filler := by
    rw [List.takeWhile_append_of_pos hkeep, List.takeWhile_cons_of_neg (by simp),
      List.append_nil]
  simp only [blockOf, messageOf?, hdrop, htake]
  exact if_pos hlength

/-! ### Filler -/

/-- Whether octets are a filler for a message: none of them is zero, and there are as many as the
block has place for. -/
def IsFiller (k : RsaKey) (message filler : Bytes) : Prop :=
  filler.length = fillerLength k message ∧ ∀ b ∈ filler, b ≠ 0

end Cipher.Rsa

/-- A number that is drawn is below its limit. -/
theorem Draw.below_lt {limit : Nat} (hlimit : 0 < limit) (source : Entropy) :
    (Draw.below limit source).1 < limit :=
  Nat.mod_lt _ hlimit

/-- Nonzero octets are drawn in the number that is asked for. -/
theorem Draw.nonzero_length_ne_zero (count : Nat) (source : Entropy) :
    (Draw.nonzero count source).1.length = count ∧ ∀ b ∈ (Draw.nonzero count source).1, b ≠ 0 := by
  induction count generalizing source with
  | zero => exact ⟨rfl, fun b hb => absurd hb List.not_mem_nil⟩
  | succ count ih =>
    have hlt : (Draw.below 255 source).1 < 255 := Draw.below_lt (by decide) source
    have hrun : (Draw.nonzero (count + 1) source).1 =
        ((Draw.below 255 source).1 + 1).toUInt8 ::
          (Draw.nonzero count (Draw.below 255 source).2).1 := rfl
    obtain ⟨hlength, hrest⟩ := ih (Draw.below 255 source).2
    rw [hrun]
    -- the draws themselves are digests, which nothing here may look into
    generalize Draw.nonzero count (Draw.below 255 source).2 = more at hlength hrest ⊢
    generalize (Draw.below 255 source).1 = n at hlt ⊢
    refine ⟨by rw [List.length_cons, hlength], fun b hb => ?_⟩
    rcases List.mem_cons.mp hb with rfl | hb
    · intro hzero
      have hmod : (n + 1) % 256 = 0 := congrArg UInt8.toNat hzero
      omega
    · exact hrest b hb

namespace Cipher.Rsa

/-- What is encrypted with a drawn filler is encrypted with a filler for the message. -/
theorem exists_encrypt_eq (k : RsaKey) (message : Bytes) (source : Entropy) :
    ∃ filler, IsFiller k message filler ∧
      (encrypt k message source).1 = encryptWith k filler message :=
  ⟨(Draw.nonzero (fillerLength k message) source).1, Draw.nonzero_length_ne_zero _ source, rfl⟩

/-! ### Whole messages -/

/-- A message is encrypted exactly when it leaves the octets that no message can use. -/
theorem encryptWith_eq_ok_iff {k : RsaKey} {filler message c : Bytes} :
    encryptWith k filler message = .ok c ↔
      message.length + overhead ≤ k.size ∧
        c = BigEndian.fixed k.size
          (Modular.pow k.n (BigEndian.toNat (blockOf filler message)) k.e) := by
  rw [encryptWith, messageLimit]
  split
  case isTrue hlimit =>
    refine ⟨fun h => (by cases h), fun h => absurd h.1 ?_⟩
    omega
  case isFalse =>
    split
    case isTrue hsize => exact ⟨fun h => (by cases h), fun h => absurd hsize (Nat.not_lt.mpr h.1)⟩
    case isFalse hsize =>
      rw [Except.ok.injEq]
      exact ⟨fun h => ⟨Nat.not_lt.mp hsize, h.symm⟩, fun h => h.2.symm⟩

/-- A message above the limit is refused with its length and the limit. -/
theorem encryptWith_of_messageLimit_lt {k : RsaKey} {message : Bytes}
    (h : messageLimit k < message.length) (filler : Bytes) :
    encryptWith k filler message = .error (.inputTooLarge message.length (messageLimit k)) := by
  rw [encryptWith, if_pos h]

/-- A ciphertext that is not as long as the modulus is refused. -/
theorem decrypt_of_length_ne {k : RsaKey} {s : RsaSecret} (hs : k.secret = some s) {c : Bytes}
    (h : c.length ≠ k.size) :
    decrypt k c = .error (.failure (.rsaCiphertextLength k.size c.length)) := by
  obtain ⟨crt, -, hcrt⟩ := k.exists_crt hs
  rw [decrypt, hcrt, Result.ofOption_some, ok_bind, if_pos h]
  rfl

/-- The ciphertext of a number below the modulus is decrypted to the digits of that number. -/
theorem decryptBlock_pow {k : RsaKey} {s : RsaSecret} {crt : RsaCrt} (hs : k.secret = some s)
    (hcrt : s.crt = .ok crt) (hprimes : ∀ p ∈ s.primes, p.Prime) {m : Nat} (hm : m < k.n) :
    decryptBlock k crt (Modular.pow k.n m k.e) = .ok (BigEndian.fixed k.size m) := by
  have hreduced : Modular.pow k.n m k.e < k.n := by
    rw [Modular.pow_eq]
    exact Nat.mod_lt _ (Nat.zero_lt_of_lt hm)
  rw [decryptBlock, if_neg (Nat.not_le.mpr hreduced), privatePower_pow hs hcrt hprimes hm]
  exact if_pos rfl

/-- A message is decrypted from its ciphertext, which is as long as the modulus. -/
theorem decrypt_of_encryptWith {k : RsaKey} {s : RsaSecret} (hs : k.secret = some s)
    (hprimes : ∀ p ∈ s.primes, p.Prime) {filler message c : Bytes}
    (hfiller : IsFiller k message filler) (h : encryptWith k filler message = .ok c) :
    c.length = k.size ∧ decrypt k c = .ok message := by
  obtain ⟨hfits, rfl⟩ := encryptWith_eq_ok_iff.mp h
  obtain ⟨crt, hcrt, hsome⟩ := k.exists_crt hs
  have hlength := length_blockOf hfiller.1 hfits
  have hm := toNat_blockOf_lt hlength
  have hpow : Modular.pow k.n (BigEndian.toNat (blockOf filler message)) k.e < 256 ^ k.size := by
    rw [Modular.pow_eq]
    exact (Nat.mod_lt _ (Nat.zero_lt_of_lt hm)).trans (BigEndian.lt_pow_size k.n)
  have hblock : BigEndian.fixed k.size (BigEndian.toNat (blockOf filler message)) =
      blockOf filler message := by
    rw [← hlength]
    exact BigEndian.fixed_toNat _
  have height : 8 ≤ filler.length := by
    rw [hfiller.1, fillerLength]
    rw [overhead] at hfits
    omega
  refine ⟨BigEndian.length_fixed _ _, ?_⟩
  rw [decrypt, hsome, Result.ofOption_some, ok_bind,
    if_neg (not_not_intro (BigEndian.length_fixed _ _)), BigEndian.toNat_fixed hpow,
    decryptBlock_pow hs hcrt hprimes hm, Result.of_ok, ok_bind, hblock,
    messageOf?_blockOf height hfiller.2]
  exact if_neg (Nat.not_lt.mpr ((Nat.le_add_left _ _).trans hfits))

/-- With the primes of a private key prime, encryption with the public half succeeds exactly when the
message leaves the octets that no message can use, and the ciphertext is as long as the modulus and
decrypts to the message.  A drawn filler is one of those that the statement is about.  Longer
messages, and ciphertexts of another length, are refused. -/
theorem decrypt_encryptWith_of_primes {k : RsaKey} {s : RsaSecret} (hs : k.secret = some s)
    (hprimes : ∀ p ∈ s.primes, p.Prime) (message : Bytes) :
    (∀ filler, IsFiller k message filler →
      ((∃ c, encryptWith k.toPublic filler message = .ok c) ↔ message.length + 11 ≤ k.size) ∧
        ∀ c, encryptWith k.toPublic filler message = .ok c →
          c.length = k.size ∧ decrypt k c = .ok message) ∧
      (∀ source, ∃ filler, IsFiller k message filler ∧
        (encrypt k.toPublic message source).1 = encryptWith k.toPublic filler message) ∧
      (k.size - 11 < message.length → ∀ filler,
        encryptWith k.toPublic filler message =
          .error (.inputTooLarge message.length (k.size - 11))) ∧
      ∀ c, c.length ≠ k.size →
        decrypt k c = .error (.failure (.rsaCiphertextLength k.size c.length)) := by
  refine ⟨fun filler hfiller => ⟨?_, fun c hc => decrypt_of_encryptWith hs hprimes hfiller hc⟩,
    exists_encrypt_eq k.toPublic message, encryptWith_of_messageLimit_lt,
    fun c hc => decrypt_of_length_ne hs hc⟩
  constructor
  · rintro ⟨c, hc⟩
    exact (encryptWith_eq_ok_iff.mp hc).1
  · intro hfits
    exact ⟨_, encryptWith_eq_ok_iff.mpr ⟨hfits, rfl⟩⟩

/-- The secret of a key whose primes are the moduli of the three curves. -/
def threePrimes : RsaSecret where
  d := (6 * (Curve.all.map (·.params.p - 1)).prod + 1) / 7
  primes := Curve.all.map (·.params.p)

/-- The three primes and the exponent 7 make a key with a modulus of 146 octets.  A message that
begins and ends with zero octets is decrypted from its ciphertext. -/
theorem decrypt_encryptWith_three_primes :
    ∃ k : RsaKey, (∀ error, RsaKey.ofSecret error threePrimes.primes.prod 7 threePrimes = .ok k) ∧
      k.secret = some threePrimes ∧ (∀ p ∈ threePrimes.primes, p.Prime) ∧ k.size = 146 ∧
      ∃ c, encryptWith k.toPublic (List.replicate 140 1) [0, 42, 0] = .ok c ∧
        c.length = 146 ∧ decrypt k c = .ok [0, 42, 0] := by
  have hprimes : ∀ p ∈ threePrimes.primes, p.Prime := by
    intro p hp
    obtain ⟨c, -, rfl⟩ := List.mem_map.mp hp
    exact c.prime_p
  have hnumbers : RsaKey.publicFault? threePrimes.primes.prod 7 = none ∧
      (∀ p ∈ threePrimes.primes, 1 < p ∧ threePrimes.d * 7 ≡ 1 [MOD p - 1]) ∧
      threePrimes.primes.Nodup ∧ BigEndian.size threePrimes.primes.prod = 146 := by
    decide +kernel
  obtain ⟨hpublic, hexponents, hnodup, hoctets⟩ := hnumbers
  obtain ⟨k, hk⟩ := RsaKey.exists_ofSecret hpublic ⟨rfl, hexponents⟩ (by decide) hnodup hprimes
  obtain ⟨hn, -, hs⟩ := RsaKey.ofSecret_eq_ok_iff.mp (hk fun f => .failure (.rsaPrecomputation f))
  have hsize : k.size = 146 := by rw [RsaKey.size, hn, hoctets]
  have hfiller : IsFiller k [0, 42, 0] (List.replicate 140 1) :=
    ⟨by rw [List.length_replicate, fillerLength, hsize]; rfl,
      fun b hb => by rw [List.eq_of_mem_replicate hb]; decide⟩
  obtain ⟨hfit, hdecrypt⟩ :=
    (decrypt_encryptWith_of_primes hs hprimes [0, 42, 0]).1 _ hfiller
  obtain ⟨c, hc⟩ := hfit.mpr (by rw [hsize]; decide)
  obtain ⟨hlength, hmessage⟩ := hdecrypt c hc
  exact ⟨k, hk, hs, hprimes, hsize, c, hc, hlength.trans hsize, hmessage⟩

end Cipher.Rsa

end KeySmith

import KeySmith.Key.Basic
import KeySmith.Proofs.BigEndian
import KeySmith.Proofs.Outcome

/-!
# Building checked keys

Keys are only made by functions that check their numbers.  For each of these functions the lemma
here says when it succeeds, and which key it gives: the one with exactly these numbers.  So every
key is built again from its own numbers, whatever format they have been written in.
-/

namespace KeySmith

/-! ### RSA keys -/

namespace RsaKey

/-- An RSA key is determined by its numbers. -/
theorem eq_of_numbers {a b : RsaKey} (hn : a.n = b.n) (he : a.e = b.e)
    (hs : a.secret = b.secret) : a = b := by
  cases a
  cases b
  cases hn
  cases he
  cases hs
  rfl

/-- A private key is built from its numbers, and from no others. -/
theorem ofSecret_eq_ok_iff {error : RsaFault → Error} {n e : Nat} {s : RsaSecret} {k : RsaKey} :
    ofSecret error n e s = .ok k ↔ k.n = n ∧ k.e = e ∧ k.secret = some s := by
  constructor
  · intro h
    unfold ofSecret at h
    split at h
    · cases h
    · split at h
      · cases h
      · cases h
        exact ⟨rfl, rfl, rfl⟩
  · rintro ⟨rfl, rfl, hs⟩
    obtain ⟨hfault, c, hcrt⟩ := k.isConsistent s hs
    unfold ofSecret
    split
    · rename_i fault hf
      rw [hfault] at hf
      cases hf
    · split
      · rename_i fault hf
        rw [hcrt] at hf
        cases hf
      · exact congrArg Except.ok (eq_of_numbers rfl rfl hs.symm)

/-- A public key is built from its numbers, unless the modulus is too large to be read by itself. -/
theorem ofPublic_eq_ok_iff {n e : Nat} {k : RsaKey} :
    ofPublic n e = .ok k ↔
      BigEndian.bitLength n ≤ sizeLimit ∧ k.n = n ∧ k.e = e ∧ k.secret = none := by
  unfold ofPublic
  constructor
  · intro h
    split at h
    · cases h
    · rename_i hsize
      split at h
      · cases h
      · cases h
        exact ⟨Nat.not_lt.mp hsize, rfl, rfl, rfl⟩
  · rintro ⟨hsize, rfl, rfl, hs⟩
    rw [if_neg (Nat.not_lt.mpr hsize)]
    split
    · rename_i fault hf
      rw [k.isPublic] at hf
      cases hf
    · exact congrArg Except.ok (eq_of_numbers rfl rfl hs.symm)

/-- The public half of a key is read by its numbers, unless it is too large. -/
theorem ofPublic_eq (k : RsaKey) :
    ofPublic k.n k.e = if k.bits ≤ sizeLimit then .ok k.toPublic else .error .modulusTooLarge := by
  split
  · rename_i hbits
    exact ofPublic_eq_ok_iff.mpr ⟨hbits, rfl, rfl, rfl⟩
  · rename_i hbits
    have hlarge : sizeLimit < BigEndian.bitLength k.n := Nat.not_le.mp hbits
    rw [ofPublic, if_pos hlarge]

/-- The public exponent of a key has at most 64 bits. -/
theorem bitLength_e_le (k : RsaKey) : BigEndian.bitLength k.e ≤ 64 := by
  by_contra hlt
  have hfault : publicFault? k.n k.e = some .exponentTooLarge := if_pos (Nat.not_le.mp hlt)
  rw [k.isPublic] at hfault
  cases hfault

/-- The numbers of a secret have no fault exactly when those of the public half have none, the
primes are greater than 1 and multiply to the modulus, and the exponents are inverse modulo each
prime less one. -/
theorem secretFault?_eq_none_iff {n e : Nat} {s : RsaSecret} :
    secretFault? n e s = none ↔
      publicFault? n e = none ∧ (∀ p ∈ s.primes, 1 < p) ∧ s.primes.foldl (· * ·) 1 = n ∧
        ∀ p ∈ s.primes, e * s.d % (p - 1) = 1 := by
  unfold secretFault?
  rw [Option.or_eq_none_iff]
  refine and_congr_right fun _ => ?_
  constructor
  · intro h
    split at h
    · cases h
    rename_i hprimes
    split at h
    · cases h
    rename_i hproduct
    split at h
    · cases h
    rename_i hexponents
    exact ⟨by simpa using hprimes, not_not.mp hproduct, by simpa using hexponents⟩
  · rintro ⟨hprimes, hproduct, hexponents⟩
    rw [if_neg (by simpa using hprimes), if_neg (not_not.mpr hproduct),
      if_neg (by simpa using hexponents)]

/-- The primes of a private key are greater than 1. -/
theorem one_lt_of_mem_primes (k : RsaKey) {s : RsaSecret} (hs : k.secret = some s) {p : Nat}
    (hp : p ∈ s.primes) : 1 < p :=
  (secretFault?_eq_none_iff.mp (k.isConsistent s hs).1).2.1 p hp

/-- The product of the primes of a private key is the modulus. -/
theorem foldl_primes (k : RsaKey) {s : RsaSecret} (hs : k.secret = some s) :
    s.primes.foldl (· * ·) 1 = k.n :=
  (secretFault?_eq_none_iff.mp (k.isConsistent s hs).1).2.2.1

/-- Each of two primes is at most the modulus. -/
theorem primes_le (k : RsaKey) {d p q : Nat} (hs : k.secret = some ⟨d, [p, q]⟩) :
    p ≤ k.n ∧ q ≤ k.n := by
  have hproduct : 1 * p * q = k.n := k.foldl_primes hs
  have hp : 1 < p := k.one_lt_of_mem_primes hs (by simp)
  have hq : 1 < q := k.one_lt_of_mem_primes hs (by simp)
  rw [← hproduct, Nat.one_mul]
  exact ⟨Nat.le_mul_of_pos_right p (by omega), Nat.le_mul_of_pos_left q (by omega)⟩

/-- The numbers for the Chinese remainder theorem of a private key. -/
theorem exists_crt (k : RsaKey) {s : RsaSecret} (hs : k.secret = some s) :
    ∃ c, s.crt = .ok c ∧ k.crt? = some c := by
  obtain ⟨-, c, hc⟩ := k.isConsistent s hs
  refine ⟨c, hc, ?_⟩
  rw [crt?, hs, Option.bind_some, hc]
  rfl

end RsaKey

namespace RsaSecret

/-- The further residues are those of the further primes. -/
theorem map_prime_residues {d product : Nat} {primes : List Nat} {rs : List RsaResidue}
    (h : residues d product primes = .ok rs) : rs.map RsaResidue.prime = primes := by
  induction primes generalizing product rs with
  | nil =>
    cases h
    rfl
  | cons prime rest ih =>
    rw [residues] at h
    split at h
    · cases h
    · obtain ⟨more, hmore, hrs⟩ := bind_eq_ok_iff.mp h
      cases hrs
      rw [List.map_cons, ih hmore]

/-- The numbers for the Chinese remainder theorem name the primes in their order, and are computed
from them and the private exponent. -/
theorem crt_eq_ok_iff {s : RsaSecret} {c : RsaCrt} :
    s.crt = .ok c ↔
      (∃ rest, s.primes = c.p :: c.q :: rest ∧ residues s.d (c.p * c.q) rest = .ok c.more) ∧
        Modular.inverse? c.p c.q = some c.qi ∧
        c.dp = s.d % (c.p - 1) ∧ c.dq = s.d % (c.q - 1) := by
  constructor
  · intro h
    unfold crt at h
    split at h
    · rename_i p q rest hprimes
      split at h
      · cases h
      · rename_i qi hqi
        obtain ⟨more, hmore, hc⟩ := bind_eq_ok_iff.mp h
        cases hc
        exact ⟨⟨rest, hprimes, hmore⟩, hqi, rfl, rfl⟩
    · cases h
  · rintro ⟨⟨rest, hprimes, hmore⟩, hqi, hdp, hdq⟩
    unfold crt
    rw [hprimes]
    simp only [hqi, hmore, ← hdp, ← hdq]
    rfl

/-- Two primes have the numbers for the Chinese remainder theorem when the second is invertible
modulo the first. -/
theorem exists_crt_of_inverse? (d : Nat) {p q : Nat}
    (h : (Modular.inverse? p q).isSome = true) : ∃ c, crt ⟨d, [p, q]⟩ = .ok c := by
  obtain ⟨qi, hqi⟩ := Option.isSome_iff_exists.mp h
  refine ⟨⟨p, q, d % (p - 1), d % (q - 1), qi, []⟩, ?_⟩
  exact crt_eq_ok_iff.mpr ⟨⟨[], rfl, rfl⟩, hqi, rfl, rfl⟩

/-- A key has two primes exactly when no further ones enter the Chinese remainder theorem. -/
theorem more_eq_nil_iff {s : RsaSecret} {c : RsaCrt} (h : s.crt = .ok c) :
    c.more = [] ↔ s.primes = [c.p, c.q] := by
  obtain ⟨⟨rest, hprimes, hmore⟩, -⟩ := crt_eq_ok_iff.mp h
  have hrest : c.more.map RsaResidue.prime = rest := map_prime_residues hmore
  rw [hprimes, ← hrest]
  simp

end RsaSecret

/-! ### Keys on a curve -/

namespace Curve

/-- The modulus of a curve fits into a coordinate. -/
theorem p_lt (c : Curve) : c.params.p < 256 ^ c.size := by
  cases c <;> cbv

/-- The order of a curve fits into a coordinate. -/
theorem order_lt (c : Curve) : c.params.order < 256 ^ c.size := by
  cases c <;> cbv

/-- A coordinate is no longer than the longest one. -/
theorem size_le (c : Curve) : c.size ≤ 66 := by
  cases c <;> decide

/-- A scalar with a point is positive and below the order. -/
theorem publicPoint?_eq_some_iff {c : Curve} {d : Nat} {P : Weierstrass.Point} :
    c.publicPoint? d = some P ↔
      (0 < d ∧ d < c.params.order) ∧
        Weierstrass.mul c.params d (Weierstrass.base c.params) = some P ∧
        Weierstrass.Contains c.params P := by
  unfold publicPoint?
  by_cases hd : 0 < d ∧ d < c.params.order
  · rw [if_pos hd, Option.filter_eq_some_iff]
    simp [hd]
  · simp [hd]

end Curve

namespace Weierstrass

@[simp] theorem length_uncompressed (E : Params) (P : Point) :
    (uncompressed E P).length = 1 + 2 * E.size := by
  simp only [uncompressed, List.length_cons, List.length_append, BigEndian.length_fixed]
  omega

/-- A point on the curve is read back from the form with both coordinates. -/
theorem ofBytes?_uncompressed {E : Params} (hsize : E.p ≤ 256 ^ E.size) {P : Point}
    (hP : Contains E P) : ofBytes? E (uncompressed E P) = some P := by
  have hx : P.x < 256 ^ E.size := lt_of_lt_of_le hP.1 hsize
  have hy : P.y < 256 ^ E.size := lt_of_lt_of_le hP.2.1 hsize
  have hlen : (BigEndian.fixed E.size P.x ++ BigEndian.fixed E.size P.y).length = 2 * E.size := by
    simp
    omega
  have htake : (BigEndian.fixed E.size P.x ++ BigEndian.fixed E.size P.y).take E.size =
      BigEndian.fixed E.size P.x :=
    List.take_left' (BigEndian.length_fixed E.size P.x)
  have hdrop : (BigEndian.fixed E.size P.x ++ BigEndian.fixed E.size P.y).drop E.size =
      BigEndian.fixed E.size P.y :=
    List.drop_left' (BigEndian.length_fixed E.size P.x)
  simp only [ofBytes?, uncompressed, hlen, and_self, if_true, htake, hdrop,
    BigEndian.toNat_fixed hx, BigEndian.toNat_fixed hy]
  rw [Option.filter_eq_some_iff]
  exact ⟨rfl, decide_eq_true hP⟩

/-- A form that starts with the octet 4 is the one with both coordinates. -/
theorem eq_uncompressed_of_head? {E : Params} {form : Bytes} {P : Point}
    (h : ofBytes? E form = some P) (hhead : form.head? = some 4) : form = uncompressed E P := by
  cases form with
  | nil => cases hhead
  | cons tag body =>
    cases hhead
    have htags : ¬ ((4 : UInt8) = 2 ∨ (4 : UInt8) = 3) ∧ ¬ (4 : UInt8) = 5 := by decide
    simp only [ofBytes?, true_and, htags.1, htags.2, false_and, if_false,
      Option.filter_eq_some_iff] at h
    split at h
    · rename_i hlen
      obtain ⟨hP, -⟩ := h
      cases hP
      have htake : (body.take E.size).length = E.size := by
        rw [List.length_take]
        omega
      have hdrop : (body.drop E.size).length = E.size := by
        rw [List.length_drop]
        omega
      have hx := BigEndian.fixed_toNat (body.take E.size)
      have hy := BigEndian.fixed_toNat (body.drop E.size)
      rw [htake] at hx
      rw [hdrop] at hy
      rw [uncompressed, hx, hy, List.take_append_drop]
    · simp at h

end Weierstrass

namespace EcKey

/-- A key on a curve is determined by its curve, its point and its scalar. -/
theorem eq_of_parts {a b : EcKey} (hc : a.curve = b.curve) (hP : a.point = b.point)
    (hd : a.scalar = b.scalar) : a = b := by
  cases a
  cases b
  cases hc
  cases hP
  cases hd
  rfl

/-- A private key is built from its scalar. -/
theorem ofScalar?_eq_some_iff {c : Curve} {d : Nat} {k : EcKey} :
    ofScalar? c d = some k ↔ k.curve = c ∧ k.scalar = some d := by
  constructor
  · intro h
    unfold ofScalar? at h
    split at h
    · cases h
    · cases h
      exact ⟨rfl, rfl⟩
  · rintro ⟨rfl, hd⟩
    have hpair := k.isPair d hd
    unfold ofScalar?
    split
    · rename_i hnone
      rw [hpair] at hnone
      cases hnone
    · rename_i P hP
      rw [hpair] at hP
      exact congrArg some (eq_of_parts rfl (Option.some.inj hP).symm hd.symm)

/-- A public key is built from any octet form of its point. -/
theorem ofPoint?_eq_some_iff {c : Curve} {form : Bytes} {k : EcKey} :
    ofPoint? c form = some k ↔
      k.curve = c ∧ k.scalar = none ∧ Weierstrass.ofBytes? c.params form = some k.point := by
  constructor
  · intro h
    unfold ofPoint? at h
    split at h
    · cases h
    · rename_i P hP
      cases h
      exact ⟨rfl, rfl, hP⟩
  · rintro ⟨rfl, hd, hP⟩
    unfold ofPoint?
    split
    · rename_i hnone
      rw [hP] at hnone
      cases hnone
    · rename_i Q hQ
      rw [hP] at hQ
      exact congrArg some (eq_of_parts rfl (Option.some.inj hQ).symm hd.symm)

/-- The scalar of a private key is in range. -/
theorem scalar_lt (k : EcKey) {d : Nat} (hd : k.scalar = some d) :
    0 < d ∧ d < k.curve.params.order :=
  (Curve.publicPoint?_eq_some_iff.mp (k.isPair d hd)).1

@[simp] theorem length_pointBytes (k : EcKey) : k.pointBytes.length = 1 + 2 * k.curve.size :=
  Weierstrass.length_uncompressed _ _

/-- The form with both coordinates gives the point of the key. -/
theorem ofBytes?_pointBytes (k : EcKey) :
    Weierstrass.ofBytes? k.curve.params k.pointBytes = some k.point :=
  Weierstrass.ofBytes?_uncompressed k.curve.p_lt.le k.onCurve

/-- The public half of a key is read back from its point. -/
theorem ofPoint?_pointBytes (k : EcKey) : ofPoint? k.curve k.pointBytes = some k.toPublic :=
  ofPoint?_eq_some_iff.mpr ⟨rfl, rfl, k.ofBytes?_pointBytes⟩

/-- A private key is built from a scalar in full width or with some leading zeros missing. -/
theorem ofScalarBytes?_eq_some_iff {c : Curve} {bs : Bytes} {k : EcKey} :
    ofScalarBytes? c bs = some k ↔
      (bs.length = c.size ∨ (shortestScalar ≤ bs.length ∧ bs.length < c.size)) ∧
        k.curve = c ∧ k.scalar = some (BigEndian.toNat bs) := by
  rw [ofScalarBytes?, ← ofScalar?_eq_some_iff]
  split
  · rename_i hlen
    simp [hlen]
  · rename_i hlen
    simp [hlen]

/-- A private key is read back from its scalar in full width. -/
theorem ofScalarBytes?_of_scalarBytes? {k : EcKey} {bs : Bytes} (h : k.scalarBytes? = some bs) :
    ofScalarBytes? k.curve bs = some k := by
  obtain ⟨d, hd, rfl⟩ := Option.map_eq_some_iff.mp h
  have hlt : d < 256 ^ k.curve.size := (k.scalar_lt hd).2.trans k.curve.order_lt
  refine ofScalarBytes?_eq_some_iff.mpr ⟨Or.inl (BigEndian.length_fixed _ d), rfl, ?_⟩
  rw [hd, BigEndian.toNat_fixed hlt]

/-- A key is built from the form of a point alone when the form is one of its point. -/
theorem ofParts_none_eq_ok_iff {c : Curve} {form : Bytes} {k : EcKey} :
    ofParts c form none = .ok k ↔ ofPoint? c form = some k := by
  simp only [ofParts, bind_eq_ok_iff, Result.ofOption_eq_ok_iff, pure_eq_ok_iff,
    exists_eq_right]

/-- A key is built from the form of a point and a scalar when both belong to it. -/
theorem ofParts_some_eq_ok_iff {c : Curve} {form bs : Bytes} {k : EcKey} :
    ofParts c form (some bs) = .ok k ↔
      Weierstrass.ofBytes? c.params form = some k.point ∧ ofScalarBytes? c bs = some k := by
  simp only [ofParts, bind_eq_ok_iff, Result.ofOption_eq_ok_iff]
  constructor
  · rintro ⟨key, hkey, pair, hpair, h⟩
    split at h
    · rename_i heq
      cases h
      exact ⟨heq ▸ (ofPoint?_eq_some_iff.mp hkey).2.2, hpair⟩
    · cases h
  · rintro ⟨hform, hpair⟩
    obtain ⟨-, rfl, -⟩ := ofScalarBytes?_eq_some_iff.mp hpair
    exact ⟨k.toPublic, ofPoint?_eq_some_iff.mpr ⟨rfl, rfl, hform⟩, k, hpair, if_pos rfl⟩

end EcKey

/-! ### Ed25519 keys -/

namespace Ed25519Key

/-- An Ed25519 key is determined by its stored point and its seed. -/
theorem eq_of_parts {a b : Ed25519Key} (hP : a.point = b.point) (hs : a.seed = b.seed) :
    a = b := by
  cases a
  cases b
  cases hP
  cases hs
  rfl

/-- A private key is built from its seed. -/
theorem ofSeed?_eq_some_iff {seed : Octets 32} {k : Ed25519Key} :
    ofSeed? seed = some k ↔ k.seed = some seed := by
  simp only [ofSeed?]
  constructor
  · intro h
    split at h
    · cases h
      rfl
    · cases h
  · intro hs
    have hpoint : k.point = Edwards25519.publicPoint seed := k.isPair seed hs
    rw [dif_pos (hpoint ▸ k.onCurve)]
    exact congrArg some (eq_of_parts hpoint.symm hs.symm)

/-- A public key is built from its stored point. -/
theorem ofPoint?_eq_some_iff {point : Octets 32} {k : Ed25519Key} :
    ofPoint? point = some k ↔ k.point = point ∧ k.seed = none := by
  unfold ofPoint?
  constructor
  · intro h
    split at h
    · cases h
      exact ⟨rfl, rfl⟩
    · cases h
  · rintro ⟨rfl, hs⟩
    rw [dif_pos k.onCurve]
    exact congrArg some (eq_of_parts rfl hs.symm)

end Ed25519Key

/-! ### Keys that can be written -/

/-- The key with the modulus 15. -/
def RsaKey.fifteen : RsaKey where
  n := 15
  e := 3
  secret := some ⟨3, [3, 5]⟩
  isPublic := by decide
  isConsistent := by
    rintro s ⟨rfl⟩
    exact ⟨by decide, RsaSecret.exists_crt_of_inverse? _ (by cbv)⟩

/-- A key with two primes and a modulus of 4098 bits. -/
def RsaKey.large : RsaKey where
  n := (2 ^ 2048 + 1) * (2 ^ 2049 + 1)
  e := 3
  secret := some ⟨(2 ^ 2049 + 1) / 3, [2 ^ 2048 + 1, 2 ^ 2049 + 1]⟩
  isPublic := by decide +kernel
  isConsistent := by
    rintro s ⟨rfl⟩
    exact ⟨by decide +kernel, RsaSecret.exists_crt_of_inverse? _ (by decide +kernel)⟩

namespace Key

/-- A key without a secret is its own public half. -/
theorem toPublic_of_not_isPrivate {k : Key} (h : ¬ k.isPrivate = true) : k.toPublic = k := by
  cases k with
  | rsa k =>
    have hnone : k.secret = none := by simpa [isPrivate] using h
    exact congrArg rsa (RsaKey.eq_of_numbers rfl rfl hnone.symm)
  | ecdsa k =>
    have hnone : k.scalar = none := by simpa [isPrivate] using h
    exact congrArg ecdsa (EcKey.eq_of_parts rfl rfl hnone.symm)
  | ed25519 k =>
    have hnone : k.seed = none := by simpa [isPrivate] using h
    exact congrArg ed25519 (Ed25519Key.eq_of_parts rfl hnone.symm)

/-- Whether a key has two primes, if it has any. A private RSA key with more is not written in all
formats. -/
def IsTwoPrime (k : Key) : Prop :=
  ∀ r s, k = .rsa r → r.secret = some s → s.primes.length = 2

/-- Whether the modulus and the private exponent of a key, if it has them, have fewer than `2 ^ 31`
bits. -/
def IsModerate (k : Key) : Prop :=
  ∀ r s, k = .rsa r → r.secret = some s →
    BigEndian.bitLength r.n < 2 ^ 31 ∧ BigEndian.bitLength s.d < 2 ^ 31

/-- Whether the public half of a key can be read by itself: its modulus, if it has one, is not too
large. -/
def IsReadable (k : Key) : Prop :=
  ∀ r, k = .rsa r → r.bits ≤ RsaKey.sizeLimit

theorem isReadable_rsa (r : RsaKey) : (rsa r).IsReadable ↔ r.bits ≤ RsaKey.sizeLimit := by
  constructor
  · intro h
    exact h r rfl
  · rintro h s ⟨rfl⟩
    exact h

theorem isReadable_ecdsa (k : EcKey) : (ecdsa k).IsReadable := by
  rintro r ⟨⟩

theorem isReadable_ed25519 (k : Ed25519Key) : (ed25519 k).IsReadable := by
  rintro r ⟨⟩

theorem isReadable_fifteen : (rsa .fifteen).IsReadable := by
  rw [isReadable_rsa]
  cbv

theorem not_isReadable_large : ¬ (rsa .large).IsReadable := by
  rw [isReadable_rsa, not_le]
  decide +kernel

end Key

end KeySmith

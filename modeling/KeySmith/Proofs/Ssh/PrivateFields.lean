import KeySmith.Proofs.Bytes
import KeySmith.Proofs.Modular
import KeySmith.Proofs.Ssh.PublicKey
import KeySmith.Ssh.Container

/-!
# The private fields of a container

`PrivateFields` is what the private block of a container says about its key, before any of it is
checked.  `PrivateFields.Describes` says which key the fields stand for, and
`PrivateFields.IsCanonical` which of the fields for a key are the ones that are written.  Reading a
private key is reading fields that describe it (`Container.readPrivate_eq_ok_iff`), and writing one
is choosing the canonical fields (`Container.privateFields_eq_ok_iff`).
-/

namespace KeySmith

namespace Ssh

variable {bs rest : Bytes} {k : Key}

/-! ### The fields of a private key -/

/-- The fields of the private numbers of a key behind its type name. -/
inductive PrivateFields where
  | ed25519 (point pair : Bytes)
  | rsa (n e d iqmp p q : Bytes)
  | ecdsa (curve : Curve) (form scalar : Bytes)

namespace PrivateFields

/-- The type name in front of the fields. -/
def name : PrivateFields → String
  | ed25519 _ _ => ed25519Name
  | rsa _ _ _ _ _ _ => rsaName
  | ecdsa c _ _ => curveName c

/-- The octets behind the type name. -/
def body : PrivateFields → Bytes
  | ed25519 point pair => stringBytes point ++ stringBytes pair
  | rsa n e d iqmp p q =>
    stringBytes n ++ stringBytes e ++ stringBytes d ++ stringBytes iqmp ++ stringBytes p
      ++ stringBytes q
  | ecdsa c form scalar => textBytes c.sshId ++ stringBytes form ++ stringBytes scalar

/-- The octets of the private numbers. -/
def bytes (F : PrivateFields) : Bytes :=
  textBytes F.name ++ F.body

/-- Whether every field fits its length. -/
def Fits : PrivateFields → Prop
  | ed25519 point pair => point.length < 2 ^ 32 ∧ pair.length < 2 ^ 32
  | rsa n e d iqmp p q =>
    n.length < 2 ^ 32 ∧ e.length < 2 ^ 32 ∧ d.length < 2 ^ 32 ∧ iqmp.length < 2 ^ 32 ∧
      p.length < 2 ^ 32 ∧ q.length < 2 ^ 32
  | ecdsa _ form scalar => form.length < 2 ^ 32 ∧ scalar.length < 2 ^ 32

/-- Whether a key is the one that the fields stand for. The inverse of `q` modulo `p` may be any
number. -/
def Describes : PrivateFields → Key → Prop
  | ed25519 point pair, .ed25519 k => point = k.point.bytes ∧ k.pairBytes? = some pair
  | rsa n e d iqmp p q, .rsa k =>
    Denotes n k.n ∧ Denotes e k.e ∧ (∃ i, Denotes iqmp i) ∧
      ∃ d' p' q', Denotes d d' ∧ Denotes p p' ∧ Denotes q q' ∧ k.secret = some ⟨d', [p', q']⟩
  | ecdsa c form scalar, .ecdsa k =>
    k.curve = c ∧ Weierstrass.ofBytes? c.params form = some k.point ∧
      ∃ d, Denotes scalar d ∧ k.scalar = some d
  | _, _ => False

/-- Whether the fields are the ones that are written for a key: every integer is as short as can be,
a point has both coordinates, and the inverse is the reduced inverse. -/
def IsCanonical : PrivateFields → Prop
  | ed25519 _ _ => True
  | rsa n e d iqmp p q =>
    (∀ raw ∈ [n, e, d, iqmp, p, q], IsShortest raw) ∧
      BigEndian.toNat iqmp < BigEndian.toNat p ∧
      BigEndian.toNat q * BigEndian.toNat iqmp % BigEndian.toNat p = 1
  | ecdsa _ form scalar => form.head? = some 4 ∧ IsShortest scalar

/-- The fields of an Ed25519 key stand for an Ed25519 key. -/
theorem exists_of_describes_ed25519 {point pair : Bytes} {k : Key}
    (h : (ed25519 point pair).Describes k) :
    ∃ r : Ed25519Key, k = .ed25519 r ∧ point = r.point.bytes ∧ r.pairBytes? = some pair := by
  cases k with
  | rsa r => exact h.elim
  | ecdsa r => exact h.elim
  | ed25519 r => exact ⟨r, rfl, h⟩

/-- The fields of an RSA key stand for an RSA key with these numbers. -/
theorem exists_of_describes_rsa {n e d iqmp p q : Bytes} {k : Key}
    (h : (rsa n e d iqmp p q).Describes k) :
    ∃ r : RsaKey, k = .rsa r ∧ BigEndian.toNat n = r.n ∧ BigEndian.toNat e = r.e ∧
      r.secret = some ⟨BigEndian.toNat d, [BigEndian.toNat p, BigEndian.toNat q]⟩ := by
  cases k with
  | ed25519 r => exact h.elim
  | ecdsa r => exact h.elim
  | rsa r =>
    obtain ⟨⟨-, hn⟩, ⟨-, he⟩, -, d', p', q', ⟨-, rfl⟩, ⟨-, rfl⟩, ⟨-, rfl⟩, hs⟩ := h
    exact ⟨r, rfl, hn, he, hs⟩

/-- The fields of a key on a curve stand for a key on this curve. -/
theorem exists_of_describes_ecdsa {c : Curve} {form scalar : Bytes} {k : Key}
    (h : (ecdsa c form scalar).Describes k) :
    ∃ r : EcKey, k = .ecdsa r ∧ r.curve = c ∧
      Weierstrass.ofBytes? c.params form = some r.point ∧
      r.scalar = some (BigEndian.toNat scalar) := by
  cases k with
  | rsa r => exact h.elim
  | ed25519 r => exact h.elim
  | ecdsa r =>
    obtain ⟨hc, hpoint, d, ⟨-, rfl⟩, hd⟩ := h
    exact ⟨r, rfl, hc, hpoint, hd⟩

/-- The canonical fields of a key on a curve are its point with both coordinates and its scalar in
the shortest form. -/
theorem exists_of_isCanonical_ecdsa {c : Curve} {form scalar : Bytes} {k : Key}
    (h : (ecdsa c form scalar).Describes k) (hcanonical : (ecdsa c form scalar).IsCanonical) :
    ∃ (r : EcKey) (d : Nat), k = .ecdsa r ∧ r.scalar = some d ∧ c = r.curve ∧
      form = r.pointBytes ∧ scalar = integerContent d := by
  cases k with
  | rsa r => exact h.elim
  | ed25519 r => exact h.elim
  | ecdsa r =>
    obtain ⟨rfl, hpoint, d, hraw, hd⟩ := h
    exact ⟨r, d, rfl, hd, rfl, Weierstrass.eq_uncompressed_of_head? hpoint hcanonical.1,
      denotes_and_isShortest_iff.mp ⟨hraw, hcanonical.2⟩⟩

/-- The canonical fields of an RSA key are its numbers in their shortest forms, with the inverse of
the second prime that is computed from them. -/
theorem exists_of_isCanonical_rsa {n e d iqmp p q : Bytes} {k : Key}
    (h : (rsa n e d iqmp p q).Describes k) (hcanonical : (rsa n e d iqmp p q).IsCanonical) :
    ∃ (r : RsaKey) (s : RsaSecret) (crt : RsaCrt), k = .rsa r ∧ r.secret = some s ∧
      s.crt = .ok crt ∧ s.primes = [crt.p, crt.q] ∧ n = integerContent r.n ∧
      e = integerContent r.e ∧ d = integerContent s.d ∧ iqmp = integerContent crt.qi ∧
      p = integerContent crt.p ∧ q = integerContent crt.q := by
  cases k with
  | ed25519 r => exact h.elim
  | ecdsa r => exact h.elim
  | rsa r =>
    obtain ⟨hn, he, ⟨i, hi⟩, d', p', q', hd, hp, hq, hs⟩ := h
    obtain ⟨hshort, hlt, hmul⟩ := hcanonical
    obtain ⟨crt, hcrt, -⟩ := r.exists_crt hs
    obtain ⟨⟨rest, hprimes, -⟩, hqi, -⟩ := RsaSecret.crt_eq_ok_iff.mp hcrt
    obtain ⟨rfl, rfl, rfl⟩ : p' = crt.p ∧ q' = crt.q ∧ rest = [] := by
      simpa using hprimes
    have hone : 1 < crt.p := r.one_lt_of_mem_primes hs (by simp)
    -- the inverse that is given is reduced, so it is the one that is computed
    obtain rfl : i = crt.qi := by
      rw [hi.2, hp.2] at hlt
      rw [hq.2, hi.2, hp.2] at hmul
      refine Modular.inverse_unique (a := crt.q) hlt (Modular.lt_of_inverse? (by omega) hqi) ?_ ?_
      · rw [Nat.ModEq, hmul, Nat.mod_eq_of_lt hone]
      · exact Modular.mul_of_inverse? hqi
    have hcontent : ∀ {raw : Bytes} {m : Nat}, Denotes raw m → raw ∈ [n, e, d, iqmp, p, q] →
        raw = integerContent m :=
      fun hm hmem => denotes_and_isShortest_iff.mp ⟨hm, hshort _ hmem⟩
    exact ⟨r, _, crt, rfl, hs, hcrt, rfl, hcontent hn (by simp), hcontent he (by simp),
      hcontent hd (by simp), hcontent hi (by simp), hcontent hp (by simp), hcontent hq (by simp)⟩

/-- Every type name fits its length field. -/
theorem length_name_lt (F : PrivateFields) : (Text.toBytes F.name).length < 2 ^ 32 := by
  cases F with
  | ed25519 point pair =>
    change (Text.toBytes ed25519Name).length < 2 ^ 32
    decide
  | rsa n e d iqmp p q =>
    change (Text.toBytes rsaName).length < 2 ^ 32
    decide
  | ecdsa c form scalar => exact length_curveName_lt c

/-- Fields fit their lengths when all their octets together would. -/
theorem fits_of_length_lt {F : PrivateFields} (h : F.bytes.length < 2 ^ 32) : F.Fits := by
  rw [bytes, List.length_append] at h
  cases F with
  | ed25519 point pair =>
    simp only [body, List.length_append, length_stringBytes] at h
    refine ⟨?_, ?_⟩ <;> omega
  | rsa n e d iqmp p q =>
    simp only [body, List.length_append, length_stringBytes] at h
    refine ⟨?_, ?_, ?_, ?_, ?_, ?_⟩ <;> omega
  | ecdsa c form scalar =>
    simp only [body, List.length_append, length_stringBytes] at h
    refine ⟨?_, ?_⟩ <;> omega

/-- Fields of one type with the same octets are the same. -/
theorem body_append_inj {F G : PrivateFields} {r s : Bytes} (hname : F.name = G.name)
    (hF : F.Fits) (hG : G.Fits) (h : F.body ++ r = G.body ++ s) : F = G ∧ r = s := by
  cases F with
  | ed25519 point pair =>
    cases G with
    | rsa n e d iqmp p q => exact absurd hname.symm rsaName_ne_ed25519Name
    | ecdsa c form scalar => exact absurd hname.symm (curveName_ne_ed25519Name c)
    | ed25519 point' pair' =>
      simp only [body, List.append_assoc] at h
      obtain ⟨rfl, hpair⟩ := stringBytes_append_inj hF.1 hG.1 h
      obtain ⟨rfl, hrest⟩ := stringBytes_append_inj hF.2 hG.2 hpair
      exact ⟨rfl, hrest⟩
  | rsa n e d iqmp p q =>
    cases G with
    | ed25519 point pair => exact absurd hname rsaName_ne_ed25519Name
    | ecdsa c form scalar => exact absurd hname.symm (curveName_ne_rsaName c)
    | rsa n' e' d' iqmp' p' q' =>
      obtain ⟨hn, he, hd, hi, hp, hq⟩ := hF
      obtain ⟨hn', he', hd', hi', hp', hq'⟩ := hG
      simp only [body, List.append_assoc] at h
      obtain ⟨rfl, h₁⟩ := stringBytes_append_inj hn hn' h
      obtain ⟨rfl, h₂⟩ := stringBytes_append_inj he he' h₁
      obtain ⟨rfl, h₃⟩ := stringBytes_append_inj hd hd' h₂
      obtain ⟨rfl, h₄⟩ := stringBytes_append_inj hi hi' h₃
      obtain ⟨rfl, h₅⟩ := stringBytes_append_inj hp hp' h₄
      obtain ⟨rfl, hrest⟩ := stringBytes_append_inj hq hq' h₅
      exact ⟨rfl, hrest⟩
  | ecdsa c form scalar =>
    cases G with
    | ed25519 point pair => exact absurd hname (curveName_ne_ed25519Name c)
    | rsa n e d iqmp p q => exact absurd hname (curveName_ne_rsaName c)
    | ecdsa c' form' scalar' =>
      obtain rfl : c = c' := by
        have hc : curveOfName? (curveName c) = some c' := curveOfName?_eq_some_iff.mpr hname.symm
        rw [curveOfName?_eq_some_iff.mpr rfl] at hc
        exact Option.some.inj hc
      simp only [body, List.append_assoc] at h
      obtain ⟨-, hform⟩ := stringBytes_append_inj (length_sshId_lt c) (length_sshId_lt c) h
      obtain ⟨rfl, hscalar⟩ := stringBytes_append_inj hF.1 hG.1 hform
      obtain ⟨rfl, hrest⟩ := stringBytes_append_inj hF.2 hG.2 hscalar
      exact ⟨rfl, hrest⟩

/-- Fields with the same octets are the same. -/
theorem bytes_append_inj {F G : PrivateFields} {r s : Bytes} (hF : F.Fits) (hG : G.Fits)
    (h : F.bytes ++ r = G.bytes ++ s) : F = G ∧ r = s := by
  simp only [bytes, List.append_assoc] at h
  obtain ⟨hname, hbody⟩ := stringBytes_append_inj F.length_name_lt G.length_name_lt h
  exact body_append_inj (Text.toBytes_injective hname) hF hG hbody

end PrivateFields

/-! ### Reading a private key -/

namespace Container

/-- An Ed25519 key is a point, and a seed that leads to it in front of the same point. -/
theorem readEd25519_eq_ok_iff :
    readEd25519 bs = .ok (k, rest) ↔
      ∃ point pair, (PrivateFields.ed25519 point pair).Fits ∧
        bs = (PrivateFields.ed25519 point pair).body ++ rest ∧
        (PrivateFields.ed25519 point pair).Describes k := by
  unfold readEd25519
  simp only [reader_bind_eq_ok_iff, fields_eq_ok_iff, Reader.string_eq_ok_iff]
  constructor
  · rintro ⟨point, _, ⟨hpoint, rfl⟩, pair, _, ⟨hpair, rfl⟩, h⟩
    split at h
    · simp [built_eq_ok_iff] at h
    rename_i hlen
    have h64 : pair.length = 64 := by omega
    cases hkey : Ed25519Key.ofSeed? (.firstOf 32 pair) with
    | none => simp [hkey, built_eq_ok_iff] at h
    | some key =>
    simp only [hkey] at h
    split at h
    · rename_i hmatch
      obtain ⟨rfl, rfl⟩ := reader_pure_eq_ok_iff.mp h
      refine ⟨point, pair, ⟨hpoint, hpair⟩, ?_, hmatch.2.symm, ?_⟩
      · rw [PrivateFields.body, List.append_assoc]
      · rw [Ed25519Key.pairBytes?, Ed25519Key.ofSeed?_eq_some_iff.mp hkey, Option.map_some,
          Octets.bytes_firstOf (by omega), hmatch.1, List.take_append_drop]
    · simp [built_eq_ok_iff] at h
  · rintro ⟨point, pair, ⟨hpoint, hpair⟩, rfl, hk⟩
    cases k with
    | rsa k => exact hk.elim
    | ecdsa k => exact hk.elim
    | ed25519 k =>
      obtain ⟨rfl, hseed⟩ := hk
      obtain ⟨seed, hs, rfl⟩ := Option.map_eq_some_iff.mp hseed
      refine ⟨k.point.bytes, stringBytes (seed.bytes ++ k.point.bytes) ++ rest, ⟨hpoint, ?_⟩,
        seed.bytes ++ k.point.bytes, rest, ⟨hpair, rfl⟩, ?_⟩
      · rw [PrivateFields.body, List.append_assoc]
      · have hlen : ¬ (k.point.bytes.length ≠ 32 ∨ (seed.bytes ++ k.point.bytes).length ≠ 64) := by
          simp [k.point.length_eq, seed.length_eq]
        have hdrop : (seed.bytes ++ k.point.bytes).drop 32 = k.point.bytes :=
          List.drop_left' seed.length_eq
        rw [if_neg hlen, Octets.firstOf_append, Ed25519Key.ofSeed?_eq_some_iff.mpr hs]
        simp only [hdrop, and_self, if_true]
        rfl

/-- An RSA key is six integers, of which all but the fourth are its numbers. -/
theorem readRsa_eq_ok_iff :
    readRsa bs = .ok (k, rest) ↔
      ∃ n e d iqmp p q, (PrivateFields.rsa n e d iqmp p q).Fits ∧
        bs = (PrivateFields.rsa n e d iqmp p q).body ++ rest ∧
        (PrivateFields.rsa n e d iqmp p q).Describes k := by
  unfold readRsa
  simp only [reader_bind_eq_ok_iff, fields_eq_ok_iff, built_eq_ok_iff, Reader.natural_eq_ok_iff,
    reader_pure_eq_ok_iff, RsaKey.ofSecret_eq_ok_iff]
  constructor
  · rintro ⟨_, _, ⟨n, hn, hkn, rfl⟩, _, _, ⟨e, he, hke, rfl⟩, d', _, ⟨d, hd, hkd, rfl⟩,
      i, _, ⟨iqmp, hi, hki, rfl⟩, p', _, ⟨p, hp, hkp, rfl⟩, q', _, ⟨q, hq, hkq, rfl⟩,
      key, _, ⟨⟨rfl, rfl, hsecret⟩, rfl⟩, rfl, rfl⟩
    refine ⟨n, e, d, iqmp, p, q, ⟨hn, he, hd, hi, hp, hq⟩, ?_, hkn, hke, ⟨i, hki⟩,
      d', p', q', hkd, hkp, hkq, hsecret⟩
    simp only [PrivateFields.body, List.append_assoc]
  · rintro ⟨n, e, d, iqmp, p, q, ⟨hn, he, hd, hi, hp, hq⟩, rfl, hk⟩
    cases k with
    | ed25519 k => exact hk.elim
    | ecdsa k => exact hk.elim
    | rsa k =>
      obtain ⟨hkn, hke, ⟨i, hki⟩, d', p', q', hkd, hkp, hkq, hsecret⟩ := hk
      simp only [PrivateFields.body, List.append_assoc]
      exact ⟨k.n, _, ⟨n, hn, hkn, rfl⟩, k.e, _, ⟨e, he, hke, rfl⟩, d', _, ⟨d, hd, hkd, rfl⟩,
        i, _, ⟨iqmp, hi, hki, rfl⟩, p', _, ⟨p, hp, hkp, rfl⟩, q', rest, ⟨q, hq, hkq, rfl⟩,
        k, rest, ⟨⟨rfl, rfl, hsecret⟩, rfl⟩, rfl, rfl⟩

/-- The scalar of a private key has no more octets than a coordinate. -/
theorem length_stripZeros_le {k : EcKey} {d : Nat} {raw : Bytes} (hd : k.scalar = some d)
    (hraw : BigEndian.toNat raw = d) : (Bytes.stripZeros raw).length ≤ k.curve.size := by
  have hlt : d < 256 ^ k.curve.size := (k.scalar_lt hd).2.trans k.curve.order_lt
  rw [BigEndian.stripZeros_eq_fixed, BigEndian.length_fixed, hraw]
  exact (BigEndian.size_le_iff d k.curve.size).mpr hlt

/-- A key on a curve is a form of its point, and its scalar. -/
theorem readEcdsa_eq_ok_iff {curve : Curve} :
    readEcdsa curve bs = .ok (k, rest) ↔
      ∃ form scalar, (PrivateFields.ecdsa curve form scalar).Fits ∧
        bs = (PrivateFields.ecdsa curve form scalar).body ++ rest ∧
        (PrivateFields.ecdsa curve form scalar).Describes k := by
  unfold readEcdsa
  simp only [reader_bind_eq_ok_iff, fields_eq_ok_iff, readPoint_eq_ok_iff,
    Reader.magnitude_eq_ok_iff]
  constructor
  · rintro ⟨form, _, ⟨hform, rfl⟩, _, _, ⟨raw, hraw, hneg, rfl, rfl⟩, h⟩
    split at h
    · simp [built_eq_ok_iff] at h
    · simp only [reader_bind_eq_ok_iff, built_eq_ok_iff, EcKey.ofParts_some_eq_ok_iff,
        EcKey.ofScalarBytes?_eq_some_iff, reader_pure_eq_ok_iff] at h
      obtain ⟨key, _, ⟨⟨hpoint, -, hcurve, hscalar⟩, rfl⟩, rfl, rfl⟩ := h
      refine ⟨form, raw, ⟨hform, hraw⟩, ?_, hcurve, hpoint, BigEndian.toNat raw, ⟨hneg, rfl⟩, ?_⟩
      · simp only [PrivateFields.body, List.append_assoc]
      · rw [hscalar, BigEndian.toNat_replicate_zero_append, BigEndian.toNat_stripZeros]
  · rintro ⟨form, raw, ⟨hform, hraw⟩, rfl, hk⟩
    cases k with
    | ed25519 k => exact hk.elim
    | rsa k => exact hk.elim
    | ecdsa k =>
      obtain ⟨rfl, hpoint, d, ⟨hneg, hd⟩, hscalar⟩ := hk
      refine ⟨form, stringBytes raw ++ rest, ⟨hform, ?_⟩, Bytes.stripZeros raw, rest,
        ⟨raw, hraw, hneg, rfl, rfl⟩, ?_⟩
      · simp only [PrivateFields.body, List.append_assoc]
      · have hle := length_stripZeros_le hscalar hd
        rw [if_neg (Nat.not_lt.mpr hle)]
        simp only [reader_bind_eq_ok_iff, built_eq_ok_iff, EcKey.ofParts_some_eq_ok_iff,
          EcKey.ofScalarBytes?_eq_some_iff, reader_pure_eq_ok_iff]
        refine ⟨k, rest, ⟨⟨hpoint, Or.inl ?_, rfl, ?_⟩, rfl⟩, rfl, rfl⟩
        · rw [List.length_append, List.length_replicate]
          omega
        · rw [BigEndian.toNat_replicate_zero_append, BigEndian.toNat_stripZeros, hd, hscalar]

/-- Reading the private key behind a type name is reading fields of this type. -/
theorem readPrivate_eq_ok_iff {name : String} :
    readPrivate name bs = .ok (k, rest) ↔
      ∃ F : PrivateFields, F.name = name ∧ F.Fits ∧ bs = F.body ++ rest ∧ F.Describes k := by
  unfold readPrivate
  constructor
  · intro h
    split at h
    · obtain ⟨point, pair, hF⟩ := readEd25519_eq_ok_iff.mp h
      rename_i hname
      exact ⟨.ed25519 point pair, hname.symm, hF⟩
    split at h
    · obtain ⟨n, e, d, iqmp, p, q, hF⟩ := readRsa_eq_ok_iff.mp h
      rename_i hname
      exact ⟨.rsa n e d iqmp p q, hname.symm, hF⟩
    · simp only [reader_bind_eq_ok_iff, built_eq_ok_iff, Result.ofOption_eq_ok_iff,
        curveOfName?_eq_some_iff] at h
      obtain ⟨c, _, ⟨rfl, rfl⟩, h⟩ := h
      obtain ⟨form, scalar, hF⟩ := readEcdsa_eq_ok_iff.mp h
      exact ⟨.ecdsa c form scalar, rfl, hF⟩
  · rintro ⟨F, rfl, hF⟩
    cases F with
    | ed25519 point pair =>
      rw [PrivateFields.name, if_pos rfl]
      exact readEd25519_eq_ok_iff.mpr ⟨point, pair, hF⟩
    | rsa n e d iqmp p q =>
      rw [PrivateFields.name, if_neg rsaName_ne_ed25519Name, if_pos rfl]
      exact readRsa_eq_ok_iff.mpr ⟨n, e, d, iqmp, p, q, hF⟩
    | ecdsa c form scalar =>
      rw [PrivateFields.name, if_neg (curveName_ne_ed25519Name c), if_neg (curveName_ne_rsaName c)]
      simp only [reader_bind_eq_ok_iff, built_eq_ok_iff, Result.ofOption_eq_ok_iff,
        curveOfName?_eq_some_iff]
      exact ⟨c, bs, ⟨rfl, rfl⟩, readEcdsa_eq_ok_iff.mpr ⟨form, scalar, hF⟩⟩

/-! ### Writing a private key -/

/-- The private numbers of an Ed25519 key are its point, and its seed with the point. -/
theorem privateFields_ed25519 {k : Ed25519Key} {secret : Bytes} :
    privateFields (.ed25519 k) = .ok secret ↔
      ∃ F : PrivateFields, F.Describes (.ed25519 k) ∧ F.IsCanonical ∧ secret = F.bytes := by
  simp only [privateFields, bind_eq_ok_iff, Result.ofOption_eq_ok_iff, pure_eq_ok_iff]
  constructor
  · rintro ⟨pair, hpair, rfl⟩
    refine ⟨.ed25519 k.point.bytes pair, ⟨rfl, hpair⟩, trivial, ?_⟩
    rw [List.append_assoc]
    rfl
  · rintro ⟨F, hF, -, rfl⟩
    cases F with
    | rsa n e d iqmp p q => exact hF.elim
    | ecdsa c form scalar => exact hF.elim
    | ed25519 point pair =>
      obtain ⟨rfl, hpair⟩ := hF
      refine ⟨pair, hpair, ?_⟩
      rw [List.append_assoc]
      rfl

/-- The private numbers of an RSA key with two primes are written in their shortest forms, with the
reduced inverse of the second prime. -/
theorem privateFields_rsa {k : RsaKey} {secret : Bytes} :
    privateFields (.rsa k) = .ok secret ↔
      ∃ F : PrivateFields, F.Describes (.rsa k) ∧ F.IsCanonical ∧ secret = F.bytes := by
  simp only [privateFields, bind_eq_ok_iff, Result.ofOption_eq_ok_iff, Result.of_eq_ok_iff]
  constructor
  · rintro ⟨s, hs, crt, hcrt, h⟩
    split at h
    · rename_i hmore
      cases h
      have hprimes := (RsaSecret.more_eq_nil_iff hcrt).mp (List.isEmpty_iff.mp hmore)
      have hqi := (RsaSecret.crt_eq_ok_iff.mp hcrt).2.1
      have hp : 1 < crt.p := k.one_lt_of_mem_primes hs (by simp [hprimes])
      refine ⟨.rsa (integerContent k.n) (integerContent k.e) (integerContent s.d)
        (integerContent crt.qi) (integerContent crt.p) (integerContent crt.q),
        ⟨denotes_integerContent k.n, denotes_integerContent k.e,
          ⟨crt.qi, denotes_integerContent crt.qi⟩, s.d, crt.p, crt.q,
          denotes_integerContent s.d, denotes_integerContent crt.p, denotes_integerContent crt.q,
          ?_⟩,
        ⟨?_, ?_, ?_⟩, ?_⟩
      · rw [hs, ← hprimes]
      · simp [isShortest_integerContent]
      · simp only [toNat_integerContent]
        exact Modular.lt_of_inverse? (by omega) hqi
      · simp only [toNat_integerContent]
        rw [Modular.mul_of_inverse? hqi, Nat.mod_eq_of_lt hp]
      · simp only [naturalBytes_eq, PrivateFields.bytes, PrivateFields.body, PrivateFields.name,
          List.append_assoc]
    · cases h
  · rintro ⟨F, hF, hcanonical, rfl⟩
    cases F with
    | ed25519 point pair => exact hF.elim
    | ecdsa c form scalar => exact hF.elim
    | rsa n e d iqmp p q =>
      obtain ⟨r, sec, crt, hr, hs, hcrt, hprimes, rfl, rfl, rfl, rfl, rfl, rfl⟩ :=
        PrivateFields.exists_of_isCanonical_rsa hF hcanonical
      cases hr
      have hmore : crt.more = [] := (RsaSecret.more_eq_nil_iff hcrt).mpr hprimes
      refine ⟨sec, hs, crt, hcrt, ?_⟩
      rw [hmore, if_pos List.isEmpty_nil]
      simp only [naturalBytes_eq, PrivateFields.bytes, PrivateFields.body, PrivateFields.name,
        List.append_assoc]
      rfl

/-- The private numbers of a key on a curve are its point with both coordinates, and its scalar in
the shortest form. -/
theorem privateFields_ecdsa {k : EcKey} {secret : Bytes} :
    privateFields (.ecdsa k) = .ok secret ↔
      ∃ F : PrivateFields, F.Describes (.ecdsa k) ∧ F.IsCanonical ∧ secret = F.bytes := by
  simp only [privateFields, bind_eq_ok_iff, Result.ofOption_eq_ok_iff, pure_eq_ok_iff,
    EcKey.scalarBytes?, Option.map_eq_some_iff]
  have hscalar : ∀ d, k.scalar = some d →
      magnitudeBytes (BigEndian.fixed k.curve.size d) = stringBytes (integerContent d) := by
    intro d hd
    rw [magnitudeBytes_eq,
      BigEndian.toNat_fixed ((k.scalar_lt hd).2.trans k.curve.order_lt)]
  constructor
  · rintro ⟨_, ⟨d, hd, rfl⟩, rfl⟩
    refine ⟨.ecdsa k.curve k.pointBytes (integerContent d),
      ⟨rfl, k.ofBytes?_pointBytes, d, denotes_integerContent d, hd⟩,
      ⟨rfl, isShortest_integerContent d⟩, ?_⟩
    rw [hscalar d hd]
    simp only [PrivateFields.bytes, PrivateFields.body, PrivateFields.name, List.append_assoc]
  · rintro ⟨F, hF, hcanonical, rfl⟩
    cases F with
    | ed25519 point pair => exact hF.elim
    | rsa n e d iqmp p q => exact hF.elim
    | ecdsa c form scalar =>
      obtain ⟨r, d, hr, hd, rfl, rfl, rfl⟩ :=
        PrivateFields.exists_of_isCanonical_ecdsa hF hcanonical
      cases hr
      refine ⟨_, ⟨d, hd, rfl⟩, ?_⟩
      rw [hscalar d hd]
      simp only [PrivateFields.bytes, PrivateFields.body, PrivateFields.name, List.append_assoc]

/-- The private numbers of a key are written as the canonical fields that describe it. -/
theorem privateFields_eq_ok_iff {secret : Bytes} :
    privateFields k = .ok secret ↔
      ∃ F : PrivateFields, F.Describes k ∧ F.IsCanonical ∧ secret = F.bytes := by
  cases k with
  | rsa k => exact privateFields_rsa
  | ecdsa k => exact privateFields_ecdsa
  | ed25519 k => exact privateFields_ed25519

/-- A key that fields describe is private and has two primes, if it has any. -/
theorem isPrivate_of_describes {F : PrivateFields} (h : F.Describes k) :
    k.isPrivate = true ∧ k.IsTwoPrime := by
  cases F with
  | ed25519 point pair =>
    obtain ⟨r, rfl, -, hpair⟩ := PrivateFields.exists_of_describes_ed25519 h
    obtain ⟨seed, hseed, -⟩ := Option.map_eq_some_iff.mp hpair
    refine ⟨?_, fun r s hr => by cases hr⟩
    rw [Key.isPrivate, hseed, Option.isSome_some]
  | ecdsa c form scalar =>
    obtain ⟨r, rfl, -, -, hd⟩ := PrivateFields.exists_of_describes_ecdsa h
    refine ⟨?_, fun r s hr => by cases hr⟩
    rw [Key.isPrivate, hd, Option.isSome_some]
  | rsa n e d iqmp p q =>
    obtain ⟨r, rfl, -, -, hs⟩ := PrivateFields.exists_of_describes_rsa h
    refine ⟨?_, ?_⟩
    · rw [Key.isPrivate, hs, Option.isSome_some]
    · intro r' s hr hsecret
      cases hr
      obtain rfl := Option.some.inj (hs.symm.trans hsecret)
      rfl

/-- Every private key with no more than two primes has canonical fields. -/
theorem exists_canonical (hprivate : k.isPrivate = true) (hprimes : k.IsTwoPrime) :
    ∃ F : PrivateFields, F.Describes k ∧ F.IsCanonical := by
  suffices hwrites : ∃ secret, privateFields k = .ok secret by
    obtain ⟨secret, hsecret⟩ := hwrites
    obtain ⟨F, hF, hcanonical, -⟩ := privateFields_eq_ok_iff.mp hsecret
    exact ⟨F, hF, hcanonical⟩
  cases k with
  | ed25519 k =>
    obtain ⟨seed, hseed⟩ := Option.isSome_iff_exists.mp hprivate
    simp only [privateFields, Ed25519Key.pairBytes?, hseed]
    exact ⟨_, rfl⟩
  | ecdsa k =>
    obtain ⟨d, hd⟩ := Option.isSome_iff_exists.mp hprivate
    simp only [privateFields, EcKey.scalarBytes?, hd]
    exact ⟨_, rfl⟩
  | rsa k =>
    obtain ⟨s, hs⟩ := Option.isSome_iff_exists.mp hprivate
    obtain ⟨crt, hcrt, -⟩ := k.exists_crt hs
    have hlen : s.primes.length = 2 := hprimes k s rfl hs
    have hmore : crt.more = [] := by
      obtain ⟨⟨rest, hlist, -⟩, -⟩ := RsaSecret.crt_eq_ok_iff.mp hcrt
      rw [RsaSecret.more_eq_nil_iff hcrt, hlist]
      rw [hlist] at hlen
      simpa using hlen
    rw [privateFields, hs, Result.ofOption_some, ok_bind, hcrt, Result.of_ok, ok_bind,
      if_pos (List.isEmpty_iff.mpr hmore)]
    exact ⟨_, rfl⟩

/-- The fields for an Ed25519 key are canonical. -/
theorem isCanonical_of_ed25519 {F : PrivateFields} (hF : F.Describes k)
    (hk : k.algorithm = .ed25519) : F.IsCanonical := by
  cases k with
  | rsa k => cases hk
  | ecdsa k => cases hk
  | ed25519 k =>
    cases F with
    | ed25519 point pair => trivial
    | rsa n e d iqmp p q => exact hF.elim
    | ecdsa c form scalar => exact hF.elim

/-! ### Sizes -/

/-- The blob of a key is no longer than its canonical private fields, which repeat it. -/
theorem length_publicBlob_le {F : PrivateFields} (hF : F.Describes k) (hcanonical : F.IsCanonical) :
    (publicBlob k).length ≤ F.bytes.length := by
  cases F with
  | ed25519 point pair =>
    obtain ⟨r, rfl, rfl, -⟩ := PrivateFields.exists_of_describes_ed25519 hF
    simp only [publicBlob, typeName, PrivateFields.bytes, PrivateFields.body, PrivateFields.name,
      List.length_append]
    omega
  | rsa n e d iqmp p q =>
    obtain ⟨r, s, crt, rfl, -, -, -, rfl, rfl, -⟩ :=
      PrivateFields.exists_of_isCanonical_rsa hF hcanonical
    simp only [publicBlob, typeName, naturalBytes_eq, PrivateFields.bytes, PrivateFields.body,
      PrivateFields.name, List.length_append]
    omega
  | ecdsa c form scalar =>
    obtain ⟨r, d, rfl, -, rfl, rfl, -⟩ := PrivateFields.exists_of_isCanonical_ecdsa hF hcanonical
    simp only [publicBlob, typeName, PrivateFields.bytes, PrivateFields.body, PrivateFields.name,
      List.length_append]
    omega

/-- The shortest content of a number of fewer than `2 ^ 31` bits. -/
theorem length_integerContent_le_of_lt {m n : Nat} (hle : m ≤ n)
    (hn : BigEndian.bitLength n < 2 ^ 31) : (integerContent m).length ≤ 2 ^ 28 + 1 := by
  have hcontent := length_integerContent_le m
  have hmono := BigEndian.size_mono hle
  have hsize : BigEndian.size n ≤ 2 ^ 28 := by
    unfold BigEndian.size
    omega
  omega

/-- The canonical fields of a key with numbers of moderate size are of moderate size. -/
theorem length_bytes_le {F : PrivateFields} (hF : F.Describes k) (hcanonical : F.IsCanonical)
    (hk : k.IsModerate) : F.bytes.length ≤ 5 * (2 ^ 28 + 1) + 1000 := by
  cases F with
  | ed25519 point pair =>
    obtain ⟨r, rfl, rfl, hpair⟩ := PrivateFields.exists_of_describes_ed25519 hF
    obtain ⟨seed, -, rfl⟩ := Option.map_eq_some_iff.mp hpair
    have hname : (textBytes ed25519Name).length ≤ 100 := by decide
    simp only [PrivateFields.bytes, PrivateFields.body, PrivateFields.name, List.length_append,
      length_stringBytes, r.point.length_eq, seed.length_eq]
    omega
  | ecdsa c form scalar =>
    obtain ⟨r, d, rfl, hd, rfl, rfl, rfl⟩ :=
      PrivateFields.exists_of_isCanonical_ecdsa hF hcanonical
    have hname : (textBytes (curveName r.curve)).length ≤ 100 := by
      cases r.curve <;> decide
    have hid : (textBytes r.curve.sshId).length ≤ 100 := by
      cases r.curve <;> decide
    have hsize := r.curve.size_le
    have hscalar : BigEndian.size d ≤ r.curve.size :=
      (BigEndian.size_le_iff d _).mpr ((r.scalar_lt hd).2.trans r.curve.order_lt)
    have hcontent := length_integerContent_le d
    simp only [PrivateFields.bytes, PrivateFields.body, PrivateFields.name, List.length_append,
      length_stringBytes, r.length_pointBytes]
    omega
  | rsa n e d iqmp p q =>
    obtain ⟨r, s, crt, rfl, hs, hcrt, hprimes, rfl, rfl, rfl, rfl, rfl, rfl⟩ :=
      PrivateFields.exists_of_isCanonical_rsa hF hcanonical
    obtain ⟨hbits, hbitsd⟩ := hk r s rfl hs
    obtain ⟨hpn, hqn⟩ := r.primes_le (hs.trans (by rw [← hprimes]))
    have hone : 1 < crt.p := r.one_lt_of_mem_primes hs (by simp [hprimes])
    have hqi : crt.qi < crt.p :=
      Modular.lt_of_inverse? (by omega) (RsaSecret.crt_eq_ok_iff.mp hcrt).2.1
    have hname : (textBytes rsaName).length ≤ 100 := by decide
    have hne := length_integerContent_le r.e
    have hsize : BigEndian.size r.e ≤ 8 := by
      have hbits := r.bitLength_e_le
      unfold BigEndian.size
      omega
    have hlenN := length_integerContent_le_of_lt (Nat.le_refl r.n) hbits
    have hlenD := length_integerContent_le_of_lt (Nat.le_refl s.d) hbitsd
    have hlenI := length_integerContent_le_of_lt (hqi.le.trans hpn) hbits
    have hlenP := length_integerContent_le_of_lt hpn hbits
    have hlenQ := length_integerContent_le_of_lt hqn hbits
    simp only [PrivateFields.bytes, PrivateFields.body, PrivateFields.name, List.length_append,
      length_stringBytes]
    omega

/-! ### The key with the modulus 15 -/

/-- The private fields of the key with the modulus 15. -/
def fifteenFields : PrivateFields :=
  .rsa [15] [3] [3] [2] [3] [5]

/-- The private fields describe the key with the modulus 15. -/
theorem fifteenFields_describes : fifteenFields.Describes (.rsa .fifteen) :=
  ⟨by decide, by decide, ⟨2, by decide⟩, 3, 3, 5, by decide, by decide, by decide, rfl⟩

/-- The private fields of the key with the modulus 15 are canonical. -/
theorem fifteenFields_isCanonical : fifteenFields.IsCanonical :=
  ⟨by simp [IsShortest], by decide, by decide⟩

end Container

end Ssh

end KeySmith

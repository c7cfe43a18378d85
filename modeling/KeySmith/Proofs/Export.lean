import KeySmith.Command.Export
import KeySmith.Proofs.Der.Wrapped
import KeySmith.Proofs.Jwk.RoundTrip

/-!
# When an export succeeds

Each format takes the keys of some algorithms, one of them private keys only, and the formats that
list primes have room for two of them.  A key outside of these bounds meets the error of the bound.
A key inside of them has a text in the format, and what its numbers and the comment are does not
matter, with one exception at the end of the range: the text of some formats is made from a
document, and a document has fewer than `2 ^ 28` octets.  Only the numbers of an RSA key can be that
long, and one of them is in no bounds at all: a private exponent counts modulo the primes less one,
so a small key may have a very long one.
-/

namespace KeySmith

/-! ### Operations that succeed under a condition -/

namespace Result

variable {α β : Type} {r : Result α} {p q : Prop}

/-- Whether an operation succeeds under a condition, and ends in a failure otherwise. -/
structure FailsUnless (r : Result α) (p : Prop) : Prop where
  succeeds : p → ∃ a, r = .ok a
  fails : ¬ p → ∃ cause, r = .error (.failure cause)

namespace FailsUnless

theorem congr (h : FailsUnless r p) (hpq : p ↔ q) : FailsUnless r q :=
  ⟨fun hq => h.succeeds (hpq.mpr hq), fun hq => h.fails (mt hpq.mp hq)⟩

/-- The condition is the one for success. -/
theorem exists_eq_ok_iff (h : FailsUnless r p) : (∃ a, r = .ok a) ↔ p := by
  constructor
  · rintro ⟨a, rfl⟩
    by_contra hp
    obtain ⟨cause, hcause⟩ := h.fails hp
    cases hcause
  · exact h.succeeds

/-- A success under a condition that holds. -/
theorem of_ok (a : α) (hp : p) : FailsUnless (.ok a) p :=
  ⟨fun _ => ⟨a, rfl⟩, fun h => absurd hp h⟩

/-- A failure under a condition that does not hold. -/
theorem of_failure (cause : Failure) (hp : ¬ p) :
    FailsUnless (.error (.failure cause) : Result α) p :=
  ⟨fun h => absurd h hp, fun _ => ⟨cause, rfl⟩⟩

/-- A fault that is worded as a failure. -/
theorem of_fault {ε : Type} (cause : ε → Failure) (x : Except ε α) :
    FailsUnless (Result.of (fun f => .failure (cause f)) x) (∃ a, x = .ok a) := by
  cases x with
  | error f => exact of_failure (cause f) (by rintro ⟨a, ⟨⟩⟩)
  | ok a => exact of_ok a ⟨a, rfl⟩

/-- A document that may be too long. -/
theorem of_document? (cause : Failure) (body : Bytes) :
    FailsUnless (Result.ofOption (.failure cause) (Der.document? body))
      (body.length < Der.lengthLimit) := by
  unfold Der.document?
  split
  · exact of_ok body ‹_›
  · exact of_failure cause ‹_›

/-- Two steps succeed under both conditions. -/
theorem bind {f : α → Result β} (h : FailsUnless r p)
    (hf : ∀ a, r = .ok a → FailsUnless (f a) q) : FailsUnless (r >>= f) (p ∧ q) := by
  by_cases hp : p
  · obtain ⟨a, rfl⟩ := h.succeeds hp
    exact (hf a rfl).congr (and_iff_right hp).symm
  · obtain ⟨cause, rfl⟩ := h.fails hp
    exact of_failure cause fun hpq => hp hpq.1

/-- What is made from a result adds no condition. -/
theorem bind_ok (h : FailsUnless r p) (f : α → β) : FailsUnless (r >>= fun a => .ok (f a)) p :=
  (h.bind fun a _ => of_ok (f a) trivial).congr (and_iff_left trivial)

end FailsUnless

end Result

open Result (FailsUnless)

/-! ### Keys with more primes -/

namespace RsaSecret

/-- Further primes enter the Chinese remainder theorem unless there are two. -/
theorem isEmpty_more_iff {s : RsaSecret} {c : RsaCrt} (h : s.crt = .ok c) :
    c.more.isEmpty = true ↔ s.primes.length = 2 := by
  obtain ⟨⟨rest, hprimes, -⟩, -⟩ := crt_eq_ok_iff.mp h
  rw [List.isEmpty_iff, more_eq_nil_iff h, hprimes]
  simp

end RsaSecret

namespace Key

/-- Whether a key is a private RSA key with three or more primes. -/
def IsMultiPrime (k : Key) : Prop :=
  ∃ r s, k = .rsa r ∧ r.secret = some s ∧ 3 ≤ s.primes.length

/-- A secret has two primes at least, so those with two are the ones without more. -/
theorem isTwoPrime_iff (k : Key) : k.IsTwoPrime ↔ ¬ k.IsMultiPrime := by
  constructor
  · rintro htwo ⟨r, s, rfl, hs, hlength⟩
    have := htwo r s rfl hs
    omega
  · rintro hmore r s rfl hs
    obtain ⟨c, hc, -⟩ := r.exists_crt hs
    obtain ⟨⟨rest, hprimes, -⟩, -⟩ := RsaSecret.crt_eq_ok_iff.mp hc
    have htwo : 2 ≤ s.primes.length := by
      rw [hprimes, List.length_cons, List.length_cons]
      omega
    have hthree : ¬ 3 ≤ s.primes.length := fun h => hmore ⟨r, s, rfl, hs, h⟩
    omega

theorem isTwoPrime_ecdsa (k : EcKey) : (ecdsa k).IsTwoPrime := by
  rintro r s ⟨⟩

theorem isTwoPrime_ed25519 (k : Ed25519Key) : (ed25519 k).IsTwoPrime := by
  rintro r s ⟨⟩

theorem isTwoPrime_of_public {k : Key} (h : k.isPrivate = false) : k.IsTwoPrime := by
  rintro r s rfl hs
  rw [isPrivate, hs] at h
  cases h

theorem isTwoPrime_rsa_iff {r : RsaKey} {s : RsaSecret} (hs : r.secret = some s) :
    (rsa r).IsTwoPrime ↔ s.primes.length = 2 := by
  constructor
  · intro h
    exact h r s rfl hs
  · rintro h r' s' ⟨rfl⟩ hs'
    rw [← Option.some.inj (hs.symm.trans hs')]
    exact h

/-- Whether the modulus and the private exponent of a key, if it has them, have at most `2 ^ 27`
bits. -/
def IsModest (k : Key) : Prop :=
  ∀ r, k = .rsa r → r.bits ≤ 2 ^ 27 ∧ ∀ s, r.secret = some s → BigEndian.bitLength s.d ≤ 2 ^ 27

end Key

/-! ### The parts of a text -/

namespace Der

/-- The private body of a key is written unless there are more primes, and lists its numbers. -/
theorem Pkcs1.privateBytes_eq {k : RsaKey} {s : RsaSecret} {c : RsaCrt} (hs : k.secret = some s)
    (hc : s.crt = .ok c) :
    privateBytes k =
      if s.primes.length = 2 then
        .ok (sequenceBytes ([0, k.n, k.e, s.d, c.p, c.q, c.dp, c.dq, c.qi].map naturalBytes))
      else .error .keyMalformed := by
  obtain ⟨c', hc', hcrt⟩ := k.exists_crt hs
  obtain rfl := Except.ok.inj (hc.symm.trans hc')
  simp only [privateBytes, hcrt, hs, RsaSecret.isEmpty_more_iff hc]
  rfl

/-- The private body of a key is written unless there are more primes. -/
theorem Pkcs1.exists_privateBytes_iff {k : RsaKey} {s : RsaSecret} (hs : k.secret = some s) :
    (∃ body, privateBytes k = .ok body) ↔ (Key.rsa k).IsTwoPrime := by
  obtain ⟨c, hc, -⟩ := k.exists_crt hs
  rw [privateBytes_eq hs hc, Key.isTwoPrime_rsa_iff hs]
  split <;> simp [*]

end Der

/-- The description of a private key is put together unless there are more primes. -/
theorem Der.Pkcs8.failsUnless_info {k : Key} (h : k.isPrivate = true) :
    FailsUnless (Der.Pkcs8.info k) k.IsTwoPrime := by
  cases k with
  | rsa k =>
    obtain ⟨s, hs⟩ := Option.isSome_iff_exists.mp h
    simp only [info, hs, Option.isNone_some]
    exact ((FailsUnless.of_fault _ _).bind_ok _).congr (Der.Pkcs1.exists_privateBytes_iff hs)
  | ecdsa k =>
    obtain ⟨d, hd⟩ := Option.isSome_iff_exists.mp h
    simp only [info, Der.Sec1.body?, EcKey.scalarBytes?, hd, Option.map_some,
      Result.ofOption_some, ok_bind]
    exact FailsUnless.of_ok _ (Key.isTwoPrime_ecdsa k)
  | ed25519 k =>
    obtain ⟨seed, hseed⟩ := Option.isSome_iff_exists.mp h
    simp only [info, hseed, Result.ofOption_some, ok_bind]
    exact FailsUnless.of_ok _ (Key.isTwoPrime_ed25519 k)

/-- The private numbers of a container are put together unless there are more primes. -/
theorem Ssh.Container.failsUnless_privateFields {k : Key} (h : k.isPrivate = true) :
    FailsUnless (privateFields k) k.IsTwoPrime := by
  cases k with
  | rsa k =>
    obtain ⟨s, hs⟩ := Option.isSome_iff_exists.mp h
    obtain ⟨c, hc, -⟩ := k.exists_crt hs
    simp only [privateFields, hs, hc, Result.ofOption_some, Result.of_ok, ok_bind]
    rw [Key.isTwoPrime_rsa_iff hs, ← RsaSecret.isEmpty_more_iff hc]
    split
    · exact FailsUnless.of_ok _ ‹_›
    · exact FailsUnless.of_failure _ ‹_›
  | ecdsa k =>
    obtain ⟨d, hd⟩ := Option.isSome_iff_exists.mp h
    simp only [privateFields, EcKey.scalarBytes?, hd, Option.map_some, Result.ofOption_some,
      ok_bind]
    exact FailsUnless.of_ok _ (Key.isTwoPrime_ecdsa k)
  | ed25519 k =>
    obtain ⟨seed, hseed⟩ := Option.isSome_iff_exists.mp h
    simp only [privateFields, Ed25519Key.pairBytes?, hseed, Option.map_some,
      Result.ofOption_some, ok_bind]
    exact FailsUnless.of_ok _ (Key.isTwoPrime_ed25519 k)

/-- The form of a key is put together unless there are more primes, Ed25519 keys apart. -/
theorem Jwk.failsUnless_ofKey {k : Key} (hkind : k.algorithm ≠ .ed25519) :
    FailsUnless (ofKey k none)
      ((Der.Spki.publicBytes k).length < Der.lengthLimit ∧ k.IsTwoPrime) := by
  have hid : FailsUnless k.id ((Der.Spki.publicBytes k).length < Der.lengthLimit) :=
    (FailsUnless.of_document? _ _).bind_ok _
  cases k with
  | ed25519 k => exact absurd rfl hkind
  | ecdsa k => exact hid.bind fun kid _ => FailsUnless.of_ok _ (Key.isTwoPrime_ecdsa k)
  | rsa k =>
    refine hid.bind fun kid _ => FailsUnless.bind_ok ?_ _
    unfold ofRsa
    cases hs : k.secret with
    | none =>
      exact FailsUnless.of_ok _ (Key.isTwoPrime_of_public (by rw [Key.isPrivate, hs]; rfl))
    | some s =>
      obtain ⟨c, hc, -⟩ := k.exists_crt hs
      simp only [hc, Result.of_ok, ok_bind]
      rw [Key.isTwoPrime_rsa_iff hs, ← RsaSecret.isEmpty_more_iff hc]
      split
      · exact FailsUnless.of_ok _ ‹_›
      · exact FailsUnless.of_failure _ ‹_›

/-- What an operation gives, as a list, is its result if it has one. -/
theorem mem_toList_toOption_iff {ε α : Type} {x : Except ε α} {a : α} :
    a ∈ x.toOption.toList ↔ x = .ok a := by
  cases x <;> simp [Except.toOption, eq_comm]

namespace ExportFormat

/-! ### The bounds of a format -/

/-- The algorithms whose keys a format takes. -/
def algorithms : ExportFormat → List Algorithm
  | pkcs1 => [.rsa]
  | sec1 => [.ecdsa]
  | jwk => [.rsa, .ecdsa]
  | pkix | pkcs8 | openssh | authorized => [.rsa, .ecdsa, .ed25519]

/-- The formats that list the primes of a private RSA key. -/
def listingPrimes : List ExportFormat :=
  [pkcs1, pkcs8, openssh, jwk]

/-- Whether a format has room for the primes of a key: it lists none, or there are not three. -/
def HasRoom (format : ExportFormat) (k : Key) : Prop :=
  format ∈ listingPrimes → ¬ k.IsMultiPrime

/-- Whether a key is within the bounds of a format. -/
structure Takes (format : ExportFormat) (k : Key) : Prop where
  algorithm : k.algorithm ∈ format.algorithms
  isPrivate : format = pkcs8 → k.isPrivate = true
  hasRoom : format.HasRoom k

/-- The documents that are made for the text of a key in a format: the contents of the armor, or the
description that names the key. -/
def documents : ExportFormat → Key → List Bytes
  | pkix, k | jwk, k => [Der.Spki.publicBytes k]
  | pkcs1, .rsa r =>
    if r.secret.isSome then (Der.Pkcs1.privateBytes r).toOption.toList
    else [Der.Pkcs1.publicBytes r]
  | pkcs8, k => (Der.Pkcs8.info k).toOption.toList.map Der.Pkcs8.PrivateInfo.encode
  | _, _ => []

/-- Whether no document for the text of a key is too long to be one. -/
def Fits (format : ExportFormat) (k : Key) : Prop :=
  ∀ document ∈ format.documents k, document.length < Der.lengthLimit

variable {check : UInt32} {comment : String} {format : ExportFormat} {k : Key}

theorem hasRoom_of_not_mem (h : format ∉ listingPrimes) : format.HasRoom k :=
  fun h' => absurd h' h

theorem hasRoom_iff (h : format ∈ listingPrimes) : format.HasRoom k ↔ k.IsTwoPrime := by
  rw [k.isTwoPrime_iff, HasRoom]
  exact forall_prop_of_true h

theorem fits_of_documents_eq_nil (h : format.documents k = []) : format.Fits k := by
  rw [Fits, h]
  exact List.forall_mem_nil _

/-- The document for a private key with its algorithm is its private body. -/
theorem documents_pkcs1 {r : RsaKey} {s : RsaSecret} (hs : r.secret = some s) {body : Bytes}
    (h : Der.Pkcs1.privateBytes r = .ok body) : pkcs1.documents (.rsa r) = [body] := by
  rw [documents, hs, Option.isSome_some, if_pos rfl, h]
  rfl

/-! ### Keys of an algorithm that a format takes -/

theorem failsUnless_pkix : FailsUnless (encode check comment pkix k) (pkix.Fits k) := by
  refine ((FailsUnless.of_document? _ _).bind_ok _).congr ?_
  rw [Fits, documents, List.forall_mem_singleton]

theorem failsUnless_pkcs1 (r : RsaKey) :
    FailsUnless (encode check comment pkcs1 (.rsa r))
      ((Key.rsa r).IsTwoPrime ∧ pkcs1.Fits (.rsa r)) := by
  cases hs : r.secret with
  | none =>
    have hpublic : (Key.rsa r).isPrivate = false := by rw [Key.isPrivate, hs]; rfl
    have htwo := Key.isTwoPrime_of_public hpublic
    simp only [encode, hpublic, KeyFile.encodeRsaPublic, Key.toRsa, ok_bind, Der.Pkcs1.encodePublic]
    refine ((FailsUnless.of_document? _ _).bind_ok _).congr ?_
    rw [and_iff_right htwo, Fits, documents, hs, if_neg (by simp), List.forall_mem_singleton]
  | some s =>
    have hprivate : (Key.rsa r).isPrivate = true := by rw [Key.isPrivate, hs]; rfl
    simp only [encode, hprivate, KeyFile.encodeRsaPrivate, Key.toRsa, ok_bind,
      Der.Pkcs1.encodePrivate, hs]
    refine FailsUnless.bind_ok ?_ _
    refine ((FailsUnless.of_fault _ _).congr (Der.Pkcs1.exists_privateBytes_iff hs)).bind
      fun body hbody => (FailsUnless.of_document? _ _).congr ?_
    rw [Result.of_eq_ok_iff] at hbody
    rw [Fits, documents_pkcs1 hs hbody, List.forall_mem_singleton]

theorem failsUnless_pkcs8 (h : k.isPrivate = true) :
    FailsUnless (encode check comment pkcs8 k) (k.IsTwoPrime ∧ pkcs8.Fits k) := by
  refine FailsUnless.bind_ok ?_ _
  refine (Der.Pkcs8.failsUnless_info h).bind fun info hinfo =>
    (FailsUnless.of_document? _ _).congr ?_
  have hdocuments : pkcs8.documents k = [info.encode] := by rw [documents, hinfo]; rfl
  rw [Fits, hdocuments, List.forall_mem_singleton]

theorem failsUnless_sec1 (k : EcKey) : FailsUnless (encode check comment sec1 (.ecdsa k)) True := by
  cases hd : k.scalar with
  | none =>
    have hpublic : (Key.ecdsa k).isPrivate = false := by rw [Key.isPrivate, hd]; rfl
    have hlength : (Der.Spki.publicBytes (.ecdsa k)).length < Der.lengthLimit :=
      Der.Spki.length_publicBytes_lt (by rintro r ⟨⟩)
    simp only [encode, hpublic, KeyFile.encodeEcPublic, Key.expect, Key.algorithm, if_true, ok_bind,
      Der.Spki.encode]
    exact ((FailsUnless.of_document? _ _).bind_ok _).congr (iff_true_intro hlength)
  | some d =>
    have hprivate : (Key.ecdsa k).isPrivate = true := by rw [Key.isPrivate, hd]; rfl
    simp only [encode, hprivate, KeyFile.encodeEcPrivate, Key.toEcdsa, ok_bind, Der.Sec1.encode,
      Der.Sec1.body?, EcKey.scalarBytes?, hd, Option.map_some, Result.ofOption_some]
    exact FailsUnless.of_ok _ trivial

theorem failsUnless_openssh : FailsUnless (encode check comment openssh k) k.IsTwoPrime := by
  cases hprivate : k.isPrivate with
  | false =>
    simp only [encode, hprivate]
    exact FailsUnless.of_ok _ (Key.isTwoPrime_of_public hprivate)
  | true =>
    simp only [encode, hprivate]
    exact ((Ssh.Container.failsUnless_privateFields hprivate).bind_ok _).bind_ok _

theorem failsUnless_jwk (hkind : k.algorithm ≠ .ed25519) :
    FailsUnless (encode check comment jwk k) (k.IsTwoPrime ∧ jwk.Fits k) := by
  refine ((Jwk.failsUnless_ofKey hkind).bind_ok _).congr ?_
  rw [and_comm, Fits, documents, List.forall_mem_singleton]

/-- A key of an algorithm that a format takes, and a private one where the format asks for it, has a
text in the format unless there are more primes than the format lists or a document is too long. -/
theorem failsUnless_encode (halgorithm : k.algorithm ∈ format.algorithms)
    (hprivate : format = pkcs8 → k.isPrivate = true) :
    FailsUnless (encode check comment format k)
      (format.HasRoom k ∧ format.Fits k) := by
  cases format with
  | pkix =>
    have hroom : pkix.HasRoom k := hasRoom_of_not_mem (by decide)
    exact failsUnless_pkix.congr (and_iff_right hroom).symm
  | pkcs1 =>
    cases k with
    | rsa r => exact (failsUnless_pkcs1 r).congr (and_congr_left' (hasRoom_iff (by decide)).symm)
    | ecdsa r => simp [algorithms, Key.algorithm] at halgorithm
    | ed25519 r => simp [algorithms, Key.algorithm] at halgorithm
  | pkcs8 =>
    exact (failsUnless_pkcs8 (hprivate rfl)).congr
      (and_congr_left' (hasRoom_iff (by decide)).symm)
  | sec1 =>
    cases k with
    | rsa r => simp [algorithms, Key.algorithm] at halgorithm
    | ecdsa r =>
      exact (failsUnless_sec1 r).congr (iff_of_true trivial
        ⟨hasRoom_of_not_mem (by decide), fits_of_documents_eq_nil rfl⟩)
    | ed25519 r => simp [algorithms, Key.algorithm] at halgorithm
  | openssh =>
    have hfits : openssh.Fits k := fits_of_documents_eq_nil rfl
    exact failsUnless_openssh.congr
      ((hasRoom_iff (by decide)).symm.trans (and_iff_left hfits).symm)
  | authorized =>
    exact FailsUnless.of_ok _ ⟨hasRoom_of_not_mem (by decide), fits_of_documents_eq_nil rfl⟩
  | jwk =>
    have hkind : k.algorithm ≠ .ed25519 := by
      intro h
      simp [algorithms, h] at halgorithm
    exact (failsUnless_jwk hkind).congr (and_congr_left' (hasRoom_iff (by decide)).symm)

/-! ### Keys outside of the bounds -/

/-- A key of an algorithm that a format does not take meets the error for this. -/
theorem encode_of_not_mem_algorithms (h : k.algorithm ∉ format.algorithms) :
    ∃ expected,
      encode check comment format k = .error (.algorithmMismatch expected k.algorithm.name) := by
  have hall : ∀ k : Key, k.algorithm ∈ [.rsa, .ecdsa, .ed25519] := by
    intro k
    cases k <;> simp [Key.algorithm]
  cases format with
  | pkix => exact absurd (hall k) h
  | pkcs1 =>
    cases hprivate : k.isPrivate <;> cases k
    case false.rsa | true.rsa => exact absurd (List.mem_singleton_self _) h
    all_goals
      simp only [encode, hprivate]
      exact ⟨_, rfl⟩
  | pkcs8 => exact absurd (hall k) h
  | sec1 =>
    cases hprivate : k.isPrivate <;> cases k
    case false.ecdsa | true.ecdsa => exact absurd (List.mem_singleton_self _) h
    all_goals
      simp only [encode, hprivate]
      exact ⟨_, rfl⟩
  | openssh => exact absurd (hall k) h
  | authorized => exact absurd (hall k) h
  | jwk =>
    cases k with
    | rsa r => exact absurd (List.mem_cons_self) h
    | ecdsa r => exact absurd (List.mem_cons_of_mem _ (List.mem_singleton_self _)) h
    | ed25519 r =>
      obtain ⟨kid, hkid⟩ := (Jwk.exists_id_iff (.ed25519 r)).mpr
        (Der.Spki.length_publicBytes_lt (by rintro r ⟨⟩))
      rw [encode, Jwk.ofKey, hkid]
      exact ⟨_, rfl⟩

/-- A public key has no form as a private key with its algorithm. -/
theorem encode_pkcs8_of_public (h : k.isPrivate = false) :
    encode check comment pkcs8 k = .error .missingPrivate := by
  cases k with
  | rsa r =>
    have hs : r.secret = none := by simpa [Key.isPrivate] using h
    rw [encode, KeyFile.encodePrivateInfo, Der.Pkcs8.encode, Der.Pkcs8.info, hs]
    rfl
  | ecdsa r =>
    have hd : r.scalar = none := by simpa [Key.isPrivate] using h
    rw [encode, KeyFile.encodePrivateInfo, Der.Pkcs8.encode, Der.Pkcs8.info, Der.Sec1.body?,
      EcKey.scalarBytes?, hd]
    rfl
  | ed25519 r =>
    have hseed : r.seed = none := by simpa [Key.isPrivate] using h
    rw [encode, KeyFile.encodePrivateInfo, Der.Pkcs8.encode, Der.Pkcs8.info, hseed]
    rfl

/-- Every format that lists primes takes all RSA keys, so a key with more primes fails for them and
for nothing else. -/
theorem encode_of_isMultiPrime (hformat : format ∈ listingPrimes) (h : k.IsMultiPrime) :
    ∃ cause, encode check comment format k = .error (.failure cause) := by
  have hroom : ¬ format.HasRoom k := fun hroom => hroom hformat h
  obtain ⟨r, s, rfl, hs, -⟩ := h
  have halgorithm : Algorithm.rsa ∈ format.algorithms := by
    revert hformat
    cases format <;> decide
  have hprivate : (Key.rsa r).isPrivate = true := by rw [Key.isPrivate, hs]; rfl
  exact (failsUnless_encode halgorithm fun _ => hprivate).fails fun hfits => hroom hfits.1

end ExportFormat

/-! ### Lengths of documents -/

namespace Der

/-- Numbers of few octets make few octets together. -/
theorem length_flatten_naturalBytes_le {ns : List Nat} {bound : Nat} (hpos : 1 ≤ bound)
    (hbound : bound + 1 < lengthLimit) (h : ∀ n ∈ ns, BigEndian.size n ≤ bound) :
    (ns.map naturalBytes).flatten.length ≤ ns.length * (bound + 7) := by
  induction ns with
  | nil => exact Nat.zero_le _
  | cons n ns ih =>
    rw [List.forall_mem_cons] at h
    have hminimal : (BigEndian.minimal n).length ≤ bound := by
      rw [BigEndian.minimal, BigEndian.length_fixed]
      exact max_le hpos h.1
    have hn := length_naturalBytes_le hbound hminimal
    have hns := ih h.2
    rw [List.map_cons, List.flatten_cons, List.length_append, List.length_cons, Nat.succ_mul]
    omega

/-- The private body of a key with numbers of modest size is far from being too long. -/
theorem Pkcs1.length_privateBytes_le {k : RsaKey} (hk : (Key.rsa k).IsModest) {body : Bytes}
    (h : privateBytes k = .ok body) : body.length ≤ 2 ^ 28 - 2 ^ 26 := by
  have hlimit := lengthLimit_eq
  obtain ⟨b, -, -, -, -, hs⟩ := privateBytes_eq_ok h
  obtain ⟨c, hc, -⟩ := k.exists_crt hs
  obtain ⟨⟨rest, hprimes, -⟩, hqi, hdp, hdq⟩ := RsaSecret.crt_eq_ok_iff.mp hc
  obtain ⟨hp, hq, -⟩ : b.p = c.p ∧ b.q = c.q ∧ rest = [] := by simpa using hprimes
  obtain ⟨hpn, hqn⟩ := k.primes_le hs
  have hone : 1 < b.p := k.one_lt_of_mem_primes hs (by simp)
  obtain ⟨hmodulus, hexponent⟩ := hk k rfl
  have hsize : ∀ {m : Nat}, BigEndian.bitLength m ≤ 2 ^ 27 → BigEndian.size m ≤ 2 ^ 24 := by
    intro m hm
    rw [BigEndian.size]
    omega
  have hn : ∀ {m : Nat}, m ≤ k.n → BigEndian.size m ≤ 2 ^ 24 := fun hm =>
    (BigEndian.size_mono hm).trans (hsize hmodulus)
  have hd : ∀ {m : Nat}, m ≤ b.d → BigEndian.size m ≤ 2 ^ 24 := fun hm =>
    (BigEndian.size_mono hm).trans (hsize (hexponent _ hs))
  have hnumbers : ∀ m ∈ [0, k.n, k.e, b.d, c.p, c.q, c.dp, c.dq, c.qi],
      BigEndian.size m ≤ 2 ^ 24 := by
    simp only [List.forall_mem_cons]
    have he : BigEndian.bitLength k.e ≤ 2 ^ 27 := k.bitLength_e_le.trans (by decide)
    have hqip : c.qi < c.p := Modular.lt_of_inverse? (by omega) hqi
    refine ⟨hn (Nat.zero_le _), hn le_rfl, hsize he, hd le_rfl, hn (hp ▸ hpn), hn (hq ▸ hqn),
      ?_, ?_, hn (by omega), List.forall_mem_nil _⟩
    · exact hdp ▸ hd (Nat.mod_le _ _)
    · exact hdq ▸ hd (Nat.mod_le _ _)
  have hparts : _ ≤ 9 * (2 ^ 24 + 7) :=
    length_flatten_naturalBytes_le (by decide) (by omega) hnumbers
  have htwo : [b.p, b.q].length = 2 := rfl
  rw [privateBytes_eq hs hc, if_pos htwo, Except.ok.injEq] at h
  rw [← h]
  exact (length_element_le sequenceTag (by omega) hparts).trans (by decide)

/-- The private body of a key is longer than its private exponent. -/
theorem Pkcs1.size_lt_length_privateBytes {k : RsaKey} {s : RsaSecret} (hs : k.secret = some s)
    {body : Bytes} (h : privateBytes k = .ok body) : BigEndian.size s.d < body.length := by
  obtain ⟨c, hc, -⟩ := k.exists_crt hs
  rw [privateBytes_eq hs hc] at h
  split at h
  · rw [Except.ok.injEq, sequenceBytes_eq] at h
    rw [← h]
    refine (size_le_length_naturalBytes s.d).trans_lt ((length_le_length_flatten ?_).trans_lt
      (length_lt_length_element sequenceTag _))
    exact List.mem_map_of_mem (by simp)
  · cases h

/-- The description of a private key with numbers of modest size is not too long, also under a
passphrase. -/
theorem Pkcs8.length_encode_add_lt {k : Key} (hk : k.IsModest) {d : PrivateInfo}
    (h : info k = .ok d) : d.encode.length + 256 < lengthLimit := by
  have hlimit := lengthLimit_eq
  obtain ⟨hrsa, hec, hed⟩ := Spki.length_encode_le
  cases k with
  | rsa k =>
    simp only [info, guard_eq_ok_iff, bind_eq_ok_iff, Result.of_eq_ok_iff, pure_eq_ok_iff] at h
    obtain ⟨-, body, hbody, rfl⟩ := h
    have hlength := Pkcs1.length_privateBytes_le hk hbody
    have hinfo := length_wrap_le hrsa (by omega) hlength
    exact (Nat.add_le_add_right hinfo 256).trans_lt (by omega)
  | ecdsa k =>
    simp only [info, bind_eq_ok_iff, Result.ofOption_eq_ok_iff, pure_eq_ok_iff] at h
    obtain ⟨body, hbody, rfl⟩ := h
    have hinfo := length_wrap_le (hec k.curve) (by omega) (Sec1.length_encode_le hbody)
    exact (Nat.add_le_add_right hinfo 256).trans_lt (by omega)
  | ed25519 k =>
    simp only [info, bind_eq_ok_iff, Result.ofOption_eq_ok_iff, pure_eq_ok_iff] at h
    obtain ⟨seed, -, rfl⟩ := h
    have hseed : (octetStringBytes seed.bytes).length ≤ 32 + 6 :=
      length_element_le octetStringTag (by omega) seed.length_eq.le
    have hpoint : (publicKeyBytes (some k.point.bytes)).length ≤ 33 + 6 :=
      length_element_le (implicitTag 1) (by omega)
        (by rw [List.length_cons, k.point.length_eq])
    have hinfo := @length_encode_le ⟨_, _, some k.point.bytes⟩ hed 77 (by omega)
      ((Nat.add_le_add hseed hpoint).trans (by decide))
    exact (Nat.add_le_add_right hinfo 256).trans_lt (by omega)

end Der

namespace ExportFormat

variable {format : ExportFormat} {k : Key}

/-- No document of a key with numbers of modest size is too long. -/
theorem fits_of_isModest (hk : k.IsModest) : format.Fits k := by
  have hlimit := Der.lengthLimit_eq
  have hpublic : (Der.Spki.publicBytes k).length < Der.lengthLimit :=
    Der.Spki.length_publicBytes_lt fun r hr => (hk r hr).1.trans (by decide)
  intro document hmem
  cases format with
  | pkix =>
    rw [documents, List.mem_singleton] at hmem
    exact hmem ▸ hpublic
  | jwk =>
    rw [documents, List.mem_singleton] at hmem
    exact hmem ▸ hpublic
  | pkcs1 =>
    cases k with
    | rsa r =>
      rw [documents] at hmem
      split at hmem
      · have hlength := Der.Pkcs1.length_privateBytes_le hk (mem_toList_toOption_iff.mp hmem)
        omega
      · rw [List.mem_singleton] at hmem
        rw [hmem]
        exact (Der.Spki.length_lt_length_infoBytes _ _).trans hpublic
    | ecdsa r => cases hmem
    | ed25519 r => cases hmem
  | pkcs8 =>
    obtain ⟨d, hd, rfl⟩ := List.mem_map.mp hmem
    exact (Nat.le_add_right _ _).trans_lt
      (Der.Pkcs8.length_encode_add_lt hk (mem_toList_toOption_iff.mp hd))
  | sec1 => cases hmem
  | openssh => cases hmem
  | authorized => cases hmem

/-- A private key whose document is not too long has a private exponent that is not too long. -/
theorem size_lt_of_fits {r : RsaKey} {s : RsaSecret} (hs : r.secret = some s)
    (htwo : (Key.rsa r).IsTwoPrime) (h : pkcs1.Fits (.rsa r)) :
    BigEndian.size s.d < Der.lengthLimit := by
  obtain ⟨body, hbody⟩ := (Der.Pkcs1.exists_privateBytes_iff hs).mpr htwo
  rw [Fits, documents_pkcs1 hs hbody, List.forall_mem_singleton] at h
  exact (Der.Pkcs1.size_lt_length_privateBytes hs hbody).trans h

/-! ### Success -/

/-- When a key has a text in a format.  The key is of an algorithm that the format takes, it is
private where the format asks for this, and it has no more primes than the format has room for; and
no document for the text has `2 ^ 28` octets or more, which never happens to a key whose numbers
have at most `2 ^ 27` bits.  The comment and the check integer do not matter.  Whatever is missing
is told by the error. -/
theorem exists_encode_iff_takes (format : ExportFormat) (k : Key) (comment : String)
    (check : UInt32) :
    ((∃ text, format.encode check comment k = .ok text) ↔ format.Takes k ∧ format.Fits k) ∧
    (k.IsModest → format.Fits k) ∧
    (k.algorithm ∉ format.algorithms → ∃ expected,
      format.encode check comment k = .error (.algorithmMismatch expected k.algorithm.name)) ∧
    (format = pkcs8 → k.isPrivate = false →
      format.encode check comment k = .error .missingPrivate) ∧
    (format ∈ listingPrimes → k.IsMultiPrime →
      ∃ cause, format.encode check comment k = .error (.failure cause)) ∧
    (format.Takes k → ¬ format.Fits k →
      ∃ cause, format.encode check comment k = .error (.failure cause)) := by
  refine ⟨⟨?_, ?_⟩, fits_of_isModest, encode_of_not_mem_algorithms, ?_,
    encode_of_isMultiPrime, ?_⟩
  · rintro ⟨text, h⟩
    have halgorithm : k.algorithm ∈ format.algorithms := by
      by_contra halgorithm
      obtain ⟨expected, herror⟩ := encode_of_not_mem_algorithms halgorithm
      rw [herror] at h
      cases h
    have hprivate : format = pkcs8 → k.isPrivate = true := by
      rintro rfl
      by_contra hpublic
      rw [encode_pkcs8_of_public (Bool.eq_false_iff.mpr hpublic)] at h
      cases h
    obtain ⟨hroom, hfits⟩ :=
      (failsUnless_encode halgorithm hprivate).exists_eq_ok_iff.mp ⟨text, h⟩
    exact ⟨⟨halgorithm, hprivate, hroom⟩, hfits⟩
  · rintro ⟨htakes, hfits⟩
    exact (failsUnless_encode htakes.algorithm htakes.isPrivate).succeeds ⟨htakes.hasRoom, hfits⟩
  · rintro rfl hpublic
    exact encode_pkcs8_of_public hpublic
  · intro htakes hfits
    exact (failsUnless_encode htakes.algorithm htakes.isPrivate).fails fun h => hfits h.2

/-- A key with the three primes 3, 5 and 7. -/
def threePrimeKey : RsaKey where
  n := 105
  e := 5
  secret := some ⟨5, [3, 5, 7]⟩
  isPublic := by decide
  isConsistent := by
    rintro s ⟨rfl⟩
    exact ⟨by decide, exists_eq_ok (by cbv)⟩

/-- The key with the modulus 15 has a text with its algorithm and none as a curve key, and without
its secret none as a private key.  A key with three primes has no text as an RSA key by itself, but
one in a list of keys. -/
theorem exists_encode_iff_takes_fifteen :
    (∃ text, pkcs8.encode 7 "laptop" (.rsa .fifteen) = .ok text) ∧
    (∃ expected, sec1.encode 7 "laptop" (.rsa .fifteen) =
      .error (.algorithmMismatch expected Algorithm.rsa.name)) ∧
    pkcs8.encode 7 "laptop" (.rsa RsaKey.fifteen.toPublic) = .error .missingPrivate ∧
    (∃ cause, pkcs1.encode 7 "laptop" (.rsa threePrimeKey) = .error (.failure cause)) ∧
    ∃ text, authorized.encode 7 "laptop" (.rsa threePrimeKey) = .ok text := by
  have hmodest : (Key.rsa .fifteen).IsModest := by
    rintro r ⟨rfl⟩
    refine ⟨by cbv, ?_⟩
    rintro s ⟨rfl⟩
    cbv
  have htwo : ¬ (Key.rsa .fifteen).IsMultiPrime := by
    rintro ⟨r, s, ⟨rfl⟩, ⟨rfl⟩, hlength⟩
    exact absurd hlength (by decide)
  have hmore : (Key.rsa threePrimeKey).IsMultiPrime := ⟨_, _, rfl, rfl, le_rfl⟩
  refine ⟨?_, ?_, ?_, ?_, ?_⟩
  · obtain ⟨hiff, hfits, -⟩ := exists_encode_iff_takes pkcs8 (.rsa .fifteen) "laptop" 7
    exact hiff.mpr ⟨⟨List.mem_cons_self, fun _ => rfl, fun _ => htwo⟩, hfits hmodest⟩
  · exact (exists_encode_iff_takes sec1 (.rsa .fifteen) "laptop" 7).2.2.1 (by decide)
  · exact (exists_encode_iff_takes pkcs8 (.rsa RsaKey.fifteen.toPublic) "laptop" 7).2.2.2.1 rfl rfl
  · exact (exists_encode_iff_takes pkcs1 (.rsa threePrimeKey) "laptop" 7).2.2.2.2.1 (by decide)
      hmore
  · obtain ⟨hiff, -⟩ := exists_encode_iff_takes authorized (.rsa threePrimeKey) "laptop" 7
    exact hiff.mpr ⟨⟨List.mem_cons_self, by rintro ⟨⟩, hasRoom_of_not_mem (by decide)⟩,
      fits_of_documents_eq_nil rfl⟩

/-! ### Keys at the end of the range -/

/-- A multiple of four in the private exponent of the key with the modulus 15 changes nothing modulo
the primes less one. -/
theorem longFifteen_isConsistent (t : Nat) (s : RsaSecret)
    (hs : some ⟨4 * t + 3, [3, 5]⟩ = some s) :
    RsaKey.secretFault? 15 3 s = none ∧ ∃ c, s.crt = .ok c := by
  cases hs
  have hpublic : RsaKey.publicFault? 15 3 = none := RsaKey.fifteen.isPublic
  have hthree : 3 * (4 * t + 3) % (3 - 1) = 1 := by omega
  have hfive : 3 * (4 * t + 3) % (5 - 1) = 1 := by omega
  refine ⟨?_, RsaSecret.exists_crt_of_inverse? _ (by cbv)⟩
  simp [RsaKey.secretFault?, hpublic, hthree, hfive]

/-- The key with the modulus 15 and a private exponent that is larger by a multiple of four. -/
def longFifteen (t : Nat) : RsaKey where
  n := 15
  e := 3
  secret := some ⟨4 * t + 3, [3, 5]⟩
  isPublic := RsaKey.fifteen.isPublic
  isConsistent := longFifteen_isConsistent t

theorem longFifteen_isTwoPrime (t : Nat) : (Key.rsa (longFifteen t)).IsTwoPrime :=
  (Key.isTwoPrime_rsa_iff rfl).mpr rfl

/-- The key is read from the form that has its numbers, however large the exponent is. -/
theorem exists_toKey_eq_longFifteen (t : Nat) :
    ∃ j, Jwk.toKey j = .ok (.rsa (longFifteen t)) := by
  have hnumber := Jwk.memberNumber_number
  refine ⟨{ kty := Jwk.rsaType, n := Jwk.number 15, e := Jwk.number 3, d := Jwk.number (4 * t + 3)
            p := Jwk.number 3, q := Jwk.number 5 }, Jwk.toKey_eq_ok_iff.mpr ⟨rfl, ?_⟩⟩
  refine Jwk.rsaKey_eq_ok_iff.mpr ⟨hnumber "n" 15, hnumber "e" 3, ?_⟩
  exact ⟨4 * t + 3, 3, 5, hnumber "d" _, hnumber "p" 3, hnumber "q" 5, rfl⟩

/-- The key is within the bounds of a format for RSA keys. -/
theorem takes_longFifteen (t : Nat) : pkcs1.Takes (.rsa (longFifteen t)) where
  algorithm := List.mem_singleton_self _
  isPrivate := by rintro ⟨⟩
  hasRoom := (hasRoom_iff (by decide)).mpr (longFifteen_isTwoPrime t)

/-- An exponent with as many octets as no document has leaves the key without a text. -/
theorem encode_longFifteen {t : Nat} (h : 256 ^ Der.lengthLimit ≤ t) :
    ∃ cause, encode check comment pkcs1 (.rsa (longFifteen t)) = .error (.failure cause) := by
  have hsize : ¬ BigEndian.size (4 * t + 3) < Der.lengthLimit := by
    intro hshort
    have := (BigEndian.size_le_iff _ _).mp hshort.le
    omega
  exact (failsUnless_pkcs1 _).fails fun hwithin =>
    hsize (size_lt_of_fits rfl hwithin.1 hwithin.2)

/-- The bounds alone do not tell when a key has a text.  A key with the modulus 15 whose private
exponent has more than `2 ^ 28` octets is within them and can be read, but it has no text with its
algorithm, whatever the comment and the check integer are.  And not every private key with three
primes fails for them: in a format for curve keys it meets the error for its algorithm. -/
theorem exists_takes_encode_eq_error :
    (∃ j k, Jwk.toKey j = .ok (.rsa k) ∧ k.n = 15 ∧ k.e = 3 ∧
      k.secret = some ⟨4 * 256 ^ 2 ^ 28 + 3, [3, 5]⟩ ∧ pkcs1.Takes (.rsa k) ∧
      ∀ comment check, ∃ cause, pkcs1.encode check comment (.rsa k) = .error (.failure cause)) ∧
    (Key.rsa threePrimeKey).IsMultiPrime ∧
    ∀ comment check, ∃ expected, sec1.encode check comment (.rsa threePrimeKey) =
      .error (.algorithmMismatch expected Algorithm.rsa.name) := by
  refine ⟨?_, ⟨_, _, rfl, rfl, le_rfl⟩, fun _ _ => encode_of_not_mem_algorithms (by decide)⟩
  obtain ⟨j, hj⟩ := exists_toKey_eq_longFifteen (256 ^ 2 ^ 28)
  refine ⟨j, _, hj, rfl, rfl, rfl, takes_longFifteen _, fun comment check => encode_longFifteen ?_⟩
  rw [Der.lengthLimit_eq]

end ExportFormat

end KeySmith

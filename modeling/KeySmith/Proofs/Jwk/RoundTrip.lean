import KeySmith.Key.Id
import KeySmith.Proofs.Base64
import KeySmith.Proofs.Der.Spki
import KeySmith.Proofs.Json
import KeySmith.Proofs.Jwk

/-!
# JSON Web Keys and their texts

The members of a form have different names and hold texts, so its text is read as the same form
whatever these texts consist of.  A form in turn leads back to its key: numbers of an RSA key are
written in their shortest form and read in any, and coordinates of a curve key have the full width
that reading asks for.  A public key with a modulus above the limit has a form too, but the form is
not read.
-/

namespace KeySmith.Jwk

/-! ### Text -/

/-- The member of a field, if the field has a value. -/
def member? (f : String × Option String) : Option (String × Json.Scalar) :=
  f.2.map fun s => (f.1, .text s)

@[simp] theorem member?_none (name : String) : member? (name, none) = none :=
  rfl

/-- The names with the values of the members, as far as these are there. -/
def fields (j : Jwk) : List (String × Option String) :=
  names.zip (some j.kty :: j.optional)

/-- Octets are read back from a member. -/
theorem memberOctets_octets (name : String) (bs : Bytes) :
    memberOctets name (octets bs) = .ok bs := by
  have hread : Base64.decodeText Base64.url (Base64.encode Base64.url bs) = .ok bs :=
    Base64.decodeText_encode Base64.url_isFaithful bs
  simp only [memberOctets, required, octets, Result.ofOption_some, ok_bind, hread, Result.of_ok]

/-- A number is read back from a member. -/
theorem memberNumber_number (name : String) (n : Nat) : memberNumber name (number n) = .ok n :=
  memberNumber_eq_ok_iff.mpr ⟨_, memberOctets_octets name _, BigEndian.toNat_minimal n⟩

/-! ### Forms of RSA keys -/

/-- The form of an RSA key holds its numbers, those of the secret only when there is one.  There is
no form for more than two primes. -/
theorem ofRsa_eq_ok_iff {k : RsaKey} {j : Jwk} :
    ofRsa k = .ok j ↔
      (k.secret = none ∧
        j = { kty := rsaType, alg := some rsaAlgorithm, n := number k.n, e := number k.e }) ∨
      ∃ d p q qi, k.secret = some ⟨d, [p, q]⟩ ∧ Modular.inverse? p q = some qi ∧
        j = { kty := rsaType, alg := some rsaAlgorithm, n := number k.n, e := number k.e
              d := number d, p := number p, q := number q, dp := number (d % (p - 1))
              dq := number (d % (q - 1)), qi := number qi } := by
  unfold ofRsa
  cases hs : k.secret with
  | none =>
    simp only [pure_eq_ok_iff, reduceCtorEq, false_and, exists_false, or_false, true_and]
    exact eq_comm
  | some s =>
    simp only [bind_eq_ok_iff, Result.of_eq_ok_iff, reduceCtorEq, false_and, false_or]
    constructor
    · rintro ⟨c, hc, h⟩
      split at h
      · rename_i hmore
        obtain ⟨-, hqi, hdp, hdq⟩ := RsaSecret.crt_eq_ok_iff.mp hc
        have hprimes := (RsaSecret.more_eq_nil_iff hc).mp (List.isEmpty_iff.mp hmore)
        refine ⟨s.d, c.p, c.q, c.qi, ?_, hqi, ?_⟩
        · rw [← hprimes]
        · rw [← hdp, ← hdq]
          exact (pure_eq_ok_iff.mp h).symm
      · exact absurd h throw_ne_ok
    · rintro ⟨d, p, q, qi, hsecret, hqi, rfl⟩
      cases hsecret
      exact ⟨⟨p, q, d % (p - 1), d % (q - 1), qi, []⟩,
        RsaSecret.crt_eq_ok_iff.mpr ⟨⟨[], rfl, rfl⟩, hqi, rfl, rfl⟩, rfl⟩

/-- The form of an RSA key is read back, exactly when the key is private or its modulus is not too
large for a public key. -/
theorem rsaKey_ofRsa_iff {k : RsaKey} {j : Jwk} (h : ofRsa k = .ok j) :
    rsaKey j = .ok k ↔ k.secret.isSome = true ∨ k.bits ≤ RsaKey.sizeLimit := by
  rw [rsaKey_eq_ok_iff]
  rcases ofRsa_eq_ok_iff.mp h with ⟨hs, rfl⟩ | ⟨d, p, q, qi, hs, -, rfl⟩
  · simp only [memberNumber_number, isPrivate, hs, Option.isSome_none, Bool.false_eq_true,
      if_false, true_and, and_true, false_or]
  · have hprivate : (number d).isSome = true := rfl
    simp only [memberNumber_number, isPrivate, hs, hprivate, if_true, true_and,
      Option.isSome_some, true_or, iff_true]
    exact ⟨d, p, q, rfl, rfl, rfl, rfl⟩

/-! ### Forms of curve keys -/

/-- A curve is meant by its name. -/
theorem ofSpelling?_name (c : Curve) : Curve.ofSpelling? c.name = some c := by
  have hlower : c.name.map Char.toLower = "p-" ++ toString c.bits := by
    apply String.toList_inj.mp
    rw [String.toList_map]
    cases c <;> decide
  unfold Curve.ofSpelling?
  simp only [hlower]
  cases c <;> decide

/-- The form of a curve key is read back. -/
theorem ecKey_ofEc (k : EcKey) : ecKey (ofEc k) = .ok k := by
  rw [ecKey_eq_ok_iff]
  refine ⟨⟨k.curve.name, rfl, ofSpelling?_name k.curve⟩, memberOctets_octets "x" _,
    memberOctets_octets "y" _, ?_⟩
  cases hd : k.scalar with
  | none => simp [ofEc, EcKey.scalarBytes?, hd]
  | some d =>
    simp only [ofEc, EcKey.scalarBytes?, hd, Option.map_some, Option.bind_some]
    exact memberOctets_octets "d" _

/-! ### Forms of keys -/

/-- The form of a key before it has a `kid`. -/
def bare : Key → Result Jwk
  | .rsa k => ofRsa k
  | .ecdsa k => pure (ofEc k)
  | .ed25519 _ => throw unsupported

/-- The form of a key has the given `kid`, or its identifier for one. -/
theorem ofKey_eq_ok_iff {k : Key} {kid? : Option String} {j : Jwk} :
    ofKey k kid? = .ok j ↔
      ∃ kid form, (kid? = some kid ∨ (kid? = none ∧ k.id = .ok kid)) ∧ bare k = .ok form ∧
        j = { form with kid := some kid } := by
  have hgiven : ∀ kid, ofKey k (some kid) = .ok j ↔
      ∃ form, bare k = .ok form ∧ j = { form with kid := some kid } := by
    intro kid
    cases k <;>
      simp only [ofKey, bare, bind_eq_ok_iff, pure_eq_ok_iff, exists_eq_left', @eq_comm _ _ j]
  have hown : ofKey k none = .ok j ↔
      ∃ kid, k.id = .ok kid ∧ ofKey k (some kid) = .ok j := by
    cases k <;> simp only [ofKey, bind_eq_ok_iff, pure_eq_ok_iff, exists_eq_left']
  cases kid? with
  | none =>
    simp only [hown, hgiven, reduceCtorEq, false_or, true_and, exists_and_left]
  | some given =>
    simp only [hgiven, Option.some.injEq, reduceCtorEq, false_and, or_false, exists_and_left,
      exists_eq_left']

/-- Every key with at most two primes has a form, Ed25519 keys apart. -/
theorem exists_bare {k : Key} (hkind : k.algorithm ≠ .ed25519) (htwo : k.IsTwoPrime) :
    ∃ form, bare k = .ok form := by
  cases k with
  | ed25519 k => exact absurd rfl hkind
  | ecdsa k => exact ⟨ofEc k, rfl⟩
  | rsa k =>
    cases hs : k.secret with
    | none => exact ⟨_, ofRsa_eq_ok_iff.mpr (Or.inl ⟨hs, rfl⟩)⟩
    | some s =>
      obtain ⟨c, hc, -⟩ := k.exists_crt hs
      obtain ⟨⟨rest, hprimes, -⟩, hqi, -⟩ := RsaSecret.crt_eq_ok_iff.mp hc
      have hlength : s.primes.length = 2 := htwo k s rfl hs
      obtain rfl : rest = [] := by
        rw [hprimes] at hlength
        exact List.length_eq_zero_iff.mp (by simpa using hlength)
      refine ⟨_, ofRsa_eq_ok_iff.mpr (Or.inr ⟨s.d, c.p, c.q, c.qi, ?_, hqi, rfl⟩)⟩
      rw [hs, ← hprimes]

/-- The form of a key leads back to the key, exactly when the key is private or its modulus, if it
has one, is not too large for a public key.  The `kid` has no part in it. -/
theorem toKey_bare_iff {k : Key} {form : Jwk} (h : bare k = .ok form) (kid : Option String) :
    toKey { form with kid := kid } = .ok k ↔ k.isPrivate = true ∨ k.IsReadable := by
  rw [toKey_eq_ok_iff]
  cases k with
  | ed25519 k => exact absurd h throw_ne_ok
  | ecdsa k =>
    obtain rfl := pure_eq_ok_iff.mp h
    exact iff_of_true ⟨rfl, ecKey_ofEc k⟩ (Or.inr (Key.isReadable_ecdsa k))
  | rsa k =>
    have hkty : form.kty = rsaType := by
      rcases ofRsa_eq_ok_iff.mp h with ⟨-, rfl⟩ | ⟨d, p, q, qi, -, -, rfl⟩ <;> rfl
    rw [Key.isReadable_rsa]
    refine Iff.trans ?_ (rsaKey_ofRsa_iff h)
    exact and_iff_right hkty

/-- A key has an identifier exactly when its description is not too long to be written. -/
theorem exists_id_iff (k : Key) :
    (∃ id, k.id = .ok id) ↔ (Der.Spki.publicBytes k).length < Der.lengthLimit := by
  rw [← Der.Spki.exists_encode_iff]
  simp only [Key.id, bind_eq_ok_iff, pure_eq_ok_iff]
  constructor
  · rintro ⟨-, out, hout, -⟩
    exact ⟨out, hout⟩
  · rintro ⟨out, hout⟩
    exact ⟨_, out, hout, rfl⟩

end KeySmith.Jwk

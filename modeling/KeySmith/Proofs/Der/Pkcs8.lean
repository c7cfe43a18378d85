import KeySmith.Der.Pkcs8
import KeySmith.Proofs.Der.Sec1
import KeySmith.Proofs.Der.Spki

/-!
# Reading private key descriptions back

A description of a valid algorithm is read back, with the public key or without.  The one that is
written for a private key leads to the same key.
-/

namespace KeySmith.Der.Pkcs8

variable {bs : Bytes}

/-! ### Descriptions -/

/-- The octets of the public key where it is given. -/
def publicKeyBytes (key? : Option Bytes) : Bytes :=
  (key?.map fun bs => element (implicitTag 1) (0 :: bs)).getD []

/-- The version of a description with or without a public key. -/
def version (key? : Option Bytes) : Nat :=
  if key?.isSome then 1 else 0

/-- A description is a sequence of the version, the algorithm, the key and the public key. -/
theorem encode_eq (info : PrivateInfo) :
    info.encode = element sequenceTag (naturalBytes (version info.publicKey) ++
      (info.algorithm.encode ++ (octetStringBytes info.key ++ publicKeyBytes info.publicKey))) := by
  simp [PrivateInfo.encode, sequenceBytes_eq, publicKeyBytes, version]

/-- The key is shorter than its description. -/
theorem length_lt_length_encode (info : PrivateInfo) : info.key.length < info.encode.length := by
  have hkey := length_lt_length_element octetStringTag info.key
  have hinfo := length_lt_length_element sequenceTag (naturalBytes (version info.publicKey) ++
    (info.algorithm.encode ++ (octetStringBytes info.key ++ publicKeyBytes info.publicKey)))
  simp only [List.length_append, octetStringBytes] at hinfo
  rw [encode_eq, octetStringBytes]
  omega

/-- A description takes at most 64 octets more than the key and the public key in it. -/
theorem length_encode_le {info : PrivateInfo} (ha : info.algorithm.encode.length ≤ 32) {bound : Nat}
    (hbound : bound + 64 < lengthLimit)
    (hkeys : info.key.length + (publicKeyBytes info.publicKey).length ≤ bound) :
    info.encode.length ≤ bound + 64 := by
  have hversion : (naturalBytes (version info.publicKey)).length = 3 := by
    unfold version
    split <;> decide
  have hstring : (octetStringBytes info.key).length ≤ info.key.length + 6 :=
    length_element_le octetStringTag (by omega) le_rfl
  have hparts : (naturalBytes (version info.publicKey) ++ (info.algorithm.encode ++
      (octetStringBytes info.key ++ publicKeyBytes info.publicKey))).length ≤ bound + 41 := by
    simp only [List.length_append]
    omega
  have hinfo := length_element_le sequenceTag (by omega) hparts
  rw [encode_eq]
  omega

/-- The content of a whole bit string gives its octets. -/
theorem bitsOfContent?_cons (key : Bytes) : bitsOfContent? (0 :: key) = some key := by
  simp [bitsOfContent?, BitString.ofContent?, BitString.whole?]

/-- The public key, or that there is none, is read back at the end. -/
theorem publicKey_field? {key? : Option Bytes}
    (hlimit : (publicKeyBytes key?).length < lengthLimit) :
    field? 1 (content (implicitTag 1)) (publicKeyBytes key?) = some (key?.map (0 :: ·), []) := by
  cases key? with
  | none => rfl
  | some key =>
    have hkey : (0 :: key).length < lengthLimit :=
      (length_lt_length_element (implicitTag 1) (0 :: key)).trans hlimit
    have hread : field? 1 (content (implicitTag 1)) (element (implicitTag 1) (0 :: key) ++ []) =
        some (some (0 :: key), []) :=
      field?_element_self (by decide) (by decide) (by decide)
        (content_eq_some_iff.mpr ⟨by decide, hkey, rfl⟩)
    rwa [List.append_nil] at hread

/-- A description of a valid algorithm is read back. -/
theorem decode_encode_info {info : PrivateInfo} (ha : info.algorithm.IsValid)
    (hlimit : info.encode.length < lengthLimit) : PrivateInfo.decode info.encode = .ok info := by
  rw [encode_eq] at hlimit ⊢
  have hparts := (length_lt_length_element sequenceTag _).trans hlimit
  have hlens := hparts
  simp only [List.length_append] at hlens
  have hversion := length_lt_length_element integerTag (naturalContent (version info.publicKey))
  have halgorithm := length_lt_length_element sequenceTag info.algorithm.body
  have hkey := length_lt_length_element octetStringTag info.key
  rw [naturalBytes_eq, octetStringBytes, AlgorithmId.encode_eq] at hlens
  have hbelow : version info.publicKey < 2 := by
    unfold version
    split <;> decide
  rw [PrivateInfo.decode, Result.ofOption_eq_ok_iff, readDocument?_eq_some_iff]
  refine ⟨hlimit, ?_⟩
  unfold readInfo
  rw [sequence_eq_some_iff]
  refine ⟨_, hparts, (List.append_nil _).symm, ?_⟩
  simp only [Reader.bind_eq_some_iff, naturalBelow_eq_some_iff, AlgorithmId.read_eq_some_iff,
    octetString_eq_some_iff]
  refine ⟨version info.publicKey, _, ⟨hbelow, by omega, rfl⟩, info.algorithm, _,
    ⟨ha, by omega, rfl⟩, info.key, _, ⟨by omega, rfl⟩, info.publicKey.map (0 :: ·), [],
    publicKey_field? (by omega), ?_⟩
  obtain ⟨algorithm, key, publicKey⟩ := info
  cases publicKey with
  | none => rfl
  | some publicKey =>
    simp only [Option.map_some, bitsOfContent?_cons]
    rfl

/-! ### Keys of descriptions -/

/-- A description of an RSA key is one with the null value and a private body. -/
theorem rsaKey_eq_ok_iff {info : PrivateInfo} {k : RsaKey} :
    rsaKey info = .ok k ↔
      info.algorithm.rsaFault? = none ∧ Pkcs1.parsePrivate infoError info.key = .ok k := by
  unfold rsaKey
  split
  · rename_i fault hfault
    simp only [hfault, reduceCtorEq, false_and, iff_false]
    exact throw_ne_ok
  · rename_i hnone
    have hfault : info.algorithm.rsaFault? = none := Option.eq_none_iff_forall_ne_some.mpr hnone
    simp only [hfault, true_and]

/-- A description of a key on a curve names the curve and holds a body for it. -/
theorem ecKey_eq_ok_iff {info : PrivateInfo} {k : EcKey} :
    ecKey info = .ok k ↔
      ∃ c body, info.algorithm.curve = .ok c ∧
        readDocument? Sec1.readBody info.key = some body ∧ body.key? c = some k := by
  simp only [ecKey, bind_eq_ok_iff, Result.ofOption_eq_ok_iff, Option.bind_eq_some_iff]
  constructor
  · rintro ⟨c, hc, body, hbody, hk⟩
    exact ⟨c, body, hc, hbody, hk⟩
  · rintro ⟨c, body, hc, hbody, hk⟩
    exact ⟨c, hc, body, hbody, hk⟩

/-- The seed is an octet string of 32 octets. -/
theorem seed?_eq_some_iff {seed : Octets 32} :
    seed? bs = some seed ↔ bs = octetStringBytes seed.bytes := by
  have hbytes : octetStringBytes seed.bytes = 0x04 :: 0x20 :: seed.bytes := by
    rw [octetStringBytes, element, Element.encode, seed.length_eq]
    rfl
  rw [hbytes]
  constructor
  · intro h
    unfold seed? at h
    split at h
    · rw [Octets.ofBytes?_eq_some_iff.mp h]
    · cases h
  · rintro rfl
    exact Octets.ofBytes?_bytes seed

/-- A description of an Ed25519 key has no parameters and holds a seed.  The public key, where it is
given, is the one of the seed. -/
theorem ed25519Key_eq_ok_iff {info : PrivateInfo} {k : Ed25519Key} :
    ed25519Key info = .ok k ↔
      info.algorithm.parameters = none ∧
        (∃ seed, k.seed = some seed ∧ info.key = octetStringBytes seed.bytes) ∧
        ∀ key ∈ info.publicKey, key = k.point.bytes := by
  unfold ed25519Key
  rw [guard_eq_ok_iff, Option.isSome_iff_ne_none, not_not, Result.ofOption_eq_ok_iff,
    Option.filter_eq_some_iff, Option.bind_eq_some_iff]
  simp only [seed?_eq_some_iff, Ed25519Key.ofSeed?_eq_some_iff]
  refine and_congr_right fun _ => and_congr ?_ ?_
  · constructor
    · rintro ⟨seed, hkey, hseed⟩
      exact ⟨seed, hseed, hkey⟩
    · rintro ⟨seed, hseed, hkey⟩
      exact ⟨seed, hkey, hseed⟩
  · cases info.publicKey <;> simp

/-- A description is read as a key by the identifier of its algorithm. -/
theorem decode_eq_ok_iff {k : Key} :
    decode bs = .ok k ↔
      ∃ info, PrivateInfo.decode bs = .ok info ∧
        match k with
        | .rsa r => info.algorithm.oid = rsaEncryption ∧ rsaKey info = .ok r
        | .ecdsa r => info.algorithm.oid = ecPublicKey ∧ ecKey info = .ok r
        | .ed25519 r => info.algorithm.oid = ed25519 ∧ ed25519Key info = .ok r := by
  simp only [decode, bind_eq_ok_iff]
  exact exists_congr fun info => and_congr_right fun _ => Spki.ite_oid_eq_ok_iff

/-- The description that is written for a private key is read back. -/
theorem decode_encode {k : Key} {out : Bytes} (h : encode k = .ok out) : decode out = .ok k := by
  simp only [encode, bind_eq_ok_iff, Result.ofOption_eq_ok_iff, document?_eq_some_iff] at h
  obtain ⟨info, hinfo, hlimit, rfl⟩ := h
  have hkey : info.key.length < lengthLimit := (length_lt_length_encode info).trans hlimit
  rw [decode_eq_ok_iff]
  cases k with
  | rsa k =>
    simp only [Pkcs8.info, guard_eq_ok_iff, bind_eq_ok_iff, Result.of_eq_ok_iff,
      pure_eq_ok_iff] at hinfo
    obtain ⟨-, body, hbody, rfl⟩ := hinfo
    refine ⟨_, decode_encode_info AlgorithmId.isValid_rsa hlimit, rfl, ?_⟩
    exact rsaKey_eq_ok_iff.mpr ⟨AlgorithmId.rsaFault?_rsa,
      Pkcs1.parsePrivate_privateBytes hbody hkey⟩
  | ecdsa k =>
    simp only [Pkcs8.info, bind_eq_ok_iff, Result.ofOption_eq_ok_iff, pure_eq_ok_iff] at hinfo
    obtain ⟨body, hbody, rfl⟩ := hinfo
    refine ⟨_, decode_encode_info (AlgorithmId.isValid_ec k.curve) hlimit, rfl, ?_⟩
    exact ecKey_eq_ok_iff.mpr ⟨k.curve, body, AlgorithmId.curve_ec k.curve,
      Sec1.readDocument?_body? hbody hkey, Sec1.key?_of_body? hbody⟩
  | ed25519 k =>
    simp only [Pkcs8.info, bind_eq_ok_iff, Result.ofOption_eq_ok_iff, pure_eq_ok_iff] at hinfo
    obtain ⟨seed, hseed, rfl⟩ := hinfo
    refine ⟨_, decode_encode_info AlgorithmId.isValid_ed25519 hlimit, rfl, ?_⟩
    exact ed25519Key_eq_ok_iff.mpr ⟨rfl, ⟨seed, hseed, rfl⟩, by simp⟩

/-- A key whose description is not too long has a modulus of at most `2 ^ 30` bits, if it has one. -/
theorem bits_le_of_encode {k : Key} {out : Bytes} (h : encode k = .ok out) :
    ∀ r, k = .rsa r → r.bits ≤ 2 ^ 30 := by
  rintro r rfl
  simp only [encode, info, guard_eq_ok_iff, bind_eq_ok_iff, Result.of_eq_ok_iff, pure_eq_ok_iff,
    Result.ofOption_eq_ok_iff, document?_eq_some_iff] at h
  rcases h with ⟨info, ⟨-, body, hbody, rfl⟩, hlimit, -⟩
  exact Pkcs1.bits_le_of_privateBytes hbody ((length_lt_length_encode _).trans hlimit)

end KeySmith.Der.Pkcs8

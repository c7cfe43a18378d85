import KeySmith.Der.Spki
import KeySmith.Proofs.Der.AlgorithmId
import KeySmith.Proofs.Der.Pkcs1

/-!
# Reading public key descriptions back

A description is read back as an algorithm and a bit string.  The description of a key leads to the
public half of the key, unless that is an RSA key with a modulus that is too large.
-/

namespace KeySmith.Der.Spki

/-- A description is a sequence of the algorithm and the key. -/
theorem infoBytes_eq (a : AlgorithmId) (key : Bytes) :
    infoBytes a key = element sequenceTag (a.encode ++ bitStringBytes key) := by
  simp [infoBytes, sequenceBytes_eq]

/-- A description of a valid algorithm and a key is read back. -/
theorem readDocument?_infoBytes {a : AlgorithmId} (ha : a.IsValid) {key : Bytes}
    (hlimit : (infoBytes a key).length < lengthLimit) :
    readDocument? readInfo (infoBytes a key) = some ⟨a, ⟨0, key⟩⟩ := by
  rw [infoBytes_eq] at hlimit ⊢
  have hparts := (length_lt_length_element sequenceTag _).trans hlimit
  have hlens := hparts
  rw [List.length_append, AlgorithmId.encode_eq] at hlens
  have halgorithm := length_lt_length_element sequenceTag a.body
  have hkey : key.length + 1 < (bitStringBytes key).length :=
    length_lt_length_element bitStringTag (0 :: key)
  have hbits : bitString (bitStringBytes key ++ []) = some (⟨0, key⟩, []) :=
    bitString_bitStringBytes (by omega)
  rw [List.append_nil] at hbits
  refine readDocument?_eq_some_iff.mpr ⟨hlimit, ?_⟩
  unfold readInfo
  rw [sequence_eq_some_iff]
  refine ⟨_, hparts, (List.append_nil _).symm, ?_⟩
  simp only [Reader.bind_eq_some_iff, AlgorithmId.read_eq_some_iff]
  exact ⟨a, _, ⟨ha, by omega, rfl⟩, ⟨0, key⟩, [], hbits, rfl⟩

/-- The key is shorter than its description. -/
theorem length_lt_length_infoBytes (a : AlgorithmId) (key : Bytes) :
    key.length < (infoBytes a key).length := by
  have hkey : key.length + 1 < (bitStringBytes key).length :=
    length_lt_length_element bitStringTag (0 :: key)
  have hinfo := length_lt_length_element sequenceTag (a.encode ++ bitStringBytes key)
  rw [List.length_append] at hinfo
  rw [infoBytes_eq]
  omega

/-! ### Keys of descriptions -/

/-- A description of an RSA key is one with the null value and a public body. -/
theorem rsaKey_eq_ok_iff {info : PublicInfo} {k : RsaKey} :
    rsaKey info = .ok k ↔
      info.algorithm.rsaFault? = none ∧
        ∃ body, info.key.whole? = some body ∧ Pkcs1.parsePublic infoError body = .ok k := by
  unfold rsaKey
  split
  · rename_i fault hfault
    simp only [hfault, reduceCtorEq, false_and, iff_false]
    exact throw_ne_ok
  · rename_i hnone
    have hfault : info.algorithm.rsaFault? = none := Option.eq_none_iff_forall_ne_some.mpr hnone
    simp only [hfault, true_and, bind_eq_ok_iff, Result.ofOption_eq_ok_iff]

/-- A description of a key on a curve names the curve and gives a form of the point. -/
theorem ecKey_eq_ok_iff {info : PublicInfo} {k : EcKey} :
    ecKey info = .ok k ↔
      ∃ c form, info.algorithm.curve = .ok c ∧ info.key.whole? = some form ∧
        EcKey.ofPoint? c form = some k := by
  simp only [ecKey, bind_eq_ok_iff, Result.ofOption_eq_ok_iff, Option.bind_eq_some_iff]
  constructor
  · rintro ⟨c, hc, form, hform, hk⟩
    exact ⟨c, form, hc, hform, hk⟩
  · rintro ⟨c, form, hc, hform, hk⟩
    exact ⟨c, hc, form, hform, hk⟩

/-- A description of an Ed25519 key has no parameters and gives the stored point. -/
theorem ed25519Key_eq_ok_iff {info : PublicInfo} {k : Ed25519Key} :
    ed25519Key info = .ok k ↔
      info.algorithm.parameters = none ∧ info.key.whole? = some k.point.bytes ∧
        k.seed = none := by
  unfold ed25519Key
  rw [Result.ofOption_eq_ok_iff]
  cases hparams : info.algorithm.parameters with
  | some e => simp
  | none =>
    simp only [Option.isSome_none, Bool.false_eq_true, if_false, true_and,
      Option.bind_eq_some_iff, Octets.ofBytes?_eq_some_iff, Ed25519Key.ofPoint?_eq_some_iff]
    constructor
    · rintro ⟨_, ⟨bytes, hbytes, rfl⟩, rfl, hseed⟩
      exact ⟨hbytes, hseed⟩
    · rintro ⟨hbytes, hseed⟩
      exact ⟨k.point, ⟨k.point.bytes, hbytes, rfl⟩, rfl, hseed⟩

/-- The identifiers of the three algorithms differ. -/
theorem algorithms_ne :
    ecPublicKey ≠ rsaEncryption ∧ ed25519 ≠ rsaEncryption ∧ ed25519 ≠ ecPublicKey := by
  cbv
  decide

/-- Which of three readers gives the key is told by the identifier of the algorithm. -/
theorem ite_oid_eq_ok_iff {oid : ObjectId} {rsa? : Result RsaKey} {ec? : Result EcKey}
    {ed? : Result Ed25519Key} {error : Error} {k : Key} :
    (if oid = rsaEncryption then do return Key.rsa (← rsa?)
      else if oid = ecPublicKey then do return Key.ecdsa (← ec?)
      else if oid = ed25519 then do return Key.ed25519 (← ed?)
      else throw error) = .ok k ↔
      match k with
      | .rsa r => oid = rsaEncryption ∧ rsa? = .ok r
      | .ecdsa r => oid = ecPublicKey ∧ ec? = .ok r
      | .ed25519 r => oid = ed25519 ∧ ed? = .ok r := by
  obtain ⟨hec, hed, hed'⟩ := algorithms_ne
  by_cases hrsa : oid = rsaEncryption
  · rw [if_pos hrsa]
    simp only [bind_eq_ok_iff, pure_eq_ok_iff, hrsa]
    cases k <;> simp [hec.symm, hed.symm]
  rw [if_neg hrsa]
  by_cases hcurve : oid = ecPublicKey
  · rw [if_pos hcurve]
    simp only [bind_eq_ok_iff, pure_eq_ok_iff, hcurve]
    cases k <;> simp [hec, hed'.symm]
  rw [if_neg hcurve]
  by_cases hedwards : oid = ed25519
  · rw [if_pos hedwards]
    simp only [bind_eq_ok_iff, pure_eq_ok_iff, hedwards]
    cases k <;> simp [hed, hed']
  · rw [if_neg hedwards]
    cases k <;> simp [hrsa, hcurve, hedwards, throw_ne_ok]

/-- A description is read as a key by the identifier of its algorithm. -/
theorem decode_eq_ok_iff {bs : Bytes} {k : Key} :
    decode bs = .ok k ↔
      ∃ info, readDocument? readInfo bs = some info ∧
        match k with
        | .rsa r => info.algorithm.oid = rsaEncryption ∧ rsaKey info = .ok r
        | .ecdsa r => info.algorithm.oid = ecPublicKey ∧ ecKey info = .ok r
        | .ed25519 r => info.algorithm.oid = ed25519 ∧ ed25519Key info = .ok r := by
  simp only [decode, bind_eq_ok_iff, Result.ofOption_eq_ok_iff]
  exact exists_congr fun info => and_congr_right fun _ => ite_oid_eq_ok_iff

/-! ### Reading back -/

/-- The description of an RSA key is read as its public half and as no other key, and only when its
modulus is not too large. -/
theorem decode_publicBytes_rsa_eq_ok_iff {k : RsaKey} {l : Key}
    (hlimit : (publicBytes (.rsa k)).length < lengthLimit) :
    decode (publicBytes (.rsa k)) = .ok l ↔
      k.bits ≤ RsaKey.sizeLimit ∧ l = .rsa k.toPublic := by
  obtain ⟨hec, hed, -⟩ := algorithms_ne
  have hread := readDocument?_infoBytes AlgorithmId.isValid_rsa hlimit
  have hbody : (Pkcs1.publicBytes k).length < lengthLimit :=
    (length_lt_length_infoBytes _ _).trans hlimit
  rw [decode_eq_ok_iff]
  constructor
  · rintro ⟨info, hinfo, hl⟩
    obtain rfl := Option.some.inj (hread.symm.trans hinfo)
    cases l with
    | ecdsa l => exact absurd hl.1.symm hec
    | ed25519 l => exact absurd hl.1.symm hed
    | rsa l =>
      obtain ⟨-, body, hwhole, hparse⟩ := rsaKey_eq_ok_iff.mp hl.2
      obtain rfl := Option.some.inj hwhole
      obtain ⟨hsize, rfl⟩ := (Pkcs1.parsePublic_publicBytes_eq_ok_iff hbody).mp hparse
      exact ⟨hsize, rfl⟩
  · rintro ⟨hsize, rfl⟩
    have hparse : Pkcs1.parsePublic infoError (Pkcs1.publicBytes k) = .ok k.toPublic :=
      (Pkcs1.parsePublic_publicBytes_iff hbody).mpr hsize
    exact ⟨_, hread, rfl, rsaKey_eq_ok_iff.mpr ⟨AlgorithmId.rsaFault?_rsa, _, rfl, hparse⟩⟩

/-- The description of a key is read as its public half and as no other key, and only when its
modulus, if it has one, is not too large. -/
theorem decode_publicBytes_eq_ok_iff {k l : Key}
    (hlimit : (publicBytes k).length < lengthLimit) :
    decode (publicBytes k) = .ok l ↔ k.IsReadable ∧ l = k.toPublic := by
  cases k with
  | rsa k =>
    rw [decode_publicBytes_rsa_eq_ok_iff hlimit, Key.isReadable_rsa]
    rfl
  | ecdsa k =>
    have hread := readDocument?_infoBytes (AlgorithmId.isValid_ec k.curve) hlimit
    have hkey : decode (publicBytes (.ecdsa k)) = .ok (.ecdsa k.toPublic) :=
      decode_eq_ok_iff.mpr ⟨_, hread, rfl, ecKey_eq_ok_iff.mpr
        ⟨k.curve, k.pointBytes, AlgorithmId.curve_ec k.curve, rfl, k.ofPoint?_pointBytes⟩⟩
    rw [hkey, and_iff_right (Key.isReadable_ecdsa k), Except.ok.injEq, eq_comm]
    rfl
  | ed25519 k =>
    have hread := readDocument?_infoBytes AlgorithmId.isValid_ed25519 hlimit
    have hkey : decode (publicBytes (.ed25519 k)) = .ok (.ed25519 k.toPublic) :=
      decode_eq_ok_iff.mpr ⟨_, hread, rfl, ed25519Key_eq_ok_iff.mpr ⟨rfl, rfl, rfl⟩⟩
    rw [hkey, and_iff_right (Key.isReadable_ed25519 k), Except.ok.injEq, eq_comm]
    rfl

/-- The description that is written for a key is read as its public half and as no other key, and
only when its modulus, if it has one, is not too large. -/
theorem decode_eq_ok_iff_of_encode {k l : Key} {out : Bytes} (h : encode k = .ok out) :
    decode out = .ok l ↔ k.IsReadable ∧ l = k.toPublic := by
  rw [encode, Result.ofOption_eq_ok_iff, document?_eq_some_iff] at h
  obtain ⟨hlimit, rfl⟩ := h
  exact decode_publicBytes_eq_ok_iff hlimit

/-- The description that is written for a key is read as its public half, exactly when its modulus,
if it has one, is not too large. -/
theorem decode_encode_iff {k : Key} {out : Bytes} (h : encode k = .ok out) :
    decode out = .ok k.toPublic ↔ k.IsReadable := by
  rw [decode_eq_ok_iff_of_encode h]
  exact and_iff_left rfl

/-- The description that is written for a key on a curve is read where only such keys may stand. -/
theorem decodeEc_encode {k : EcKey} {out : Bytes} (h : encode (.ecdsa k) = .ok out) :
    decodeEc out = .ok (.ecdsa k.toPublic) := by
  have hread : decode out = .ok (.ecdsa k.toPublic) :=
    (decode_encode_iff h).mpr (Key.isReadable_ecdsa k)
  rw [decodeEc, hread]
  rfl

/-! ### Lengths -/

/-- A description takes at most 64 octets more than the key in it. -/
theorem length_infoBytes_le {a : AlgorithmId} (ha : a.encode.length ≤ 32) {key : Bytes}
    {bound : Nat} (hbound : bound + 64 < lengthLimit) (hkey : key.length ≤ bound) :
    (infoBytes a key).length ≤ bound + 64 := by
  have hstring : (bitStringBytes key).length ≤ bound + 1 + 6 :=
    length_element_le bitStringTag (by omega) (by rw [List.length_cons]; omega)
  have hbody : (a.encode ++ bitStringBytes key).length ≤ bound + 39 := by
    rw [List.length_append]
    omega
  have hinfo := length_element_le sequenceTag (by omega) hbody
  rw [infoBytes_eq]
  omega

/-- The algorithm in a description takes at most 32 octets. -/
theorem length_encode_le :
    AlgorithmId.rsa.encode.length ≤ 32 ∧ (∀ c, (AlgorithmId.ec c).encode.length ≤ 32) ∧
      (AlgorithmId.encode ⟨ed25519, none⟩).length ≤ 32 := by
  refine ⟨by cbv, ?_, by cbv⟩
  intro c
  cases c <;> cbv

/-- The description of a key is not too long to be written, unless the key has a modulus of more
than `2 ^ 30` bits. -/
theorem length_publicBytes_lt {k : Key} (h : ∀ r, k = .rsa r → r.bits ≤ 2 ^ 30) :
    (publicBytes k).length < lengthLimit := by
  obtain ⟨hrsa, hec, hed⟩ := length_encode_le
  have hlimit := lengthLimit_eq
  cases k with
  | rsa k =>
    have hn : (BigEndian.minimal k.n).length ≤ 2 ^ 27 := by
      have hbits : BigEndian.bitLength k.n ≤ 2 ^ 30 := h k rfl
      rw [BigEndian.minimal, BigEndian.length_fixed, BigEndian.size]
      omega
    have he : (BigEndian.minimal k.e).length ≤ 8 := by
      have hbits := k.bitLength_e_le
      rw [BigEndian.minimal, BigEndian.length_fixed, BigEndian.size]
      omega
    have hnBytes := length_naturalBytes_le (by omega) hn
    have heBytes := length_naturalBytes_le (by omega) he
    have hparts : [naturalBytes k.n, naturalBytes k.e].flatten.length ≤ 2 ^ 27 + 22 := by
      simp only [List.flatten_cons, List.flatten_nil, List.length_append, List.length_nil]
      omega
    have hbody : (Pkcs1.publicBytes k).length ≤ 2 ^ 27 + 22 + 6 :=
      length_element_le sequenceTag (by omega) hparts
    have hinfo := length_infoBytes_le hrsa (by omega) hbody
    rw [publicBytes]
    omega
  | ecdsa k =>
    have hpoint : k.pointBytes.length ≤ 133 := by
      have hsize := k.curve.size_le
      rw [EcKey.length_pointBytes]
      omega
    have hinfo := length_infoBytes_le (hec k.curve) (by omega) hpoint
    rw [publicBytes]
    omega
  | ed25519 k =>
    have hinfo := length_infoBytes_le hed (by omega) k.point.length_eq.le
    rw [publicBytes]
    omega

/-- A description is written exactly when it is not too long. -/
theorem exists_encode_iff (k : Key) :
    (∃ out, encode k = .ok out) ↔ (publicBytes k).length < lengthLimit := by
  simp only [encode, Result.ofOption_eq_ok_iff, document?_eq_some_iff, exists_and_left,
    exists_eq', and_true]

end KeySmith.Der.Spki

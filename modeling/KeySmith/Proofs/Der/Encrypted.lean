import KeySmith.Der.Encrypted
import KeySmith.Proofs.Aes.Modes
import KeySmith.Proofs.KeyClass

/-!
# Reading protected keys back

What is written for a derivation, a cipher and a ciphertext is read back with all its parameters
(`decode_protectedBytes`), the optional length of the key and the hash function included.  So the
passphrase that a description was protected under opens it again (`decrypt?_protect`), since the
decryption of whole padded blocks undoes their encryption.

Once the parameters of a protected key are well formed, reading has two outcomes: a private key, or
one error that does not tell which step failed (`decode_eq_error`).  A wrong passphrase can make any
octets of the ciphertext, and whatever a description of theirs would be refused for is hidden.
-/

namespace KeySmith.Der

/-- The algorithm in the description of a key can be read back. -/
theorem Pkcs8.isValid_info {k : Key} {i : PrivateInfo} (h : info k = .ok i) :
    i.algorithm.IsValid := by
  cases k with
  | rsa k =>
    simp only [info, guard_eq_ok_iff, bind_eq_ok_iff, pure_eq_ok_iff] at h
    obtain ⟨-, body, -, rfl⟩ := h
    exact AlgorithmId.isValid_rsa
  | ecdsa k =>
    simp only [info, bind_eq_ok_iff, pure_eq_ok_iff] at h
    obtain ⟨body, -, rfl⟩ := h
    exact AlgorithmId.isValid_ec k.curve
  | ed25519 k =>
    simp only [info, bind_eq_ok_iff, pure_eq_ok_iff] at h
    obtain ⟨seed, -, rfl⟩ := h
    exact AlgorithmId.isValid_ed25519

namespace Encrypted

variable {bs : Bytes}

/-! ### Parameters -/

/-- Whether the numbers of a derivation are in the ranges that are read. -/
def Derivation.IsValid : Derivation → Prop
  | .pbkdf2 _ iterations keyLength _ =>
    iterations < twoTo 32 ∧ ∀ n ∈ keyLength, n < twoTo 16
  | .scrypt _ cost keyLength =>
    cost.entries < twoTo 64 ∧ cost.blockSize < twoTo 16 ∧ cost.lanes < twoTo 16 ∧
      ∀ n ∈ keyLength, n < twoTo 16

/-- Whether a cipher has an identifier. -/
def Cipher.IsValid (c : Cipher) : Prop :=
  c.keySize ∈ cipherArcs.map Prod.fst

/-- The octets of a key length where it is given. -/
def keyLengthBytes (n? : Option Nat) : Bytes :=
  (n?.map naturalBytes).getD []

/-- Looking ahead reads nothing. -/
theorem peek_bind {α : Type} (f : Option UInt8 → Reader α) : (peek >>= f) bs = f bs.head? bs :=
  rfl

/-- A number that may be missing is read back in front of something else. -/
theorem naturalBelow?_keyLengthBytes {limit : Nat} {n? : Option Nat} {rest : Bytes}
    (hrest : rest.head? ≠ some integerTag) (hn : ∀ n ∈ n?, n < limit)
    (hlimit : (keyLengthBytes n?).length < lengthLimit) :
    naturalBelow? limit (keyLengthBytes n? ++ rest) = some (n?, rest) := by
  rw [naturalBelow?, peek_bind]
  cases n? with
  | none =>
    have hhead : ¬ (keyLengthBytes none ++ rest).head? = some integerTag := hrest
    rw [if_neg hhead]
    rfl
  | some n =>
    have hhead : (keyLengthBytes (some n) ++ rest).head? = some integerTag := rfl
    have hcontent := length_lt_length_element integerTag (naturalContent n)
    rw [if_pos hhead, Reader.bind_eq_some_iff]
    exact ⟨n, rest, naturalBelow_eq_some_iff.mpr ⟨hn n rfl, hcontent.trans hlimit, rfl⟩, rfl⟩

/-- The algorithm of a hash function can be read back. -/
theorem Prf.isValid_algorithm (prf : Prf) :
    AlgorithmId.IsValid ⟨prf.objectId, some nullElement⟩ := by
  refine ⟨?_, ?_⟩
  · cases prf <;> cbv
  · rintro e ⟨rfl⟩
    decide

/-- A hash function is found by its identifier. -/
theorem Prf.ofAlgorithm?_objectId (prf : Prf) :
    ofAlgorithm? ⟨prf.objectId, some nullElement⟩ = some prf := by
  cases prf <;> cbv

/-- A hash function is read back. -/
theorem readPrf_encode (prf : Prf)
    (hlimit : (AlgorithmId.encode ⟨prf.objectId, some nullElement⟩).length < lengthLimit) :
    readPrf (AlgorithmId.encode ⟨prf.objectId, some nullElement⟩) = some (prf, []) := by
  rw [AlgorithmId.encode_eq] at hlimit
  have hbody := (length_lt_length_element sequenceTag _).trans hlimit
  rw [readPrf, peek_bind]
  rw [if_pos (by rw [AlgorithmId.encode_eq]; rfl), Reader.bind_eq_some_iff]
  refine ⟨_, [], AlgorithmId.read_eq_some_iff.mpr
    ⟨prf.isValid_algorithm, hbody, (List.append_nil _).symm⟩, ?_⟩
  rw [Prf.ofAlgorithm?_objectId]
  rfl

/-- The parameters of PBKDF2 are read back. -/
theorem readPbkdf2_encode {salt : Bytes} {iterations : Nat} {keyLength : Option Nat} {prf : Prf}
    (hd : (Derivation.pbkdf2 salt iterations keyLength prf).IsValid)
    (hlimit : (octetStringBytes salt ++ (naturalBytes iterations ++ (keyLengthBytes keyLength ++
      AlgorithmId.encode ⟨prf.objectId, some nullElement⟩))).length < lengthLimit) :
    readPbkdf2 (octetStringBytes salt ++ (naturalBytes iterations ++ (keyLengthBytes keyLength ++
      AlgorithmId.encode ⟨prf.objectId, some nullElement⟩))) =
        some (.pbkdf2 salt iterations keyLength prf, []) := by
  obtain ⟨hiterations, hkeyLength⟩ := hd
  simp only [List.length_append] at hlimit
  have hsalt := length_lt_length_element octetStringTag salt
  have hcount := length_lt_length_element integerTag (naturalContent iterations)
  rw [octetStringBytes, naturalBytes_eq] at hlimit
  have hprf := readPrf_encode prf (by omega)
  have hhead : (AlgorithmId.encode ⟨prf.objectId, some nullElement⟩).head? ≠ some integerTag := by
    rw [AlgorithmId.encode_eq]
    exact fun h => by cases h
  have hlength := naturalBelow?_keyLengthBytes hhead hkeyLength (by omega)
  unfold readPbkdf2
  simp only [Reader.bind_eq_some_iff, octetString_eq_some_iff, naturalBelow_eq_some_iff]
  exact ⟨salt, _, ⟨by omega, rfl⟩, iterations, _, ⟨hiterations, by omega, rfl⟩, keyLength, _,
    hlength, prf, [], hprf, rfl⟩

/-- The parameters of scrypt are read back. -/
theorem readScrypt_encode {salt : Bytes} {cost : Hash.Scrypt.Cost} {keyLength : Option Nat}
    (hd : (Derivation.scrypt salt cost keyLength).IsValid)
    (hlimit : (octetStringBytes salt ++ (naturalBytes cost.entries ++
      (naturalBytes cost.blockSize ++ (naturalBytes cost.lanes ++
        keyLengthBytes keyLength)))).length < lengthLimit) :
    readScrypt (octetStringBytes salt ++ (naturalBytes cost.entries ++
      (naturalBytes cost.blockSize ++ (naturalBytes cost.lanes ++ keyLengthBytes keyLength)))) =
        some (.scrypt salt cost keyLength, []) := by
  obtain ⟨hentries, hblockSize, hlanes, hkeyLength⟩ := hd
  simp only [List.length_append] at hlimit
  have hsalt := length_lt_length_element octetStringTag salt
  have hcontent := fun n => length_lt_length_element integerTag (naturalContent n)
  have hfirst := hcontent cost.entries
  have hsecond := hcontent cost.blockSize
  have hthird := hcontent cost.lanes
  simp only [octetStringBytes, naturalBytes_eq] at hlimit
  have hhead : ([] : Bytes).head? ≠ some integerTag := fun h => by cases h
  have hlength := naturalBelow?_keyLengthBytes hhead hkeyLength (by omega)
  rw [List.append_nil] at hlength
  unfold readScrypt
  simp only [Reader.bind_eq_some_iff, octetString_eq_some_iff, naturalBelow_eq_some_iff]
  exact ⟨salt, _, ⟨by omega, rfl⟩, cost.entries, _, ⟨hentries, by omega, rfl⟩, cost.blockSize, _,
    ⟨hblockSize, by omega, rfl⟩, cost.lanes, _, ⟨hlanes, by omega, rfl⟩, keyLength, [], hlength, rfl⟩

/-! ### Algorithms -/

/-- The algorithm of a derivation can be read back. -/
theorem Derivation.isValid_algorithm (d : Derivation) : d.algorithm.IsValid := by
  cases d with
  | pbkdf2 salt iterations keyLength prf =>
    refine ⟨?_, ?_⟩
    · change (ObjectId.arcs? pbkdf2Id.bytes).isSome = true
      cbv
    · rintro e ⟨rfl⟩
      change isTag sequenceTag = true
      decide
  | scrypt salt cost keyLength =>
    refine ⟨?_, ?_⟩
    · change (ObjectId.arcs? scryptId.bytes).isSome = true
      cbv
    · rintro e ⟨rfl⟩
      change isTag sequenceTag = true
      decide

/-- The two derivations have different identifiers. -/
theorem scryptId_ne_pbkdf2Id : scryptId ≠ pbkdf2Id := by
  cbv
  decide

/-- The parameters of an algorithm are shorter than its parts. -/
theorem length_lt_length_body {a : AlgorithmId} {e : Element} (h : a.parameters = some e) :
    e.content.length < a.body.length := by
  have helement := length_lt_length_element e.tag e.content
  rw [AlgorithmId.body, h, Option.map_some, Option.getD_some, List.length_append]
  exact helement.trans_le (Nat.le_add_left _ _)

/-- A derivation is found by its algorithm. -/
theorem derivation?_algorithm {d : Derivation} (hd : d.IsValid)
    (hlimit : d.algorithm.body.length < lengthLimit) : derivation? d.algorithm = some d := by
  cases d with
  | pbkdf2 salt iterations keyLength prf =>
    have hcontent := (length_lt_length_body rfl).trans hlimit
    simp only [List.append_assoc] at hcontent
    have hread := readPbkdf2_encode hd hcontent
    simp only [derivation?, Derivation.algorithm, Option.bind_eq_bind, Option.bind_some, if_true,
      ofSequence?, List.append_assoc]
    exact Reader.run?_eq_some_iff.mpr hread
  | scrypt salt cost keyLength =>
    have hcontent := (length_lt_length_body rfl).trans hlimit
    simp only [List.append_assoc] at hcontent
    have hread := readScrypt_encode hd hcontent
    simp only [derivation?, Derivation.algorithm, Option.bind_eq_bind, Option.bind_some, if_true,
      if_neg scryptId_ne_pbkdf2Id, ofSequence?, List.append_assoc]
    exact Reader.run?_eq_some_iff.mpr hread

/-- The size of a cipher key is found by the identifier of the cipher. -/
theorem find?_cipherId {p : Nat × Nat} (hp : p ∈ cipherArcs) :
    cipherArcs.find? (fun q => cipherId q.2 == cipherId p.2) = some p := by
  have hcases : p = (16, 2) ∨ p = (24, 22) ∨ p = (32, 42) := by simpa [cipherArcs] using hp
  rcases hcases with rfl | rfl | rfl
  · cbv
  · cbv
  · cbv

/-- A cipher has the identifier of the size of its key. -/
theorem Cipher.exists_algorithm_eq {c : Cipher} (hc : c.IsValid) :
    ∃ arc, (c.keySize, arc) ∈ cipherArcs ∧
      c.algorithm = ⟨cipherId arc, some ⟨octetStringTag, c.iv.bytes⟩⟩ := by
  obtain ⟨keySize, iv⟩ := c
  have hsizes : keySize = 16 ∨ keySize = 24 ∨ keySize = 32 := by
    simpa [IsValid, cipherArcs] using hc
  rcases hsizes with rfl | rfl | rfl
  · exact ⟨2, by simp [cipherArcs], rfl⟩
  · exact ⟨22, by simp [cipherArcs], rfl⟩
  · exact ⟨42, by simp [cipherArcs], rfl⟩

/-- A cipher is found by its algorithm. -/
theorem cipher?_algorithm {c : Cipher} (hc : c.IsValid) : cipher? c.algorithm = some c := by
  obtain ⟨arc, harc, heq⟩ := c.exists_algorithm_eq hc
  have hfind := find?_cipherId harc
  have hiv : Octets.ofBytes? 16 c.iv.bytes = some c.iv := Octets.ofBytes?_bytes c.iv
  simp only [cipher?, heq, Option.bind_eq_bind, Option.bind_some, ne_eq, not_true_eq_false,
    if_false, hiv]
  simp only [hfind]
  rfl

/-- The algorithm of a cipher can be read back. -/
theorem Cipher.isValid_algorithm {c : Cipher} (hc : c.IsValid) : c.algorithm.IsValid := by
  obtain ⟨arc, harc, heq⟩ := c.exists_algorithm_eq hc
  have hcases : arc = 2 ∨ arc = 22 ∨ arc = 42 := by
    have hmem := List.mem_map_of_mem harc (f := Prod.snd)
    simpa [cipherArcs] using hmem
  rw [heq]
  refine ⟨?_, ?_⟩
  · change (ObjectId.arcs? (cipherId arc).bytes).isSome = true
    rcases hcases with rfl | rfl | rfl
    · cbv
    · cbv
    · cbv
  · rintro e ⟨rfl⟩
    change isTag octetStringTag = true
    decide

/-! ### Protected keys -/

/-- A scheme of a derivation and a cipher. -/
def pbes2Algorithm (d : Derivation) (c : Cipher) : AlgorithmId :=
  ⟨pbes2Id, some ⟨sequenceTag, d.algorithm.encode ++ c.algorithm.encode⟩⟩

/-- The algorithm of a scheme can be read back. -/
theorem isValid_pbes2Algorithm (d : Derivation) (c : Cipher) : (pbes2Algorithm d c).IsValid := by
  refine ⟨?_, ?_⟩
  · change (ObjectId.arcs? pbes2Id.bytes).isSome = true
    cbv
  · rintro e ⟨rfl⟩
    change isTag sequenceTag = true
    decide

/-- A scheme is found by its algorithm. -/
theorem scheme?_pbes2Algorithm {d : Derivation} {c : Cipher} (hd : d.IsValid) (hc : c.IsValid)
    (hlimit : (pbes2Algorithm d c).body.length < lengthLimit) :
    scheme? (pbes2Algorithm d c) = some (.pbes2 d c) := by
  have hcontent : (d.algorithm.encode ++ c.algorithm.encode).length < lengthLimit :=
    (length_lt_length_body rfl).trans hlimit
  rw [List.length_append, AlgorithmId.encode_eq, AlgorithmId.encode_eq] at hcontent
  have hderivation := length_lt_length_element sequenceTag d.algorithm.body
  have hcipher := length_lt_length_element sequenceTag c.algorithm.body
  have hread : readPbes2 (d.algorithm.encode ++ c.algorithm.encode) = some (.pbes2 d c, []) := by
    unfold readPbes2
    simp only [Reader.bind_eq_some_iff, AlgorithmId.read_eq_some_iff]
    refine ⟨d.algorithm, c.algorithm.encode, ⟨d.isValid_algorithm, by omega, rfl⟩, c.algorithm, [],
      ⟨c.isValid_algorithm hc, by omega, (List.append_nil _).symm⟩, ?_⟩
    rw [derivation?_algorithm hd (by omega), cipher?_algorithm hc]
    rfl
  simp only [scheme?, pbes2Algorithm, Option.bind_eq_bind, Option.bind_some, if_true, ofSequence?]
  exact Reader.run?_eq_some_iff.mpr hread

/-- A protected key is a sequence of its scheme and the ciphertext. -/
theorem protectedBytes_eq (d : Derivation) (c : Cipher) (ciphertext : Bytes) :
    protectedBytes d c ciphertext = element sequenceTag
      ((pbes2Algorithm d c).encode ++ octetStringBytes ciphertext) := by
  simp [protectedBytes, pbes2Algorithm, sequenceBytes_eq]

/-- What is written for a derivation, a cipher and a ciphertext is read back, unless it is too
long. -/
theorem decode_protectedBytes {d : Derivation} {c : Cipher} (hd : d.IsValid) (hc : c.IsValid)
    {ciphertext : Bytes} (hlimit : (protectedBytes d c ciphertext).length < lengthLimit) :
    ProtectedKey.decode (protectedBytes d c ciphertext) = .ok ⟨.pbes2 d c, ciphertext⟩ := by
  rw [protectedBytes_eq] at hlimit ⊢
  have hparts := (length_lt_length_element sequenceTag _).trans hlimit
  have hlens := hparts
  rw [List.length_append, AlgorithmId.encode_eq, octetStringBytes] at hlens
  have halgorithm := length_lt_length_element sequenceTag (pbes2Algorithm d c).body
  have hciphertext := length_lt_length_element octetStringTag ciphertext
  rw [ProtectedKey.decode, Result.ofOption_eq_ok_iff, readDocument?_eq_some_iff]
  refine ⟨hlimit, ?_⟩
  unfold readProtected
  rw [sequence_eq_some_iff]
  refine ⟨_, hparts, (List.append_nil _).symm, ?_⟩
  simp only [Reader.bind_eq_some_iff, AlgorithmId.read_eq_some_iff, Reader.ofOption_eq_some_iff,
    octetString_eq_some_iff]
  exact ⟨_, _, ⟨isValid_pbes2Algorithm d c, by omega, rfl⟩, _, _,
    ⟨scheme?_pbes2Algorithm hd hc (by omega), rfl⟩, ciphertext, [],
    ⟨by omega, (List.append_nil _).symm⟩, rfl⟩

/-! ### Protection -/

/-- What is protected under a passphrase is opened by it. -/
theorem decrypt?_protect (salt iv : Octets 16) (passphrase content : Bytes)
    (hlimit : (protect salt iv passphrase content).length < lengthLimit) :
    ∃ k, ProtectedKey.decode (protect salt iv passphrase content) = .ok k ∧
      k.decrypt? passphrase = some content := by
  have hd : (Derivation.pbkdf2 salt.bytes newIterations none .sha256).IsValid :=
    ⟨by decide, fun n hn => by cases hn⟩
  have hc : Cipher.IsValid ⟨32, iv⟩ := by simp [Cipher.IsValid, cipherArcs]
  refine ⟨_, decode_protectedBytes hd hc hlimit, ?_⟩
  exact Aes.decryptChained?_eq_some_iff.mpr rfl

/-- A protected key is read exactly when its parameters are well formed, the passphrase opens it and
a key is read from what it holds. -/
theorem decode_eq_ok_iff {passphrase : Bytes} {k : Key} :
    decode bs passphrase = .ok k ↔ ∃ p content, ProtectedKey.decode bs = .ok p ∧
      p.decrypt? passphrase = some content ∧ Pkcs8.decode content = .ok k := by
  rw [decode, bind_eq_ok_iff]
  constructor
  · rintro ⟨p, hp, hk⟩
    split at hk
    · exact absurd hk throw_ne_ok
    · rename_i content hcontent
      exact ⟨p, content, hp, hcontent, Result.of_eq_ok_iff.mp hk⟩
  · rintro ⟨p, content, hp, hcontent, hk⟩
    refine ⟨p, hp, ?_⟩
    simp only [hcontent]
    exact Result.of_eq_ok_iff.mpr hk

/-- Once the parameters of a protected key are well formed, there is one error, whichever step
fails. -/
theorem decode_eq_error {p : ProtectedKey} (hp : ProtectedKey.decode bs = .ok p)
    {passphrase : Bytes} (h : ∀ k, decode bs passphrase ≠ .ok k) :
    decode bs passphrase = .error (.failure .wrongPassphrase) := by
  cases hcontent : p.decrypt? passphrase with
  | none =>
    simp only [decode, hp, ok_bind, hcontent]
    rfl
  | some content =>
    cases hk : Pkcs8.decode content with
    | error e =>
      simp only [decode, hp, ok_bind, hcontent, hk]
      rfl
    | ok k => exact absurd (decode_eq_ok_iff.mpr ⟨p, content, hp, hcontent, hk⟩) (h k)

/-- A key that is read from a protected key is private. -/
theorem isPrivate_of_decode {passphrase : Bytes} {k : Key} (h : decode bs passphrase = .ok k) :
    k.isPrivate = true := by
  obtain ⟨p, content, -, -, hk⟩ := decode_eq_ok_iff.mp h
  exact Pkcs8.isPrivate_of_decode hk

/-- Octets that are no protected key are refused as malformed, whatever the passphrase is. -/
theorem decode_eq_malformed (h : ∀ p, ProtectedKey.decode bs ≠ .ok p) (passphrase : Bytes) :
    decode bs passphrase = .error (.malformed (.der .encryptedStructure)) := by
  cases hread : readDocument? readProtected bs with
  | none =>
    rw [decode, ProtectedKey.decode, hread]
    rfl
  | some p =>
    refine absurd ?_ (h p)
    rw [ProtectedKey.decode, hread, Result.ofOption_some]

/-! ### Protected descriptions -/

/-- The description of a key is protected as it is, unless it becomes too long. -/
theorem encryptInfo_encode {k : Key} {info : Bytes} (h : Pkcs8.encode k = .ok info)
    (salt iv : Octets 16) (passphrase : Bytes) {out : Bytes} :
    encryptInfo salt iv passphrase info = .ok out ↔
      (protect salt iv passphrase info).length < lengthLimit ∧
        protect salt iv passphrase info = out := by
  obtain ⟨content, hcontent, hwritten⟩ := bind_eq_ok_iff.mp h
  obtain ⟨hlimit, rfl⟩ := document?_eq_some_iff.mp (Result.ofOption_eq_ok_iff.mp hwritten)
  rw [encryptInfo, Pkcs8.decode_encode_info (Pkcs8.isValid_info hcontent) hlimit, ok_bind,
    Result.ofOption_eq_ok_iff, document?_eq_some_iff]

/-- An algorithm has few octets around the content of its parameters. -/
theorem length_encode_algorithm_le {a : AlgorithmId} {e : Element} (h : a.parameters = some e)
    (hoid : a.oid.bytes.length ≤ 16) {bound : Nat} (hcontent : e.content.length ≤ bound)
    (hbound : bound + 40 < lengthLimit) : a.encode.length ≤ bound + 34 := by
  have hidentifier : (objectIdBytes a.oid).length ≤ 16 + 6 :=
    length_element_le objectIdTag (by omega) hoid
  have hparameters : (element e.tag e.content).length ≤ bound + 6 :=
    length_element_le e.tag (by omega) hcontent
  have hbody : a.body.length ≤ bound + 28 := by
    rw [AlgorithmId.body, h, Option.map_some, Option.getD_some, List.length_append]
    change _ + (element e.tag e.content).length ≤ _
    omega
  rw [AlgorithmId.encode_eq]
  exact length_element_le sequenceTag (by omega) hbody

/-- The algorithm of the derivation of new keys is short. -/
theorem length_newDerivation_le (salt : Octets 16) :
    (Derivation.pbkdf2 salt.bytes newIterations none .sha256).algorithm.encode.length ≤ 80 := by
  have hlimit := lengthLimit_eq
  have hsalt : (octetStringBytes salt.bytes).length ≤ 16 + 6 :=
    length_element_le octetStringTag (by omega) salt.length_eq.le
  have hminimal : (BigEndian.minimal newIterations).length ≤ 3 := by
    rw [BigEndian.minimal, BigEndian.length_fixed]
    exact max_le (by decide) ((BigEndian.size_le_iff _ _).mpr (by decide))
  have hcount := length_naturalBytes_le (by omega) hminimal
  have hprf : (AlgorithmId.encode ⟨Prf.sha256.objectId, some nullElement⟩).length ≤ 14 := by cbv
  have hoid : pbkdf2Id.bytes.length ≤ 16 := by cbv
  refine length_encode_algorithm_le rfl hoid ?_ (by omega)
  simp only [Option.map_none, Option.getD_none, List.length_append, List.length_nil]
  omega

/-- The algorithm of the cipher of new keys is short. -/
theorem length_newCipher_le (iv : Octets 16) : (Cipher.algorithm ⟨32, iv⟩).encode.length ≤ 50 := by
  have hlimit := lengthLimit_eq
  have hoid : (cipherId 42).bytes.length ≤ 16 := by cbv
  exact length_encode_algorithm_le rfl hoid iv.length_eq.le (by omega)

/-- A protected document is at most 256 octets longer than what it protects. -/
theorem length_protect_le {content : Bytes} (h : content.length + 256 < lengthLimit)
    (salt iv : Octets 16) (passphrase : Bytes) :
    (protect salt iv passphrase content).length ≤ content.length + 256 := by
  have hlimit := lengthLimit_eq
  have hoid : pbes2Id.bytes.length ≤ 16 := by cbv
  have hderivation := length_newDerivation_le salt
  have hcipher := length_newCipher_le iv
  have hscheme : (pbes2Algorithm (.pbkdf2 salt.bytes newIterations none .sha256)
      ⟨32, iv⟩).encode.length ≤ 130 + 34 :=
    length_encode_algorithm_le rfl hoid (by rw [List.length_append]; omega) (by omega)
  have hchained := Aes.length_encryptChained
    (Hash.pbkdf2 Hash.sha256 passphrase salt.bytes newIterations 32).bytes iv content
  have hciphertext := length_element_le octetStringTag (by omega)
    (show _ ≤ content.length + 16 by rw [hchained]; omega)
  have hparts : ((pbes2Algorithm (.pbkdf2 salt.bytes newIterations none .sha256)
      ⟨32, iv⟩).encode ++ octetStringBytes (Aes.encryptChained
        (Hash.pbkdf2 Hash.sha256 passphrase salt.bytes newIterations 32).bytes iv content)).length ≤
      content.length + 250 := by
    rw [List.length_append, octetStringBytes]
    omega
  rw [protect, protectedBytes_eq]
  exact length_element_le sequenceTag (by omega) hparts

/-- A description that is protected under a passphrase is read as the key again. -/
theorem decode_encryptInfo {k : Key} {info : Bytes} (h : Pkcs8.encode k = .ok info)
    {salt iv : Octets 16} {passphrase out : Bytes}
    (hout : encryptInfo salt iv passphrase info = .ok out) : decode out passphrase = .ok k := by
  obtain ⟨hlimit, rfl⟩ := (encryptInfo_encode h salt iv passphrase).mp hout
  obtain ⟨p, hp, hcontent⟩ := decrypt?_protect salt iv passphrase info hlimit
  exact decode_eq_ok_iff.mpr ⟨p, info, hp, hcontent, Pkcs8.decode_encode h⟩

end Encrypted

end KeySmith.Der

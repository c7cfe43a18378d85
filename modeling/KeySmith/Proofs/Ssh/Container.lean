import KeySmith.Proofs.Ssh.PrivateFields

/-!
# Private key containers

Reading a container is reading a layout of options, public key blob and private block whose fields
describe the key (`decode_eq_ok_iff`), and writing one is choosing the canonical fields and no
options (`encode_eq_ok_iff`).  The two results about containers follow: what is written is read
back, and what is read is written again byte for byte exactly when it was canonical.
-/

namespace KeySmith.Ssh.Container

variable {bs rest : Bytes} {k : Key} {c : Container}

/-! ### Layouts -/

@[simp] theorem length_padding (length : Nat) :
    (padding length).length = (blockSize - length % blockSize) % blockSize := by
  simp [padding]

/-- Octets are the padding of those before them exactly when they are the beginning of 1, 2, 3, …,
shorter than a block, and fill up the last block. -/
theorem eq_padding_iff {body : Bytes} :
    rest = padding body.length ↔
      isPadding rest = true ∧ (body ++ rest).length % blockSize = 0 := by
  constructor
  · rintro rfl
    refine ⟨?_, ?_⟩
    · rw [isPadding, Bool.and_eq_true, decide_eq_true_eq, beq_iff_eq, length_padding]
      exact ⟨Nat.mod_lt _ (by decide), rfl⟩
    · rw [List.length_append, length_padding]
      unfold blockSize
      omega
  · rintro ⟨hpad, hfull⟩
    rw [isPadding, Bool.and_eq_true, decide_eq_true_eq, beq_iff_eq] at hpad
    obtain ⟨hlt, hrest⟩ := hpad
    have hlen : rest.length = (blockSize - body.length % blockSize) % blockSize := by
      rw [List.length_append] at hfull
      unfold blockSize at hlt hfull ⊢
      omega
    rw [hrest, hlen]
    rfl

/-- Reading a private block reads the check integer twice, fields that describe the key, and the
comment. -/
theorem readBlock_eq_ok_iff :
    readBlock bs = .ok (c, rest) ↔
      ∃ F : PrivateFields, F.Fits ∧ (Text.toBytes c.comment).length < 2 ^ 32 ∧
        bs = uint32Bytes c.check ++ uint32Bytes c.check ++ F.bytes ++ textBytes c.comment ++ rest ∧
        F.Describes c.key := by
  unfold readBlock
  simp only [reader_bind_eq_ok_iff, fields_eq_ok_iff, Reader.uint32_eq_ok_iff]
  constructor
  · rintro ⟨check, _, rfl, again, _, rfl, h⟩
    split at h
    · simp [built_eq_ok_iff] at h
    · rename_i hsame
      obtain rfl := not_not.mp hsame
      simp only [reader_bind_eq_ok_iff, fields_eq_ok_iff, Reader.text_eq_ok_iff,
        readPrivate_eq_ok_iff, reader_pure_eq_ok_iff] at h
      obtain ⟨name, _, ⟨-, rfl⟩, key, _, ⟨F, rfl, hfits, rfl, hF⟩, comment, _, ⟨hcomment, rfl⟩,
        rfl, rfl⟩ := h
      refine ⟨F, hfits, hcomment, ?_, hF⟩
      simp only [PrivateFields.bytes, List.append_assoc]
  · rintro ⟨F, hfits, hcomment, rfl, hF⟩
    simp only [PrivateFields.bytes, List.append_assoc]
    refine ⟨c.check, _, rfl, c.check, _, rfl, ?_⟩
    rw [if_neg (not_not.mpr rfl)]
    simp only [reader_bind_eq_ok_iff, fields_eq_ok_iff, Reader.text_eq_ok_iff,
      readPrivate_eq_ok_iff, reader_pure_eq_ok_iff]
    exact ⟨F.name, _, ⟨F.length_name_lt, rfl⟩, c.key, _, ⟨F, rfl, hfits, rfl, hF⟩,
      c.comment, rest, ⟨hcomment, rfl⟩, rfl, rfl⟩

/-- The name of no cipher fits its length field. -/
theorem length_noCipher_lt : (Text.toBytes noCipher).length < 2 ^ 32 := by
  decide

/-- Reading the outer fields reads the names of no cipher and no key derivation, its options, the
number of keys, the blob and the block, and leaves nothing. -/
theorem readOuter_eq_ok_iff {blob block : Bytes} :
    readOuter bs = .ok ((blob, block), rest) ↔
      rest = [] ∧ blob.length < 2 ^ 32 ∧ block.length < 2 ^ 32 ∧
        ∃ options : Bytes, options.length < 2 ^ 32 ∧
          magic ++ bs = frame options blob block := by
  unfold readOuter
  simp only [reader_bind_eq_ok_iff, fields_eq_ok_iff, Reader.text_eq_ok_iff,
    Reader.string_eq_ok_iff]
  constructor
  · rintro ⟨cipher, _, ⟨-, rfl⟩, kdf, _, ⟨-, rfl⟩, options, _, ⟨hoptions, rfl⟩, h⟩
    split at h
    · simp [built_eq_ok_iff] at h
    rename_i hnone
    obtain ⟨rfl, rfl⟩ : cipher = noCipher ∧ kdf = noCipher := by
      simpa only [not_or, not_not] using hnone
    simp only [reader_bind_eq_ok_iff, fields_eq_ok_iff, Reader.uint32_eq_ok_iff] at h
    obtain ⟨count, _, rfl, h⟩ := h
    split at h
    · simp [built_eq_ok_iff] at h
    rename_i hcount
    obtain rfl := not_not.mp hcount
    simp only [reader_bind_eq_ok_iff, fields_eq_ok_iff, Reader.string_eq_ok_iff,
      Reader.finish_eq_ok_iff, reader_pure_eq_ok_iff, Prod.mk.injEq] at h
    obtain ⟨_, _, ⟨hblob, rfl⟩, _, _, ⟨hblock, rfl⟩, _, _, ⟨rfl, rfl⟩, ⟨rfl, rfl⟩, rfl⟩ := h
    refine ⟨rfl, hblob, hblock, options, hoptions, ?_⟩
    simp only [frame, List.append_assoc, List.append_nil]
  · rintro ⟨rfl, hblob, hblock, options, hoptions, h⟩
    simp only [frame, List.append_assoc, List.append_cancel_left_eq] at h
    subst h
    refine ⟨noCipher, _, ⟨length_noCipher_lt, rfl⟩, noCipher, _, ⟨length_noCipher_lt, rfl⟩,
      options, _, ⟨hoptions, rfl⟩, ?_⟩
    rw [if_neg (by simp)]
    simp only [reader_bind_eq_ok_iff, fields_eq_ok_iff, Reader.uint32_eq_ok_iff]
    refine ⟨1, _, rfl, ?_⟩
    rw [if_neg (by simp)]
    simp only [reader_bind_eq_ok_iff, fields_eq_ok_iff, Reader.string_eq_ok_iff,
      Reader.finish_eq_ok_iff, reader_pure_eq_ok_iff]
    exact ⟨blob, _, ⟨hblob, rfl⟩, block, [], ⟨hblock, by rw [List.append_nil]⟩, (), [],
      ⟨rfl, rfl⟩, rfl, rfl⟩

/-- Whether octets hold a container with the given options and private fields. -/
structure IsLayout (bs options : Bytes) (F : PrivateFields) (c : Container) : Prop where
  eq_frame : bs = frame options (publicBlob c.key) (block c.check F.bytes c.comment)
  describes : F.Describes c.key
  options_lt : options.length < 2 ^ 32
  blob_lt : (publicBlob c.key).length < 2 ^ 32
  block_lt : (block c.check F.bytes c.comment).length < 2 ^ 32

/-- The private numbers and the comment are shorter than the block that holds them. -/
theorem length_le_length_block (check : UInt32) (secret : Bytes) (comment : String) :
    secret.length + (Text.toBytes comment).length ≤ (block check secret comment).length := by
  simp only [block, pad, textBytes, List.length_append, length_stringBytes]
  omega

/-- A block has few octets beside the private numbers and the comment. -/
theorem length_block_lt (check : UInt32) (secret : Bytes) (comment : String) :
    (block check secret comment).length <
      secret.length + (Text.toBytes comment).length + 20 := by
  have hpad : (padding (uint32Bytes check ++ uint32Bytes check ++ secret ++
      textBytes comment).length).length < 8 := by
    rw [length_padding]
    exact Nat.mod_lt _ (by decide)
  simp only [block, pad, textBytes, List.length_append, length_stringBytes,
    length_uint32Bytes] at hpad ⊢
  omega

/-- The fields of a layout fit their lengths. -/
theorem IsLayout.fits {options : Bytes} {F : PrivateFields} (h : IsLayout bs options F c) :
    F.Fits := by
  have hle := length_le_length_block c.check F.bytes c.comment
  have hlt := h.block_lt
  exact PrivateFields.fits_of_length_lt (by omega)

/-- Every container starts with the magic text. -/
theorem exists_frame_eq (options blob block : Bytes) :
    ∃ outer, magic ++ outer = frame options blob block := by
  simp only [frame, List.append_assoc]
  exact ⟨_, rfl⟩

/-- Reading a container succeeds exactly on the layouts of containers. -/
theorem decode_eq_ok_iff :
    decode bs = .ok c ↔ ∃ options F, IsLayout bs options F c := by
  unfold decode
  simp only [guard_eq_ok_iff, bind_eq_ok_iff, Prod.exists, readOuter_eq_ok_iff,
    readBlock_eq_ok_iff, pure_eq_ok_iff, Bool.not_eq_true', Bool.not_eq_false,
    List.isPrefixOf_iff_prefix, not_not]
  constructor
  · rintro ⟨⟨outer, rfl⟩, blob, full, _, ⟨rfl, hblob, hfull, options, hoptions, hframe⟩, hblocks,
      c', rest, ⟨F, hfits, hcomment, rfl, hF⟩, hpad, hpublic, rfl⟩
    rw [List.drop_left] at hframe
    have hrest := eq_padding_iff.mpr ⟨hpad, hblocks⟩
    subst hrest
    subst hpublic
    exact ⟨options, F, hframe, hF, hoptions, hblob, hfull⟩
  · rintro ⟨options, F, h⟩
    obtain ⟨outer, houter⟩ := exists_frame_eq options (publicBlob c.key)
      (block c.check F.bytes c.comment)
    have hle := length_le_length_block c.check F.bytes c.comment
    have hlt := h.block_lt
    obtain ⟨hpad, hblocks⟩ := eq_padding_iff.mp (Eq.refl (padding (uint32Bytes c.check ++
      uint32Bytes c.check ++ F.bytes ++ textBytes c.comment).length))
    obtain rfl := h.eq_frame.trans houter.symm
    rw [List.drop_left]
    exact ⟨⟨outer, rfl⟩, publicBlob c.key, block c.check F.bytes c.comment, [],
      ⟨rfl, h.blob_lt, h.block_lt, options, h.options_lt, houter⟩, hblocks, c, _,
      ⟨F, h.fits, by omega, rfl, h.describes⟩, hpad, rfl, rfl⟩

/-! ### Writing -/

/-- A container is written without options and with the canonical fields that describe its key. -/
theorem encode_eq_ok_iff {out : Bytes} :
    encode c = .ok out ↔
      ∃ F : PrivateFields, F.Describes c.key ∧ F.IsCanonical ∧
        out = frame [] (publicBlob c.key) (block c.check F.bytes c.comment) := by
  unfold encode
  simp only [bind_eq_ok_iff, privateFields_eq_ok_iff, pure_eq_ok_iff]
  constructor
  · rintro ⟨_, ⟨F, hF, hcanonical, rfl⟩, rfl⟩
    exact ⟨F, hF, hcanonical, rfl⟩
  · rintro ⟨F, hF, hcanonical, rfl⟩
    exact ⟨F.bytes, ⟨F, hF, hcanonical, rfl⟩, rfl⟩

/-! ### Uniqueness of layouts -/

/-- Two frames with the same octets have the same parts. -/
theorem frame_inj {options options' blob blob' block block' : Bytes}
    (hoptions : options.length < 2 ^ 32) (hoptions' : options'.length < 2 ^ 32)
    (hblob : blob.length < 2 ^ 32) (hblob' : blob'.length < 2 ^ 32)
    (h : frame options blob block = frame options' blob' block') :
    options = options' ∧ blob = blob' ∧ block = block' := by
  simp only [frame, List.append_assoc, List.append_cancel_left_eq] at h
  obtain ⟨rfl, hrest⟩ := stringBytes_append_inj hoptions hoptions' h
  simp only [List.append_cancel_left_eq] at hrest
  obtain ⟨rfl, hblock⟩ := stringBytes_append_inj hblob hblob' hrest
  exact ⟨rfl, rfl, (List.append_inj hblock (by simp)).2⟩

/-- Two blocks with the same octets have the same private fields. -/
theorem block_inj {F G : PrivateFields} {check check' : UInt32} {comment comment' : String}
    (hF : F.Fits) (hG : G.Fits)
    (h : block check F.bytes comment = block check' G.bytes comment') : F = G := by
  simp only [block, pad, List.append_assoc] at h
  obtain ⟨-, hbehind⟩ := List.append_inj h (by simp)
  obtain ⟨-, hfields⟩ := List.append_inj hbehind (by simp)
  exact (PrivateFields.bytes_append_inj hF hG hfields).1

/-- Whether the private block of a container is short enough for its length field. -/
def Fits (c : Container) : Prop :=
  ∀ secret, privateFields c.key = .ok secret →
    (block c.check secret c.comment).length < 2 ^ 32

/-- A container that is written is one of canonical fields, and fits when they do. -/
theorem fits_iff {F : PrivateFields} (hF : F.Describes c.key) (hcanonical : F.IsCanonical) :
    c.Fits ↔ (block c.check F.bytes c.comment).length < 2 ^ 32 := by
  have hsecret : privateFields c.key = .ok F.bytes :=
    privateFields_eq_ok_iff.mpr ⟨F, hF, hcanonical, rfl⟩
  constructor
  · intro h
    exact h F.bytes hsecret
  · intro h secret hsecret'
    obtain rfl := Except.ok.inj (hsecret.symm.trans hsecret')
    exact h

/-- A container that is written is read back if it fits. -/
theorem decode_of_encode (hencode : encode c = .ok bs) (hfits : c.Fits) : decode bs = .ok c := by
  obtain ⟨F, hF, hcanonical, rfl⟩ := encode_eq_ok_iff.mp hencode
  have hblock := (fits_iff hF hcanonical).mp hfits
  have hblob := length_publicBlob_le hF hcanonical
  have hle := length_le_length_block c.check F.bytes c.comment
  exact decode_eq_ok_iff.mpr ⟨[], F, rfl, hF, by simp, by omega, hblock⟩

/-- A container that is written fits if its key is read back. -/
theorem fits_of_decode_encode {c' : Container} (hencode : encode c = .ok bs)
    (hdecode : decode bs = .ok c') (hkey : c'.key = c.key) : c.Fits := by
  obtain ⟨F, hF, hcanonical, hbs⟩ := encode_eq_ok_iff.mp hencode
  obtain ⟨options, G, hlayout⟩ := decode_eq_ok_iff.mp hdecode
  have hframe := hbs.symm.trans hlayout.eq_frame
  have hblob : (publicBlob c.key).length < 2 ^ 32 := hkey ▸ hlayout.blob_lt
  obtain ⟨-, -, hblock⟩ := frame_inj (by simp) hlayout.options_lt hblob hlayout.blob_lt hframe
  rw [fits_iff hF hcanonical, hblock]
  exact hlayout.block_lt

/-- A container fits that has a comment of fewer than `2 ^ 31` octets and numbers of moderate size.
-/
theorem fits_of_lt (hcomment : (Text.toBytes c.comment).length < 2 ^ 31)
    (hk : c.key.IsModerate) : c.Fits := by
  intro secret h
  obtain ⟨F, hF, hcanonical, rfl⟩ := privateFields_eq_ok_iff.mp h
  have hbytes := length_bytes_le hF hcanonical hk
  have hblock := length_block_lt c.check F.bytes c.comment
  omega

/-- Every container of a private key with no more than two primes is written. -/
theorem exists_encode (c : Container) (hprivate : c.key.isPrivate = true)
    (hprimes : c.key.IsTwoPrime) : ∃ bs, encode c = .ok bs := by
  obtain ⟨F, hF, hcanonical⟩ := exists_canonical hprivate hprimes
  exact ⟨_, encode_eq_ok_iff.mpr ⟨F, hF, hcanonical, rfl⟩⟩

/-- Every container of a private key with no more than two primes is written, and it is read back if
its private block fits its length field. -/
theorem decode_encode_of_fits (c : Container) (hprivate : c.key.isPrivate = true)
    (hprimes : c.key.IsTwoPrime) (hfits : c.Fits) :
    ∃ bs, encode c = .ok bs ∧ decode bs = .ok c := by
  obtain ⟨bs, hencode⟩ := exists_encode c hprivate hprimes
  exact ⟨bs, hencode, decode_of_encode hencode hfits⟩

/-- A container of the key with the modulus 15 fits. -/
theorem fits_fifteen : Fits ⟨.rsa .fifteen, "сервер", 7⟩ := by
  rw [fits_iff fifteenFields_describes fifteenFields_isCanonical]
  decide +kernel

/-- The container of the key with the modulus 15 is read back. -/
theorem decode_encode_fifteen :
    ∃ bs, encode ⟨.rsa .fifteen, "сервер", 7⟩ = .ok bs ∧
      decode bs = .ok ⟨.rsa .fifteen, "сервер", 7⟩ := by
  refine decode_encode_of_fits _ rfl ?_ fits_fifteen
  rintro r s ⟨rfl⟩ ⟨rfl⟩
  rfl

/-- The container that is written with canonical fields is the one that was read exactly when that
one has no options and canonical fields itself. -/
theorem IsLayout.frame_eq_iff {options : Bytes} {F G : PrivateFields}
    (h : IsLayout bs options F c) (hG : G.Describes c.key) (hcanonical : G.IsCanonical) :
    frame [] (publicBlob c.key) (block c.check G.bytes c.comment) = bs ↔
      options = [] ∧ F.IsCanonical := by
  constructor
  · intro heq
    obtain ⟨hoptions, -, hblock⟩ :=
      frame_inj (by simp) h.options_lt h.blob_lt h.blob_lt (heq.trans h.eq_frame)
    have hle := length_le_length_block c.check G.bytes c.comment
    have hlt := h.block_lt
    rw [← hblock] at hlt
    have hfits : G.Fits := PrivateFields.fits_of_length_lt (by omega)
    obtain rfl := block_inj hfits h.fits hblock
    exact ⟨hoptions.symm, hcanonical⟩
  · rintro ⟨rfl, hcanonical'⟩
    -- both are what is written for the key, which is only one octet string
    have hsecret : privateFields c.key = .ok F.bytes :=
      privateFields_eq_ok_iff.mpr ⟨F, h.describes, hcanonical', rfl⟩
    have hsecret' : privateFields c.key = .ok G.bytes :=
      privateFields_eq_ok_iff.mpr ⟨G, hG, hcanonical, rfl⟩
    obtain hbytes := Except.ok.inj (hsecret'.symm.trans hsecret)
    rw [hbytes, h.eq_frame]

/-- A container that is read is written again. The octets are the same exactly when there are no
options and the private fields are canonical, so those of an Ed25519 key without options are. -/
theorem encode_eq_iff_isCanonical (h : decode bs = .ok c) :
    ∃ out, encode c = .ok out ∧ (∃ options F, IsLayout bs options F c) ∧
      ∀ options F, IsLayout bs options F c →
        (out = bs ↔ options = [] ∧ F.IsCanonical) ∧
        (c.key.algorithm = .ed25519 → options = [] → out = bs) := by
  obtain ⟨options, F, hlayout⟩ := decode_eq_ok_iff.mp h
  obtain ⟨hprivate, hprimes⟩ := isPrivate_of_describes hlayout.describes
  obtain ⟨G, hG, hcanonical⟩ := exists_canonical hprivate hprimes
  refine ⟨_, encode_eq_ok_iff.mpr ⟨G, hG, hcanonical, rfl⟩, ⟨options, F, hlayout⟩, ?_⟩
  intro options' F' hlayout'
  have hiff := hlayout'.frame_eq_iff hG hcanonical
  refine ⟨hiff, ?_⟩
  intro hed hoptions
  exact hiff.mpr ⟨hoptions, isCanonical_of_ed25519 hlayout'.describes hed⟩

/-- A container of the key with the modulus 15 that has options is written again without them. -/
theorem encode_ne_of_options :
    ∃ bs out, decode bs = .ok ⟨.rsa .fifteen, "сервер", 7⟩ ∧
      encode ⟨.rsa .fifteen, "сервер", 7⟩ = .ok out ∧ out ≠ bs := by
  have hlayout : IsLayout _ [0] fifteenFields ⟨.rsa .fifteen, "сервер", 7⟩ :=
    ⟨rfl, fifteenFields_describes, by decide, by decide +kernel, by decide +kernel⟩
  have hdecode := decode_eq_ok_iff.mpr ⟨_, _, hlayout⟩
  obtain ⟨out, hout, -, hall⟩ := encode_eq_iff_isCanonical hdecode
  refine ⟨_, out, hdecode, hout, ?_⟩
  intro hsame
  cases ((hall _ _ hlayout).1.mp hsame).1

end KeySmith.Ssh.Container

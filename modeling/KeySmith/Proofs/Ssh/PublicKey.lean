import KeySmith.Proofs.Key
import KeySmith.Proofs.Ssh.Wire
import KeySmith.Ssh.PublicKey

/-!
# Public key blobs

`PublicFields` is what a blob consists of before any of it is checked, and `PublicFields.Describes`
says which key the fields stand for.  Reading a blob is reading its fields and nothing else
(`decodeBlob_eq_ok_iff`).  The blob of a key holds fields that describe its public half, so it is
read back, except that a modulus may be too large to be read by itself.
-/

namespace KeySmith.Ssh

variable {α : Type} {bs rest : Bytes}

/-! ### Steps -/

/-- Fields read on the way to a key are fields read. -/
theorem fields_eq_ok_iff {r : Reader α} {a : α} :
    fields r bs = .ok (a, rest) ↔ r bs = .ok (a, rest) :=
  Result.of_eq_ok_iff

/-- Building a part of a key reads nothing. -/
theorem built_eq_ok_iff {r : Result α} {a : α} :
    built r bs = .ok (a, rest) ↔ r = .ok a ∧ bs = rest := by
  cases r with
  | error e => simp [built, Except.map]
  | ok b => simp [built, Except.map]

/-! ### Names -/

/-- The curve of a type name is the one with this name. -/
theorem curveOfName?_eq_some_iff {name : String} {c : Curve} :
    curveOfName? name = some c ↔ curveName c = name := by
  constructor
  · intro h
    have hname := List.find?_some h
    exact eq_of_beq hname
  · rintro rfl
    cases c <;> decide

theorem rsaName_ne_ed25519Name : rsaName ≠ ed25519Name := by
  decide

/-- The type names of keys on a curve differ from the one of Ed25519 keys. -/
theorem curveName_ne_ed25519Name (c : Curve) : curveName c ≠ ed25519Name := by
  cases c <;> decide

/-- The type names of keys on a curve differ from the one of RSA keys. -/
theorem curveName_ne_rsaName (c : Curve) : curveName c ≠ rsaName := by
  cases c <;> decide

/-- The identifier of a curve fits its length field. -/
theorem length_sshId_lt (c : Curve) : (Text.toBytes c.sshId).length < 2 ^ 32 := by
  cases c <;> decide

/-- The type name of keys on a curve fits its length field. -/
theorem length_curveName_lt (c : Curve) : (Text.toBytes (curveName c)).length < 2 ^ 32 := by
  cases c <;> decide

/-! ### Fields -/

/-- The fields of a public key blob behind its type name. -/
inductive PublicFields where
  | ed25519 (point : Bytes)
  | rsa (e n : Bytes)
  | ecdsa (curve : Curve) (form : Bytes)

namespace PublicFields

/-- The type name in front of the fields. -/
def name : PublicFields → String
  | ed25519 _ => ed25519Name
  | rsa _ _ => rsaName
  | ecdsa c _ => curveName c

/-- The octets behind the type name. -/
def body : PublicFields → Bytes
  | ed25519 point => stringBytes point
  | rsa e n => stringBytes e ++ stringBytes n
  | ecdsa c form => textBytes c.sshId ++ stringBytes form

/-- Whether every field fits its length. -/
def Fits : PublicFields → Prop
  | ed25519 point => point.length < 2 ^ 32
  | rsa e n => e.length < 2 ^ 32 ∧ n.length < 2 ^ 32
  | ecdsa _ form => form.length < 2 ^ 32

/-- Whether a key is the public key that the fields stand for. -/
def Describes : PublicFields → Key → Prop
  | ed25519 point, .ed25519 k => point = k.point.bytes ∧ k.seed = none
  | rsa e n, .rsa k =>
    Denotes e k.e ∧ Denotes n k.n ∧ k.bits ≤ RsaKey.sizeLimit ∧ k.secret = none
  | ecdsa c form, .ecdsa k => EcKey.ofPoint? c form = some k
  | _, _ => False

/-- The fields of the blob that is written for a key. -/
def ofKey : Key → PublicFields
  | .ed25519 k => ed25519 k.point.bytes
  | .rsa k => rsa (integerContent k.e) (integerContent k.n)
  | .ecdsa k => ecdsa k.curve k.pointBytes

end PublicFields

/-- The blob of a key consists of its fields. -/
theorem publicBlob_eq (k : Key) :
    publicBlob k = textBytes (PublicFields.ofKey k).name ++ (PublicFields.ofKey k).body := by
  cases k with
  | ed25519 k => rfl
  | ecdsa k => rfl
  | rsa k =>
    rw [publicBlob, naturalBytes_eq, naturalBytes_eq]
    rfl

/-! ### Reading -/

/-- Reading a point reads the identifier of the curve and the form of the point. -/
theorem readPoint_eq_ok_iff {c : Curve} {form : Bytes} :
    readPoint c bs = .ok (form, rest) ↔
      form.length < 2 ^ 32 ∧ bs = textBytes c.sshId ++ stringBytes form ++ rest := by
  unfold readPoint
  simp only [reader_bind_eq_ok_iff, fields_eq_ok_iff, Reader.text_eq_ok_iff]
  constructor
  · rintro ⟨id, mid, ⟨-, rfl⟩, h⟩
    split at h
    · rename_i hid
      subst hid
      obtain ⟨hlen, rfl⟩ := Reader.string_eq_ok_iff.mp (fields_eq_ok_iff.mp h)
      exact ⟨hlen, by rw [List.append_assoc]⟩
    · simp [built_eq_ok_iff] at h
  · rintro ⟨hlen, rfl⟩
    refine ⟨c.sshId, stringBytes form ++ rest, ⟨length_sshId_lt c, by rw [List.append_assoc]⟩, ?_⟩
    rw [if_pos rfl]
    exact fields_eq_ok_iff.mpr (Reader.string_eq_ok_iff.mpr ⟨hlen, rfl⟩)

/-- An Ed25519 point is a stored point that can be read back. -/
theorem readPublic_ed25519 {k : Key} :
    readPublic ed25519Name bs = .ok (k, rest) ↔
      ∃ point, (PublicFields.ed25519 point).Fits ∧
        bs = (PublicFields.ed25519 point).body ++ rest ∧
        (PublicFields.ed25519 point).Describes k := by
  unfold readPublic
  rw [if_pos rfl]
  simp only [reader_bind_eq_ok_iff, fields_eq_ok_iff, built_eq_ok_iff, Reader.string_eq_ok_iff,
    Result.ofOption_eq_ok_iff, reader_pure_eq_ok_iff, Ed25519Key.ofPoint?_eq_some_iff]
  constructor
  · rintro ⟨form, mid, ⟨hlen, rfl⟩, point, _, ⟨hpoint, rfl⟩, key, _, ⟨⟨rfl, hseed⟩, rfl⟩, rfl, rfl⟩
    exact ⟨form, hlen, rfl, Octets.ofBytes?_eq_some_iff.mp hpoint, hseed⟩
  · rintro ⟨form, hlen, rfl, hk⟩
    cases k with
    | rsa k => exact hk.elim
    | ecdsa k => exact hk.elim
    | ed25519 k =>
      obtain ⟨rfl, hseed⟩ := hk
      exact ⟨k.point.bytes, rest, ⟨hlen, rfl⟩, k.point, rest,
        ⟨Octets.ofBytes?_bytes k.point, rfl⟩, k, rest, ⟨⟨rfl, hseed⟩, rfl⟩, rfl, rfl⟩

/-- A public RSA key is an exponent and a modulus that is not too large. -/
theorem readPublic_rsa {k : Key} :
    readPublic rsaName bs = .ok (k, rest) ↔
      ∃ e n, (PublicFields.rsa e n).Fits ∧ bs = (PublicFields.rsa e n).body ++ rest ∧
        (PublicFields.rsa e n).Describes k := by
  unfold readPublic
  rw [if_neg rsaName_ne_ed25519Name, if_pos rfl]
  simp only [reader_bind_eq_ok_iff, fields_eq_ok_iff, built_eq_ok_iff, Reader.natural_eq_ok_iff,
    Result.of_eq_ok_iff, reader_pure_eq_ok_iff, RsaKey.ofPublic_eq_ok_iff]
  constructor
  · rintro ⟨_, _, ⟨e, he, hke, rfl⟩, _, _, ⟨n, hn, hkn, rfl⟩, key, _,
      ⟨⟨hsize, rfl, rfl, hsecret⟩, rfl⟩, rfl, rfl⟩
    refine ⟨e, n, ⟨he, hn⟩, ?_, hke, hkn, hsize, hsecret⟩
    rw [PublicFields.body, List.append_assoc]
  · rintro ⟨e, n, ⟨he, hn⟩, rfl, hk⟩
    cases k with
    | ed25519 k => exact hk.elim
    | ecdsa k => exact hk.elim
    | rsa k =>
      obtain ⟨hke, hkn, hsize, hsecret⟩ := hk
      refine ⟨k.e, stringBytes n ++ rest, ⟨e, he, hke, ?_⟩, k.n, rest, ⟨n, hn, hkn, rfl⟩, k, rest,
        ⟨⟨hsize, rfl, rfl, hsecret⟩, rfl⟩, rfl, rfl⟩
      rw [PublicFields.body, List.append_assoc]

/-- A public key on a curve is a form of a point on it. -/
theorem readPublic_curveName {c : Curve} {k : Key} :
    readPublic (curveName c) bs = .ok (k, rest) ↔
      ∃ form, (PublicFields.ecdsa c form).Fits ∧ bs = (PublicFields.ecdsa c form).body ++ rest ∧
        (PublicFields.ecdsa c form).Describes k := by
  have hcurve : curveOfName? (curveName c) = some c := curveOfName?_eq_some_iff.mpr rfl
  unfold readPublic
  rw [if_neg (curveName_ne_ed25519Name c), if_neg (curveName_ne_rsaName c), hcurve]
  simp only [reader_bind_eq_ok_iff, built_eq_ok_iff, readPoint_eq_ok_iff,
    Result.ofOption_eq_ok_iff, reader_pure_eq_ok_iff, EcKey.ofParts_none_eq_ok_iff]
  constructor
  · rintro ⟨_, _, ⟨hc, rfl⟩, form, _, ⟨hlen, rfl⟩, key, _, ⟨hkey, rfl⟩, rfl, rfl⟩
    cases hc
    exact ⟨form, hlen, rfl, hkey⟩
  · rintro ⟨form, hlen, rfl, hk⟩
    cases k with
    | ed25519 k => exact hk.elim
    | rsa k => exact hk.elim
    | ecdsa k => exact ⟨c, _, ⟨rfl, rfl⟩, form, rest, ⟨hlen, rfl⟩, k, rest, ⟨hk, rfl⟩, rfl, rfl⟩

/-- A type name that is none of the five is refused. -/
theorem exists_curveName_of_readPublic {name : String} {k : Key}
    (hed : name ≠ ed25519Name) (hrsa : name ≠ rsaName)
    (h : readPublic name bs = .ok (k, rest)) : ∃ c, curveName c = name := by
  unfold readPublic at h
  rw [if_neg hed, if_neg hrsa, reader_bind_eq_ok_iff] at h
  obtain ⟨c, mid, hc, -⟩ := h
  rw [built_eq_ok_iff, Result.ofOption_eq_ok_iff] at hc
  exact ⟨c, curveOfName?_eq_some_iff.mp hc.1⟩

/-- Reading the public key behind a type name is reading fields of this type. -/
theorem readPublic_eq_ok_iff {name : String} {k : Key} :
    readPublic name bs = .ok (k, rest) ↔
      ∃ F : PublicFields, F.name = name ∧ F.Fits ∧ bs = F.body ++ rest ∧ F.Describes k := by
  constructor
  · intro h
    by_cases hed : name = ed25519Name
    · subst hed
      obtain ⟨point, hF⟩ := readPublic_ed25519.mp h
      exact ⟨.ed25519 point, rfl, hF⟩
    by_cases hrsa : name = rsaName
    · subst hrsa
      obtain ⟨e, n, hF⟩ := readPublic_rsa.mp h
      exact ⟨.rsa e n, rfl, hF⟩
    obtain ⟨c, rfl⟩ := exists_curveName_of_readPublic hed hrsa h
    obtain ⟨form, hF⟩ := readPublic_curveName.mp h
    exact ⟨.ecdsa c form, rfl, hF⟩
  · rintro ⟨F, rfl, hF⟩
    cases F with
    | ed25519 point => exact readPublic_ed25519.mpr ⟨point, hF⟩
    | rsa e n => exact readPublic_rsa.mpr ⟨e, n, hF⟩
    | ecdsa c form => exact readPublic_curveName.mpr ⟨form, hF⟩

/-- Every type name fits its length field. -/
theorem PublicFields.length_name_lt (F : PublicFields) :
    (Text.toBytes F.name).length < 2 ^ 32 := by
  cases F with
  | ed25519 point =>
    change (Text.toBytes ed25519Name).length < 2 ^ 32
    decide
  | rsa e n =>
    change (Text.toBytes rsaName).length < 2 ^ 32
    decide
  | ecdsa c form => exact length_curveName_lt c

/-- A blob is read exactly when it consists of fields that describe a key. -/
theorem decodeBlob_eq_ok_iff {k : Key} :
    decodeBlob bs = .ok k ↔
      ∃ F : PublicFields, F.Fits ∧ bs = textBytes F.name ++ F.body ∧ F.Describes k := by
  unfold decodeBlob StateT.run
  simp only [map_eq_ok_iff, Prod.exists, reader_bind_eq_ok_iff, fields_eq_ok_iff,
    Reader.text_eq_ok_iff, Reader.finish_eq_ok_iff, reader_pure_eq_ok_iff, readPublic_eq_ok_iff]
  constructor
  · rintro ⟨_, _, ⟨name, mid, ⟨-, rfl⟩, key, _, ⟨F, rfl, hfits, rfl, hF⟩, _, _, ⟨rfl, rfl⟩,
      rfl, rfl⟩, rfl⟩
    exact ⟨F, hfits, by rw [List.append_nil], hF⟩
  · rintro ⟨F, hfits, rfl, hF⟩
    exact ⟨k, [], ⟨F.name, F.body, ⟨F.length_name_lt, rfl⟩, k, [],
      ⟨F, rfl, hfits, by rw [List.append_nil], hF⟩, (), [], ⟨rfl, rfl⟩, rfl, rfl⟩, rfl⟩

/-! ### Reading back -/

/-- The fields written for a key describe its public half, if its modulus is not too large. -/
theorem PublicFields.ofKey_describes {k : Key} (h : k.IsReadable) :
    (PublicFields.ofKey k).Describes k.toPublic := by
  cases k with
  | ed25519 k => exact ⟨rfl, rfl⟩
  | ecdsa k => exact k.ofPoint?_pointBytes
  | rsa k =>
    exact ⟨denotes_integerContent k.e, denotes_integerContent k.n, (Key.isReadable_rsa k).mp h, rfl⟩

/-- The shortest content of a number takes at most one octet more than the number. -/
theorem length_integerContent_le (n : Nat) :
    (integerContent n).length ≤ BigEndian.size n + 1 := by
  unfold integerContent signed
  split <;> simp

/-- The shortest content of a number of at most 4096 bits fits its length field. -/
theorem length_integerContent_lt {n : Nat} (h : BigEndian.bitLength n ≤ RsaKey.sizeLimit) :
    (integerContent n).length < 2 ^ 32 := by
  have hle := length_integerContent_le n
  have hsize : BigEndian.size n ≤ 512 := by
    unfold BigEndian.size
    unfold RsaKey.sizeLimit at h
    omega
  omega

/-- The fields written for a key fit their lengths, if its modulus is not too large. -/
theorem PublicFields.ofKey_fits {k : Key} (h : k.IsReadable) :
    (PublicFields.ofKey k).Fits := by
  cases k with
  | ed25519 k =>
    change k.point.bytes.length < 2 ^ 32
    rw [k.point.length_eq]
    decide
  | ecdsa k =>
    change k.pointBytes.length < 2 ^ 32
    have := k.curve.size_le
    rw [EcKey.length_pointBytes]
    omega
  | rsa k =>
    refine ⟨length_integerContent_lt ?_, length_integerContent_lt ((Key.isReadable_rsa k).mp h)⟩
    exact k.bitLength_e_le.trans (by decide)

/-- The exponent and the modulus in the blob of an RSA key are the only ones that can be read
there. -/
theorem PublicFields.eq_of_publicBlob_rsa {k : RsaKey} {F : PublicFields} (hF : F.Fits)
    (h : publicBlob (.rsa k) = textBytes F.name ++ F.body) :
    F = .rsa (integerContent k.e) (integerContent k.n) := by
  rw [publicBlob_eq] at h
  obtain ⟨hname, hbody⟩ := stringBytes_append_inj (PublicFields.length_name_lt _) F.length_name_lt h
  have hname : rsaName = F.name := Text.toBytes_injective hname
  cases F with
  | ed25519 point => exact absurd hname rsaName_ne_ed25519Name
  | ecdsa c form => exact absurd hname.symm (curveName_ne_rsaName c)
  | rsa e n =>
    have he : (integerContent k.e).length < 2 ^ 32 :=
      length_integerContent_lt (k.bitLength_e_le.trans (by decide))
    obtain ⟨rfl, hn⟩ := stringBytes_append_inj he hF.1 hbody
    -- Nothing is known of the length of the modulus here, but both fields end the blob.
    have hlength := congrArg List.length hn
    rw [length_stringBytes, length_stringBytes] at hlength
    obtain ⟨-, rfl⟩ := List.append_inj' hn (by omega)
    rfl

/-- The blob of a key is read as its public half and as no other key, and only when its modulus, if
it has one, is not too large. -/
theorem decodeBlob_publicBlob_eq_ok_iff {k l : Key} :
    decodeBlob (publicBlob k) = .ok l ↔ k.IsReadable ∧ l = k.toPublic := by
  have hread (h : k.IsReadable) : decodeBlob (publicBlob k) = .ok k.toPublic :=
    decodeBlob_eq_ok_iff.mpr ⟨PublicFields.ofKey k, PublicFields.ofKey_fits h, publicBlob_eq k,
      PublicFields.ofKey_describes h⟩
  constructor
  · intro h
    have hreadable : k.IsReadable := by
      rintro r rfl
      obtain ⟨F, hfits, hblob, hF⟩ := decodeBlob_eq_ok_iff.mp h
      rw [PublicFields.eq_of_publicBlob_rsa hfits hblob] at hF
      cases l with
      | ed25519 l => exact hF.elim
      | ecdsa l => exact hF.elim
      | rsa l =>
        obtain ⟨-, ⟨-, hn⟩, hsize, -⟩ := hF
        rw [toNat_integerContent] at hn
        rwa [RsaKey.bits, hn]
    exact ⟨hreadable, Except.ok.inj (h.symm.trans (hread hreadable))⟩
  · rintro ⟨hreadable, rfl⟩
    exact hread hreadable

/-- The blob of a key is read as its public half, exactly when its modulus, if it has one, is not
too large. -/
theorem decodeBlob_publicBlob_iff (k : Key) :
    decodeBlob (publicBlob k) = .ok k.toPublic ↔ k.IsReadable := by
  rw [decodeBlob_publicBlob_eq_ok_iff]
  exact and_iff_left rfl

/-! ### The start of a blob -/

/-- Every type name starts as one. -/
theorem PublicFields.startsAsName_name (F : PublicFields) :
    startsAsName F.name.toList = true := by
  cases F with
  | rsa e n =>
    change startsAsName rsaName.toList = true
    decide
  | ed25519 point =>
    change startsAsName ed25519Name.toList = true
    decide
  | ecdsa c form =>
    change startsAsName (curveName c).toList = true
    cases c <;> decide

/-- A blob of any fields starts as a blob does. -/
theorem PublicFields.looksLikeBlob (F : PublicFields) :
    looksLikeBlob (textBytes F.name ++ F.body) = true := by
  have hread : Reader.text (textBytes F.name ++ F.body) = .ok (F.name, F.body) :=
    Reader.text_eq_ok_iff.mpr ⟨F.length_name_lt, rfl⟩
  rw [Ssh.looksLikeBlob, hread]
  exact F.startsAsName_name

/-- The blob of a key starts as a blob does. -/
theorem looksLikeBlob_publicBlob (k : Key) : looksLikeBlob (publicBlob k) = true := by
  rw [publicBlob_eq]
  exact PublicFields.looksLikeBlob _

/-- A blob that is read starts as a blob does. -/
theorem looksLikeBlob_of_decodeBlob {k : Key} (h : decodeBlob bs = .ok k) :
    looksLikeBlob bs = true := by
  obtain ⟨F, -, rfl, -⟩ := decodeBlob_eq_ok_iff.mp h
  exact F.looksLikeBlob

/-- The first octet of what starts as a blob is the highest one of the length of a name, so much has
to follow it. -/
theorem mul_le_length_of_looksLikeBlob {b : UInt8} (h : looksLikeBlob (b :: bs) = true) :
    2 ^ 24 * b.toNat ≤ bs.length := by
  unfold looksLikeBlob at h
  split at h
  · rename_i name rest hread
    obtain ⟨hlength, heq⟩ := Reader.text_eq_ok_iff.mp hread
    have hnat : (Text.toBytes name).length.toUInt32.toNat = (Text.toBytes name).length :=
      UInt32.toNat_ofNat_of_lt hlength
    have hall := congrArg List.length heq
    rw [textBytes, List.length_cons, List.length_append, length_stringBytes] at hall
    rw [textBytes, stringBytes, uint32Bytes, hnat, BigEndian.fixed_succ] at heq
    obtain ⟨rfl, -⟩ := List.cons.inj heq
    have hoctet : ((Text.toBytes name).length / 256 ^ 3).toUInt8.toNat =
        (Text.toBytes name).length / 256 ^ 3 :=
      UInt8.toNat_ofNat_of_lt (by change _ < 256; omega)
    rw [hoctet]
    omega
  · cases h

end KeySmith.Ssh

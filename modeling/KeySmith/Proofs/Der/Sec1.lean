import KeySmith.Der.Sec1
import KeySmith.Proofs.Der.AlgorithmId
import KeySmith.Proofs.Key

/-!
# Reading elliptic curve private key bodies back

A body is read back from its octets, with the curve named or not.  The body that is written for a
key gives the point of the key, so it is the body of that key on its curve.
-/

namespace KeySmith.Der.Sec1

variable {bs rest : Bytes}

/-! ### Bodies -/

/-- Reading all bits of a bit string undoes writing whole octets. -/
theorem wholeBits_bitStringBytes {form : Bytes} (h : form.length + 1 < lengthLimit) :
    wholeBits (bitStringBytes form) = some (form, []) := by
  have hbits : bitString (bitStringBytes form ++ []) = some (⟨0, form⟩, []) :=
    bitString_bitStringBytes h
  rw [List.append_nil] at hbits
  unfold wholeBits
  rw [Reader.bind_eq_some_iff]
  exact ⟨⟨0, form⟩, [], hbits, rfl⟩

/-- The curve is read back where it is named. -/
theorem curve_field? {oid : ObjectId} (hoid : (ObjectId.arcs? oid.bytes).isSome = true)
    (hlimit : (objectIdBytes oid).length < lengthLimit) :
    field? 0 (inside (explicitTag 0) objectId)
      (element (explicitTag 0) (objectIdBytes oid) ++ rest) = some (some oid, rest) := by
  have hlen : oid.bytes.length < lengthLimit :=
    (length_lt_length_element objectIdTag oid.bytes).trans hlimit
  refine field?_element_self (by decide) (by decide) (by decide) ?_
  exact inside_eq_some_iff.mpr ⟨objectIdBytes oid, by decide, hlimit, rfl,
    objectId_eq_some_iff.mpr ⟨hoid, hlen, (List.append_nil _).symm⟩⟩

/-- The point is read back. -/
theorem point_field? {form : Bytes} (hlimit : (bitStringBytes form).length < lengthLimit) :
    field? 1 (inside (explicitTag 1) wholeBits)
      (element (explicitTag 1) (bitStringBytes form) ++ rest) = some (some form, rest) := by
  have hlen : form.length + 1 < lengthLimit :=
    (length_lt_length_element bitStringTag (0 :: form)).trans hlimit
  refine field?_element_self (by decide) (by decide) (by decide) ?_
  exact inside_eq_some_iff.mpr ⟨bitStringBytes form, by decide, hlimit, rfl,
    wholeBits_bitStringBytes hlen⟩

/-- The octets of the curve where it is named. -/
def curveBytes (oid? : Option ObjectId) : Bytes :=
  (oid?.map fun oid => element (explicitTag 0) (objectIdBytes oid)).getD []

/-- The octets of the point where it is given. -/
def formBytes (form? : Option Bytes) : Bytes :=
  (form?.map fun form => element (explicitTag 1) (bitStringBytes form)).getD []

/-- The curve, or that there is none, is read back in front of the point. -/
theorem curve_field?_form {oid? : Option ObjectId} {form? : Option Bytes}
    (hoid : ∀ oid ∈ oid?, (ObjectId.arcs? oid.bytes).isSome = true)
    (hlimit : (curveBytes oid?).length < lengthLimit) :
    field? 0 (inside (explicitTag 0) objectId) (curveBytes oid? ++ formBytes form?) =
      some (oid?, formBytes form?) := by
  cases oid? with
  | none =>
    cases form? with
    | none => rfl
    | some form =>
      have hother : field? 0 (inside (explicitTag 0) objectId)
          (element (explicitTag 1) (bitStringBytes form) ++ []) =
          some (none, element (explicitTag 1) (bitStringBytes form) ++ []) :=
        field?_element_other (by decide) (by decide) (by decide)
      rwa [List.append_nil] at hother
  | some oid =>
    exact curve_field? (hoid oid rfl) ((length_lt_length_element (explicitTag 0) _).trans hlimit)

/-- The point, or that there is none, is read back at the end. -/
theorem form_field? {form? : Option Bytes} (hlimit : (formBytes form?).length < lengthLimit) :
    field? 1 (inside (explicitTag 1) wholeBits) (formBytes form?) = some (form?, []) := by
  cases form? with
  | none => rfl
  | some form =>
    have hread : field? 1 (inside (explicitTag 1) wholeBits)
        (element (explicitTag 1) (bitStringBytes form) ++ []) = some (some form, []) :=
      point_field? ((length_lt_length_element (explicitTag 1) _).trans hlimit)
    rwa [List.append_nil] at hread

/-- The parts of a body. -/
theorem encode_eq (b : Body) :
    b.encode = element sequenceTag (naturalBytes 1 ++ (octetStringBytes b.scalar ++
      (curveBytes b.curve ++ formBytes b.point))) := by
  simp [Body.encode, sequenceBytes_eq, curveBytes, formBytes]

/-- A body is read from its parts.  What stands behind the curve has to be read as the point. -/
theorem readBody_parts {scalar tail : Bytes} {oid? : Option ObjectId} {form? : Option Bytes}
    (hcurve : field? 0 (inside (explicitTag 0) objectId) (curveBytes oid? ++ tail) =
      some (oid?, tail))
    (hform : field? 1 (inside (explicitTag 1) wholeBits) tail = some (form?, []))
    (hlimit : (naturalBytes 1 ++ (octetStringBytes scalar ++ (curveBytes oid? ++ tail))).length <
      lengthLimit) :
    readBody (element sequenceTag
      (naturalBytes 1 ++ (octetStringBytes scalar ++ (curveBytes oid? ++ tail)))) =
      some (⟨scalar, oid?, form?⟩, []) := by
  have hlens := hlimit
  simp only [List.length_append] at hlens
  have hversion := length_lt_length_element integerTag (naturalContent 1)
  have hscalar := length_lt_length_element octetStringTag scalar
  rw [naturalBytes_eq, octetStringBytes] at hlens
  unfold readBody
  rw [sequence_eq_some_iff]
  refine ⟨_, hlimit, (List.append_nil _).symm, ?_⟩
  simp only [Reader.bind_eq_some_iff, naturalBelow_eq_some_iff]
  refine ⟨1, _, ⟨by decide, by omega, rfl⟩, ?_⟩
  rw [if_neg (by decide)]
  simp only [Reader.bind_eq_some_iff, octetString_eq_some_iff]
  exact ⟨scalar, _, ⟨by omega, rfl⟩, oid?, _, hcurve, form?, [], hform,
    Reader.pure_eq_some_iff.mpr ⟨rfl, rfl⟩⟩

/-- A body is read back. -/
theorem readBody_encode {b : Body}
    (hcurve : ∀ oid ∈ b.curve, (ObjectId.arcs? oid.bytes).isSome = true)
    (hlimit : b.encode.length < lengthLimit) : readBody b.encode = some (b, []) := by
  rw [encode_eq] at hlimit ⊢
  have hparts := (length_lt_length_element sequenceTag _).trans hlimit
  have hlens := hparts
  simp only [List.length_append] at hlens
  exact readBody_parts (curve_field?_form hcurve (by omega)) (form_field? (by omega)) hparts

/-! ### Keys -/

/-- The body that is written for a key holds its scalar and its point. -/
theorem body?_eq_some_iff {k : EcKey} {named : Bool} {b : Body} :
    body? k named = some b ↔
      ∃ scalar, k.scalarBytes? = some scalar ∧
        b = ⟨scalar, if named then some k.curve.objectId else none, some k.pointBytes⟩ := by
  unfold body?
  rw [Option.map_eq_some_iff]
  constructor
  · rintro ⟨scalar, hscalar, rfl⟩
    exact ⟨scalar, hscalar, rfl⟩
  · rintro ⟨scalar, hscalar, rfl⟩
    exact ⟨scalar, hscalar, rfl⟩

/-- The curve that is named has an identifier. -/
theorem isSome_arcs?_objectId (c : Curve) :
    (ObjectId.arcs? c.objectId.bytes).isSome = true := by
  cases c <;> cbv

/-- The body that is written for a key is read back, if it is not too long. -/
theorem readDocument?_body? {k : EcKey} {named : Bool} {b : Body} (h : body? k named = some b)
    (hlimit : b.encode.length < lengthLimit) : readDocument? readBody b.encode = some b := by
  obtain ⟨scalar, -, rfl⟩ := body?_eq_some_iff.mp h
  refine readDocument?_eq_some_iff.mpr ⟨hlimit, readBody_encode ?_ hlimit⟩
  intro oid hoid
  cases named with
  | false => cases hoid
  | true =>
    cases hoid
    exact isSome_arcs?_objectId k.curve

/-- A body gives the key of its scalar on a curve, and a point that is given has to be the one of
this key. -/
theorem key?_eq_some_iff {b : Body} {c : Curve} {k : EcKey} :
    b.key? c = some k ↔
      EcKey.ofScalarBytes? c b.scalar = some k ∧ ∀ form ∈ b.point, isFormOf form k = true := by
  rw [Body.key?, Option.filter_eq_some_iff]
  cases b.point <;> simp

/-- A body is read as a key on the curve that it names. -/
theorem decode_eq_ok_iff {bs : Bytes} {k : EcKey} :
    decode bs = .ok k ↔
      ∃ b oid, readDocument? readBody bs = some b ∧ b.curve = some oid ∧
        Curve.ofObjectId? oid = some k.curve ∧ b.key? k.curve = some k := by
  simp only [decode, bind_eq_ok_iff, Result.ofOption_eq_ok_iff]
  constructor
  · rintro ⟨b, hb, oid, hoid, c, hc, hk⟩
    obtain ⟨-, rfl, -⟩ := EcKey.ofScalarBytes?_eq_some_iff.mp (key?_eq_some_iff.mp hk).1
    exact ⟨b, oid, hb, hoid, hc, hk⟩
  · rintro ⟨b, oid, hb, hoid, hc, hk⟩
    exact ⟨b, hb, oid, hoid, k.curve, hc, hk⟩

/-- The body that is written for a key gives this key on its curve. -/
theorem key?_of_body? {k : EcKey} {named : Bool} {b : Body} (h : body? k named = some b) :
    b.key? k.curve = some k := by
  obtain ⟨scalar, hscalar, rfl⟩ := body?_eq_some_iff.mp h
  exact key?_eq_some_iff.mpr
    ⟨EcKey.ofScalarBytes?_of_scalarBytes? hscalar, by simp [isFormOf]⟩

/-- A curve that is named takes few octets. -/
theorem length_curveBytes_le (c : Curve) (named : Bool) :
    (curveBytes (if named then some c.objectId else none)).length ≤ 20 := by
  have hlimit := lengthLimit_eq
  have hoid : c.objectId.bytes.length ≤ 8 := by
    cases c <;> cbv
  have hinner : (objectIdBytes c.objectId).length ≤ 8 + 6 :=
    length_element_le objectIdTag (by omega) hoid
  cases named with
  | false => exact Nat.zero_le 20
  | true => exact length_element_le (explicitTag 0) (by omega) hinner

/-- The body that is written for a key takes few octets. -/
theorem length_encode_le {k : EcKey} {named : Bool} {b : Body} (h : body? k named = some b) :
    b.encode.length ≤ 247 := by
  obtain ⟨scalar, hscalar, rfl⟩ := body?_eq_some_iff.mp h
  obtain ⟨d, -, rfl⟩ := Option.map_eq_some_iff.mp hscalar
  have hlimit := lengthLimit_eq
  have hsize := k.curve.size_le
  have hversion : (naturalBytes 1).length = 3 := by decide
  have hscalar' : (octetStringBytes (BigEndian.fixed k.curve.size d)).length ≤ 66 + 6 :=
    length_element_le octetStringTag (by omega) (by rw [BigEndian.length_fixed]; exact hsize)
  have hcurve := length_curveBytes_le k.curve named
  have hbits : (bitStringBytes k.pointBytes).length ≤ 134 + 6 :=
    length_element_le bitStringTag (by omega) (by
      rw [List.length_cons, EcKey.length_pointBytes]
      omega)
  have hpoint : (formBytes (some k.pointBytes)).length ≤ 134 + 6 + 6 :=
    length_element_le (explicitTag 1) (by omega) hbits
  rw [encode_eq]
  refine length_element_le sequenceTag (by omega : 241 < lengthLimit) ?_
  simp only [List.length_append]
  omega

/-- The body that is written for a key is not too long. -/
theorem length_encode_lt {k : EcKey} {named : Bool} {b : Body} (h : body? k named = some b) :
    b.encode.length < lengthLimit :=
  (length_encode_le h).trans_lt (by rw [lengthLimit_eq]; decide)

/-- A key is read back from the body that names its curve. -/
theorem decode_encode {k : EcKey} {out : Bytes} (h : encode k = .ok out) :
    decode out = .ok k := by
  simp only [encode, bind_eq_ok_iff, Result.ofOption_eq_ok_iff, pure_eq_ok_iff] at h
  obtain ⟨b, hb, rfl⟩ := h
  have hread := readDocument?_body? hb (length_encode_lt hb)
  have hcurve : b.curve = some k.curve.objectId := by
    obtain ⟨scalar, -, rfl⟩ := body?_eq_some_iff.mp hb
    rfl
  exact decode_eq_ok_iff.mpr ⟨b, k.curve.objectId, hread, hcurve,
    AlgorithmId.ofObjectId?_objectId k.curve, key?_of_body? hb⟩

end KeySmith.Der.Sec1

import KeySmith.Der.AlgorithmId
import KeySmith.Proofs.Der.Element

/-!
# Reading algorithm identifiers back

An algorithm is read exactly from its octet form.  The three algorithms of keys can be written, and
the parameters of elliptic curve keys name the curve that they were written for.
-/

namespace KeySmith.Der

variable {bs rest : Bytes}

namespace AlgorithmId

/-- Whether an algorithm can be read back: its identifier is one, and the parameters have a known
tag. -/
def IsValid (a : AlgorithmId) : Prop :=
  (ObjectId.arcs? a.oid.bytes).isSome = true ∧ ∀ e ∈ a.parameters, isTag e.tag = true

/-- The parts of an algorithm. -/
def body (a : AlgorithmId) : Bytes :=
  objectIdBytes a.oid ++ (a.parameters.map Element.encode).getD []

/-- An algorithm is a sequence of its parts. -/
theorem encode_eq (a : AlgorithmId) : a.encode = element sequenceTag a.body := by
  rw [encode, sequenceBytes, body, List.flatten_cons, List.flatten_cons, List.flatten_nil,
    List.append_nil]

/-- Reading any element reads the one that is left, if there is one. -/
theorem anyElement?_eq_some_iff {e? : Option Element} :
    anyElement? bs = some (e?, []) ↔
      (∀ e ∈ e?, isTag e.tag = true ∧ e.content.length < lengthLimit) ∧
        bs = (e?.map Element.encode).getD [] := by
  cases bs with
  | nil =>
    cases e? with
    | none => simp [anyElement?]
    | some e => simp [anyElement?, Element.encode]
  | cons tag bs =>
    rw [anyElement?, Option.map_eq_some_iff]
    cases e? with
    | none => simp
    | some e =>
      simp only [Prod.exists, Element.read_eq_some_iff, Prod.mk.injEq, Option.some.injEq,
        Option.mem_def, forall_eq', Option.map_some, Option.getD_some]
      constructor
      · rintro ⟨_, _, ⟨htag, hlimit, h⟩, rfl, rfl⟩
        exact ⟨⟨htag, hlimit⟩, by rw [h, List.append_nil]⟩
      · rintro ⟨⟨htag, hlimit⟩, h⟩
        exact ⟨e, [], ⟨htag, hlimit, by rw [h, List.append_nil]⟩, rfl, rfl⟩

/-- Reading an algorithm undoes writing a valid one. -/
theorem read_eq_some_iff {a : AlgorithmId} :
    read bs = some (a, rest) ↔
      a.IsValid ∧ a.body.length < lengthLimit ∧ bs = a.encode ++ rest := by
  unfold read
  rw [sequence_eq_some_iff]
  simp only [Reader.bind_eq_some_iff, objectId_eq_some_iff, Reader.pure_eq_some_iff]
  constructor
  · rintro ⟨_, hlimit, rfl, oid, _, ⟨harcs, -, rfl⟩, e?, _, hany, rfl, rfl⟩
    obtain ⟨htag, rfl⟩ := anyElement?_eq_some_iff.mp hany
    exact ⟨⟨harcs, fun e he => (htag e he).1⟩, hlimit, by rw [encode_eq, body]⟩
  · rintro ⟨⟨harcs, htag⟩, hlimit, rfl⟩
    have hparts := hlimit
    rw [body, List.length_append] at hparts
    have hoid := length_lt_length_element objectIdTag a.oid.bytes
    have helement : ∀ e ∈ a.parameters, e.content.length < lengthLimit := by
      intro e he
      have hshort := length_lt_length_element e.tag e.content
      rw [Option.mem_def.mp he, Option.map_some, Option.getD_some] at hparts
      exact hshort.trans (lt_of_le_of_lt (Nat.le_add_left _ _) hparts)
    refine ⟨a.body, hlimit, by rw [encode_eq], a.oid, _, ⟨harcs, ?_, rfl⟩, a.parameters, [], ?_,
      rfl, rfl⟩
    · exact hoid.trans (lt_of_le_of_lt (Nat.le_add_right _ _) hparts)
    · exact anyElement?_eq_some_iff.mpr ⟨fun e he => ⟨htag e he, helement e he⟩, rfl⟩

/-- The algorithm of RSA keys can be read back. -/
theorem isValid_rsa : rsa.IsValid := by
  refine ⟨by cbv, ?_⟩
  rintro e ⟨rfl⟩
  decide

/-- The algorithm of keys on a curve can be read back. -/
theorem isValid_ec (c : Curve) : (ec c).IsValid := by
  refine ⟨?_, ?_⟩
  · change (ObjectId.arcs? ecPublicKey.bytes).isSome = true
    cbv
  · rintro e ⟨rfl⟩
    change isTag objectIdTag = true
    decide

/-- The algorithm of Ed25519 keys can be read back. -/
theorem isValid_ed25519 : IsValid ⟨ed25519, none⟩ := by
  refine ⟨by cbv, ?_⟩
  rintro e ⟨⟩

/-- A curve is found by its identifier. -/
theorem ofObjectId?_objectId (c : Curve) : Curve.ofObjectId? c.objectId = some c := by
  cases c <;> cbv

/-- The curve of the algorithm of keys on a curve is this curve. -/
theorem curve_ec (c : Curve) : (ec c).curve = .ok c := by
  have hoid : ObjectId.ofBytes? c.objectId.bytes = some c.objectId := by
    cases c <;> cbv
  simp only [curve, ec, if_true, hoid, ofObjectId?_objectId]
  rfl

/-- The parameters of the algorithm of RSA keys are right. -/
theorem rsaFault?_rsa : rsa.rsaFault? = none := by
  decide

end AlgorithmId

end KeySmith.Der

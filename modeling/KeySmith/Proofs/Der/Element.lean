import KeySmith.Der.Element
import KeySmith.Proofs.BigEndian

/-!
# Elements of DER

Every value has one octet form, so each reader succeeds exactly on what the writer of the same kind
of value produces, followed by any octets, and leaves those.  The only bound is the one on lengths.
Fields that may be missing are decided by the first octet that is left.
-/

namespace KeySmith.Der

variable {α β : Type} {bs rest : Bytes}

/-! ### Readers -/

namespace Reader

/-- Two readers succeed when the first does and the second does on what is left. -/
theorem bind_eq_some_iff {r : Reader α} {f : α → Reader β} {b : β} :
    (r >>= f) bs = some (b, rest) ↔ ∃ a mid, r bs = some (a, mid) ∧ f a mid = some (b, rest) := by
  change Reader.bind r f bs = some (b, rest) ↔ _
  unfold Reader.bind
  cases hr : r bs with
  | none => simp
  | some p =>
    obtain ⟨a, mid⟩ := p
    simp

/-- A reader that reads nothing leaves everything. -/
theorem pure_eq_some_iff {a b : α} :
    (Pure.pure a : Reader α) bs = some (b, rest) ↔ a = b ∧ bs = rest := by
  change some (a, bs) = some (b, rest) ↔ _
  simp

/-- A reader that fails does not succeed. -/
theorem fail_ne_some {p : α × Bytes} : (fail : Reader α) bs ≠ some p := by
  intro h
  cases h

/-- A value that may be missing is read when it is there. -/
theorem ofOption_eq_some_iff {a? : Option α} {a : α} :
    ofOption a? bs = some (a, rest) ↔ a? = some a ∧ bs = rest := by
  cases a? with
  | none => simp [ofOption]
  | some b => simp [ofOption]

/-- A whole octet string is read when nothing is left of it. -/
theorem run?_eq_some_iff {r : Reader α} {a : α} :
    r.run? bs = some a ↔ r bs = some (a, []) := by
  unfold run?
  split
  · rename_i b hb
    simp [hb]
  · rename_i hother
    constructor
    · intro h
      cases h
    · intro h
      exact absurd h (hother a)

end Reader

/-! ### Lengths -/

theorem lengthLimit_eq : lengthLimit = 2 ^ 28 :=
  twoTo_eq 28

/-- A length from 128 up takes up to four octets. -/
theorem size_length {n : Nat} (h : 128 ≤ n) (hlimit : n < lengthLimit) :
    0 < BigEndian.size n ∧ BigEndian.size n ≤ 4 := by
  constructor
  · refine Nat.pos_of_ne_zero fun hzero => ?_
    have := (BigEndian.size_eq_zero_iff n).mp hzero
    omega
  · rw [BigEndian.size_le_iff]
    rw [lengthLimit_eq] at hlimit
    omega

/-- Reading a length undoes writing it. -/
theorem readLength_eq_some_iff {n : Nat} :
    readLength bs = some (n, rest) ↔ n < lengthLimit ∧ bs = lengthBytes n ++ rest := by
  constructor
  · intro h
    cases bs with
    | nil => cases h
    | cons b bs =>
      simp only [readLength] at h
      split at h
      · rename_i hb
        cases h
        have hlt : b.toNat < 128 := UInt8.lt_iff_toNat_lt.mp hb
        refine ⟨by rw [lengthLimit_eq]; omega, ?_⟩
        rw [lengthBytes, if_pos hlt]
        simp
      · rename_i hb
        have hge : 128 ≤ b.toNat := UInt8.le_iff_toNat_le.mp (UInt8.not_lt.mp hb)
        obtain ⟨⟨-, -, hcount, hn, hsize, hlimit⟩, h⟩ := Option.ite_none_right_eq_some.mp h
        obtain ⟨rfl, rfl⟩ := Prod.mk.inj (Option.some.inj h)
        have hlen : (bs.take (b.toNat - 128)).length = b.toNat - 128 := by
          rw [List.length_take]
          omega
        have htake : BigEndian.fixed (b.toNat - 128) (BigEndian.toNat (bs.take (b.toNat - 128))) =
            bs.take (b.toNat - 128) := by
          have := BigEndian.fixed_toNat (bs.take (b.toNat - 128))
          rwa [hlen] at this
        have hfirst : (128 + (b.toNat - 128)).toUInt8 = b := by
          rw [Nat.add_sub_cancel' hge]
          exact UInt8.ofNat_toNat
        refine ⟨hlimit, ?_⟩
        rw [lengthBytes, if_neg (Nat.not_lt.mpr hn), hsize, htake, hfirst, List.cons_append,
          List.take_append_drop]
  · rintro ⟨hlimit, rfl⟩
    rw [lengthBytes]
    split
    · rename_i hlt
      have hnat : n.toUInt8.toNat = n := UInt8.toNat_ofNat_of_lt (hlt.trans (by decide))
      have hb : n.toUInt8 < 128 := UInt8.lt_iff_toNat_lt.mpr (by rw [hnat]; exact hlt)
      rw [List.cons_append, List.nil_append, readLength, if_pos hb, hnat]
    · rename_i hge
      obtain ⟨hpos, hle⟩ := size_length (Nat.not_lt.mp hge) hlimit
      have hnat : (128 + BigEndian.size n).toUInt8.toNat = 128 + BigEndian.size n :=
        UInt8.toNat_ofNat_of_lt (by change _ < 256; omega)
      have hb : ¬ (128 + BigEndian.size n).toUInt8 < 128 := by
        rw [UInt8.lt_iff_toNat_lt, hnat]
        change ¬ _ < 128
        omega
      have hlen := BigEndian.length_fixed (BigEndian.size n) n
      simp only [List.cons_append, readLength, if_neg hb, hnat, Nat.add_sub_cancel_left,
        List.take_left' hlen, List.drop_left' hlen, BigEndian.toNat_fixed_size]
      refine if_pos ⟨hpos, hle, ?_, Nat.not_lt.mp hge, trivial, hlimit⟩
      rw [List.length_append, hlen]
      exact Nat.le_add_right _ _

/-! ### Elements -/

/-- The content of an element is shorter than the element. -/
theorem length_lt_length_element (tag : UInt8) (body : Bytes) :
    body.length < (element tag body).length := by
  simp only [element, Element.encode, List.length_cons, List.length_append]
  omega

/-- An element has at most six octets around its content, if that is not too long. -/
theorem length_element_le (tag : UInt8) {body : Bytes} {bound : Nat} (hbound : bound < lengthLimit)
    (h : body.length ≤ bound) : (element tag body).length ≤ bound + 6 := by
  have hlength : (lengthBytes body.length).length ≤ 5 := by
    unfold lengthBytes
    split
    · simp
    · rename_i hge
      have hsize := (size_length (Nat.not_lt.mp hge) (lt_of_le_of_lt h hbound)).2
      rw [List.length_cons, BigEndian.length_fixed]
      omega
  simp only [element, Element.encode, List.length_cons, List.length_append]
  omega

namespace Element

/-- Reading an element undoes writing it. -/
theorem read_eq_some_iff {e : Element} :
    read bs = some (e, rest) ↔
      isTag e.tag = true ∧ e.content.length < lengthLimit ∧ bs = e.encode ++ rest := by
  constructor
  · intro h
    cases bs with
    | nil => cases h
    | cons tag bs =>
      rw [read] at h
      split at h
      · rename_i htag
        split at h
        · cases h
        · rename_i n body hlength
          obtain ⟨hle, h⟩ := Option.ite_none_right_eq_some.mp h
          cases h
          obtain ⟨hlimit, rfl⟩ := readLength_eq_some_iff.mp hlength
          have hlen : (body.take n).length = n := by
            rw [List.length_take]
            omega
          refine ⟨htag, by rw [hlen]; exact hlimit, ?_⟩
          rw [encode, hlen, List.cons_append, List.append_assoc, List.take_append_drop]
      · cases h
  · rintro ⟨htag, hlimit, rfl⟩
    have hlength : readLength (lengthBytes e.content.length ++ (e.content ++ rest)) =
        some (e.content.length, e.content ++ rest) :=
      readLength_eq_some_iff.mpr ⟨hlimit, rfl⟩
    have hle : e.content.length ≤ (e.content ++ rest).length := by
      rw [List.length_append]
      exact Nat.le_add_right _ _
    rw [encode, List.cons_append, List.append_assoc, read, if_pos htag, hlength]
    simp only [if_pos hle, List.take_left, List.drop_left]

end Element

/-- Reading the content of an element undoes putting an element around it. -/
theorem content_eq_some_iff {tag : UInt8} {body : Bytes} :
    content tag bs = some (body, rest) ↔
      isTag tag = true ∧ body.length < lengthLimit ∧ bs = element tag body ++ rest := by
  unfold content
  rw [Reader.bind_eq_some_iff]
  simp only [Element.read_eq_some_iff]
  constructor
  · rintro ⟨e, mid, ⟨htag, hlimit, rfl⟩, h⟩
    split at h
    · rename_i heq
      obtain ⟨rfl, rfl⟩ := Reader.pure_eq_some_iff.mp h
      subst heq
      exact ⟨htag, hlimit, rfl⟩
    · exact absurd h Reader.fail_ne_some
  · rintro ⟨htag, hlimit, rfl⟩
    refine ⟨⟨tag, body⟩, rest, ⟨htag, hlimit, rfl⟩, ?_⟩
    rw [if_pos rfl]
    exact Reader.pure_eq_some_iff.mpr ⟨rfl, rfl⟩

/-- Reading inside of an element reads its content to the end. -/
theorem inside_eq_some_iff {tag : UInt8} {r : Reader α} {a : α} :
    inside tag r bs = some (a, rest) ↔
      ∃ body, isTag tag = true ∧ body.length < lengthLimit ∧ bs = element tag body ++ rest ∧
        r body = some (a, []) := by
  unfold inside
  simp only [Reader.bind_eq_some_iff, content_eq_some_iff, Reader.ofOption_eq_some_iff,
    Reader.run?_eq_some_iff]
  constructor
  · rintro ⟨body, _, ⟨htag, hlimit, rfl⟩, hr, rfl⟩
    exact ⟨body, htag, hlimit, rfl, hr⟩
  · rintro ⟨body, htag, hlimit, rfl, hr⟩
    exact ⟨body, rest, ⟨htag, hlimit, rfl⟩, hr, rfl⟩

/-- Reading a sequence reads its parts to the end. -/
theorem sequence_eq_some_iff {r : Reader α} {a : α} :
    sequence r bs = some (a, rest) ↔
      ∃ body, body.length < lengthLimit ∧ bs = element sequenceTag body ++ rest ∧
        r body = some (a, []) := by
  unfold sequence
  rw [inside_eq_some_iff]
  have htag : isTag sequenceTag = true := by decide
  simp only [htag, true_and]

/-- Reading a document reads it to its end. -/
theorem readDocument?_eq_some_iff {r : Reader α} {a : α} :
    readDocument? r bs = some a ↔ bs.length < lengthLimit ∧ r bs = some (a, []) := by
  unfold readDocument?
  rw [Option.ite_none_right_eq_some, Reader.run?_eq_some_iff]

/-- A document is written when it is not too long. -/
theorem document?_eq_some_iff {out : Bytes} :
    document? bs = some out ↔ bs.length < lengthLimit ∧ bs = out := by
  unfold document?
  rw [Option.ite_none_right_eq_some, Option.some.injEq]

/-! ### Values -/

/-- The content of a non-negative integer. -/
def naturalContent (n : Nat) : Bytes :=
  if (BigEndian.minimal n).headD 0 < 128 then BigEndian.minimal n else 0 :: BigEndian.minimal n

/-- A non-negative integer is an element around its content. -/
theorem naturalBytes_eq (n : Nat) : naturalBytes n = element integerTag (naturalContent n) :=
  rfl

/-- A number takes seven octets more than its digits at most. -/
theorem length_naturalBytes_le {n bound : Nat} (hbound : bound + 1 < lengthLimit)
    (h : (BigEndian.minimal n).length ≤ bound) : (naturalBytes n).length ≤ bound + 7 := by
  have hcontent : (naturalContent n).length ≤ bound + 1 := by
    unfold naturalContent
    split
    · omega
    · rw [List.length_cons]
      omega
  exact length_element_le integerTag hbound hcontent

/-- A number is no longer than what is written for it. -/
theorem size_le_length_naturalBytes (n : Nat) : BigEndian.size n ≤ (naturalBytes n).length := by
  have hcontent : BigEndian.size n ≤ (naturalContent n).length := by
    have hlength : BigEndian.size n ≤ (BigEndian.minimal n).length := by
      rw [BigEndian.minimal, BigEndian.length_fixed]
      exact le_max_right 1 _
    unfold naturalContent
    split
    · exact hlength
    · rw [List.length_cons]
      omega
  exact hcontent.trans (length_lt_length_element integerTag _).le

/-- The magnitude of the content of an integer is the number that is written so. -/
theorem magnitude?_eq_some_iff {content : Bytes} {n : Nat} :
    magnitude? content = some n ↔ content = naturalContent n := by
  constructor
  · intro h
    match content, h with
    | [b], h =>
      rw [magnitude?] at h
      obtain ⟨hb, hn⟩ := Option.ite_none_right_eq_some.mp h
      have hnat : BigEndian.toNat [b] = n := by
        rw [← Option.some.inj hn]
        simp [BigEndian.toNat_cons]
      by_cases hzero : b = 0
      · subst hzero
        rw [← hnat]
        decide
      · rw [naturalContent, ← hnat, BigEndian.minimal_toNat_cons hzero, List.headD_cons, if_pos hb]
    | b :: c :: more, h =>
      rw [magnitude?] at h
      split at h
      · cases h
      rename_i hshort
      obtain ⟨hb, hn⟩ := Option.ite_none_right_eq_some.mp h
      obtain rfl := Option.some.inj hn
      by_cases hzero : b = 0
      · subst hzero
        have hc : ¬ c < 128 := fun hc => hshort ⟨rfl, hc⟩
        have hne : c ≠ 0 := by
          rintro rfl
          exact hc (by decide)
        rw [naturalContent, BigEndian.toNat_zero_cons, BigEndian.minimal_toNat_cons hne,
          List.headD_cons, if_neg hc]
      · rw [naturalContent, BigEndian.minimal_toNat_cons hzero, List.headD_cons, if_pos hb]
  · rintro rfl
    by_cases hn : n = 0
    · subst hn
      decide
    obtain ⟨b, more, hb, hmin⟩ := BigEndian.exists_minimal_eq_cons hn
    have hnat : BigEndian.toNat (b :: more) = n := by
      rw [← hmin, BigEndian.toNat_minimal]
    rw [naturalContent, hmin, List.headD_cons]
    split
    · rename_i hlt
      cases more with
      | nil =>
        rw [magnitude?, if_pos hlt, ← hnat]
        simp [BigEndian.toNat_cons]
      | cons c more => rw [magnitude?, if_neg (fun h => hb h.1), if_pos hlt, hnat]
    · rename_i hge
      rw [magnitude?, if_neg (fun h => hge h.2), if_pos (by decide), BigEndian.toNat_zero_cons,
        hnat]

/-- Reading a non-negative integer undoes writing it. -/
theorem natural_eq_some_iff {n : Nat} :
    natural bs = some (n, rest) ↔
      (naturalContent n).length < lengthLimit ∧ bs = naturalBytes n ++ rest := by
  have htag : isTag integerTag = true := by decide
  unfold natural
  simp only [Reader.bind_eq_some_iff, content_eq_some_iff, Reader.ofOption_eq_some_iff,
    magnitude?_eq_some_iff, htag, true_and]
  constructor
  · rintro ⟨_, _, ⟨hlimit, rfl⟩, rfl, rfl⟩
    exact ⟨hlimit, rfl⟩
  · rintro ⟨hlimit, rfl⟩
    exact ⟨naturalContent n, rest, ⟨hlimit, rfl⟩, rfl, rfl⟩

/-- Reading a small non-negative integer undoes writing it. -/
theorem naturalBelow_eq_some_iff {limit n : Nat} :
    naturalBelow limit bs = some (n, rest) ↔
      n < limit ∧ (naturalContent n).length < lengthLimit ∧ bs = naturalBytes n ++ rest := by
  unfold naturalBelow
  simp only [Reader.bind_eq_some_iff, natural_eq_some_iff]
  constructor
  · rintro ⟨m, _, ⟨hlimit, rfl⟩, h⟩
    split at h
    · rename_i hm
      obtain ⟨rfl, rfl⟩ := Reader.pure_eq_some_iff.mp h
      exact ⟨hm, hlimit, rfl⟩
    · exact absurd h Reader.fail_ne_some
  · rintro ⟨hn, hlimit, rfl⟩
    refine ⟨n, rest, ⟨hlimit, rfl⟩, ?_⟩
    rw [if_pos hn]
    exact Reader.pure_eq_some_iff.mpr ⟨rfl, rfl⟩

/-- Reading an octet string undoes writing it. -/
theorem octetString_eq_some_iff {s : Bytes} :
    octetString bs = some (s, rest) ↔
      s.length < lengthLimit ∧ bs = octetStringBytes s ++ rest := by
  have htag : isTag octetStringTag = true := by decide
  unfold octetString
  simp only [content_eq_some_iff, htag, true_and]
  rfl

/-- Reading a bit string undoes writing one of whole octets. -/
theorem bitString_bitStringBytes {s : Bytes} (h : s.length + 1 < lengthLimit) :
    bitString (bitStringBytes s ++ rest) = some (⟨0, s⟩, rest) := by
  have htag : isTag bitStringTag = true := by decide
  unfold bitString
  simp only [Reader.bind_eq_some_iff, content_eq_some_iff, Reader.ofOption_eq_some_iff, htag,
    true_and]
  exact ⟨0 :: s, rest, ⟨h, rfl⟩, by simp [BitString.ofContent?], rfl⟩

/-- An object identifier is given by its octets. -/
theorem ObjectId.ofBytes?_eq_some_iff {o : ObjectId} :
    ObjectId.ofBytes? bs = some o ↔ (ObjectId.arcs? o.bytes).isSome = true ∧ bs = o.bytes := by
  unfold ObjectId.ofBytes?
  rw [Option.map_eq_some_iff]
  constructor
  · rintro ⟨arcs, harcs, rfl⟩
    exact ⟨by rw [harcs, Option.isSome_some], rfl⟩
  · rintro ⟨harcs, rfl⟩
    obtain ⟨arcs, harcs⟩ := Option.isSome_iff_exists.mp harcs
    exact ⟨arcs, harcs, rfl⟩

/-- Reading an object identifier undoes writing a valid one. -/
theorem objectId_eq_some_iff {o : ObjectId} :
    objectId bs = some (o, rest) ↔
      (ObjectId.arcs? o.bytes).isSome = true ∧ o.bytes.length < lengthLimit ∧
        bs = objectIdBytes o ++ rest := by
  have htag : isTag objectIdTag = true := by decide
  unfold objectId
  simp only [Reader.bind_eq_some_iff, content_eq_some_iff, Reader.ofOption_eq_some_iff,
    ObjectId.ofBytes?_eq_some_iff, htag, true_and]
  constructor
  · rintro ⟨_, _, ⟨hlimit, rfl⟩, ⟨harcs, rfl⟩, rfl⟩
    exact ⟨harcs, hlimit, rfl⟩
  · rintro ⟨harcs, hlimit, rfl⟩
    exact ⟨o.bytes, rest, ⟨hlimit, rfl⟩, ⟨harcs, rfl⟩, rfl⟩

/-! ### Optional fields -/

/-- A field with a number that is not lower than the one looked for is not skipped. -/
theorem skipFields_cons {number tag : UInt8} (htag : isTag tag = true)
    (hskip : (isContextTag tag && tag &&& 0x1f < number) = false) (fuel : Nat) :
    skipFields number (fuel + 1) (tag :: bs) = some ((), tag :: bs) := by
  rw [skipFields, hskip, if_neg Bool.false_ne_true, if_pos htag]

/-- A field that is looked for and found is read. -/
theorem field?_element_self {number tag : UInt8} {r : Reader α} {a : α} {body more : Bytes}
    (htag : isTag tag = true) (hskip : (isContextTag tag && tag &&& 0x1f < number) = false)
    (hself : (isContextTag tag && tag &&& 0x1f == number) = true)
    (hread : r (element tag body ++ rest) = some (a, more)) :
    field? number r (element tag body ++ rest) = some (some a, more) := by
  simp only [element, Element.encode, List.cons_append] at hread ⊢
  rw [field?, List.length_cons, skipFields_cons htag hskip]
  simp only [hself, if_true, hread, Option.map_some]

/-- A field is missing where one with a higher number stands. -/
theorem field?_element_other {number tag : UInt8} {r : Reader α} {body : Bytes}
    (htag : isTag tag = true) (hskip : (isContextTag tag && tag &&& 0x1f < number) = false)
    (hself : (isContextTag tag && tag &&& 0x1f == number) = false) :
    field? number r (element tag body ++ rest) = some (none, element tag body ++ rest) := by
  simp only [element, Element.encode, List.cons_append]
  rw [field?, List.length_cons, skipFields_cons htag hskip]
  simp only [hself, Bool.false_eq_true, if_false]

/-- Nothing is skipped where nothing is left. -/
theorem skipFields_nil (number : UInt8) (fuel : Nat) :
    skipFields number fuel [] = some ((), []) := by
  cases fuel <;> rfl

/-- A field is missing where only one with a lower number stands, which is passed over. -/
theorem field?_element_lower {number tag : UInt8} {r : Reader α} {body : Bytes}
    (htag : isTag tag = true) (hskip : (isContextTag tag && tag &&& 0x1f < number) = true)
    (hlimit : body.length < lengthLimit) : field? number r (element tag body) = some (none, []) := by
  have hread : Element.read (element tag body) = some (⟨tag, body⟩, []) :=
    Element.read_eq_some_iff.mpr ⟨htag, hlimit, (List.append_nil _).symm⟩
  simp only [element, Element.encode] at hread ⊢
  rw [field?, List.length_cons, skipFields, hskip, if_pos rfl, hread]
  simp only [skipFields_nil]

/-! ### Sequences -/

/-- A sequence is an element around its parts. -/
theorem sequenceBytes_eq (parts : List Bytes) :
    sequenceBytes parts = element sequenceTag parts.flatten :=
  rfl

/-- A part is no longer than all parts together. -/
theorem length_le_length_flatten {part : Bytes} {parts : List Bytes} (h : part ∈ parts) :
    part.length ≤ parts.flatten.length :=
  (List.sublist_flatten_of_mem h).length_le

/-- A number inside of a sequence that is not too long is not too long itself. -/
theorem length_naturalContent_lt {n : Nat} {parts : List Bytes}
    (hlimit : parts.flatten.length < lengthLimit) (h : naturalBytes n ∈ parts) :
    (naturalContent n).length < lengthLimit := by
  have hcontent := length_lt_length_element integerTag (naturalContent n)
  have hpart := length_le_length_flatten h
  rw [naturalBytes_eq] at hpart
  omega

end KeySmith.Der

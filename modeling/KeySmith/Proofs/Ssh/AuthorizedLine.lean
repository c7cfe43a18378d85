import KeySmith.Proofs.Pem
import KeySmith.Proofs.Ssh.PublicKey
import KeySmith.Ssh.AuthorizedLine

/-!
# Reading authorized key lines back

A line is cut at white space, and neither a type name nor a blob in Base64 has any.  So the first two
parts of a line are the ones that were written, and everything behind them is the comment, whatever
it consists of.  In front of the comment there are no two dashes in a row, which is why a mark that
starts with two of them can only come from the comment (`cut?_head`).
-/

namespace KeySmith.Ssh.AuthorizedLine

/-! ### Parts of a line -/

/-- What a line holds in front of its comment: the type name and the blob in Base64. -/
def head (k : Key) : List Char :=
  (typeName k).toList ++ ' ' :: Base64.encodeChars Base64.standard (publicBlob k)

/-- The type names. -/
theorem typeName_mem (k : Key) :
    typeName k ∈ [rsaName, ed25519Name, curveName .p256, curveName .p384, curveName .p521] := by
  cases k with
  | rsa k => simp [typeName]
  | ed25519 k => simp [typeName]
  | ecdsa k => cases hc : k.curve <;> simp [typeName, hc]

/-- A type name has no white space. -/
theorem isBlank_of_mem_typeName {k : Key} {c : Char} (h : c ∈ (typeName k).toList) :
    Text.isBlank c = false := by
  have hall : [rsaName, ed25519Name, curveName .p256, curveName .p384, curveName .p521].all
      (fun name => name.toList.all fun c => !Text.isBlank c) := by
    decide
  have hname := List.all_eq_true.mp hall (typeName k) (typeName_mem k)
  simpa using List.all_eq_true.mp hname c h

/-- A type name has no two dashes in a row. -/
theorem isChain_typeName (k : Key) :
    (typeName k).toList.IsChain fun c d => ¬ (c = '-' ∧ d = '-') := by
  have hall : ∀ name ∈ [rsaName, ed25519Name, curveName .p256, curveName .p384, curveName .p521],
      name.toList.IsChain fun c d => ¬ (c = '-' ∧ d = '-') := by
    decide
  exact hall (typeName k) (typeName_mem k)

/-- A type name is not empty. -/
theorem toList_typeName_ne_nil (k : Key) : (typeName k).toList ≠ [] := by
  have hall : [rsaName, ed25519Name, curveName .p256, curveName .p384, curveName .p521].all
      (fun name => !name.toList.isEmpty) := by
    decide
  simpa using List.all_eq_true.mp hall (typeName k) (typeName_mem k)

/-- A type name starts as one. -/
theorem startsAsName_typeName (k : Key) (rest : List Char) :
    startsAsName ((typeName k).toList ++ rest) = true := by
  have hall : [rsaName, ed25519Name, curveName .p256, curveName .p384, curveName .p521].all
      (fun name => startsAsName name.toList) := by
    decide
  have hname := List.all_eq_true.mp hall (typeName k) (typeName_mem k)
  obtain ⟨mark, hmark, hprefix⟩ := List.any_eq_true.mp hname
  refine List.any_eq_true.mpr ⟨mark, hmark, ?_⟩
  rw [List.isPrefixOf_iff_prefix] at hprefix ⊢
  exact hprefix.trans (List.prefix_append _ rest)

/-- The blob in Base64 is not empty. -/
theorem encodeChars_publicBlob_ne_nil (k : Key) :
    Base64.encodeChars Base64.standard (publicBlob k) ≠ [] := by
  apply Base64.encodeChars_ne_nil
  intro hnil
  have hlen := congrArg List.length hnil
  rw [publicBlob_eq, List.length_append, textBytes, length_stringBytes, List.length_nil] at hlen
  omega

/-- In front of the comment there are no two dashes in a row, and no dash at the end. -/
theorem isChain_head (k : Key) :
    (head k).IsChain (fun c d => ¬ (c = '-' ∧ d = '-')) ∧ (head k).getLast? ≠ some '-' := by
  have hdash : ∀ c ∈ ' ' :: Base64.encodeChars Base64.standard (publicBlob k), c ≠ '-' := by
    intro c hc
    rcases List.mem_cons.mp hc with rfl | hc
    · decide
    · exact (Pem.isContent_of_mem_encodeChars hc).2.2
  constructor
  · have hrest : (' ' :: Base64.encodeChars Base64.standard (publicBlob k)).IsChain
        fun c d => ¬ (c = '-' ∧ d = '-') := by
      refine List.Pairwise.isChain (List.pairwise_of_forall_mem_list ?_)
      rintro c hc - - ⟨rfl, -⟩
      exact hdash _ hc rfl
    refine (isChain_typeName k).append hrest ?_
    rintro c - d hd ⟨-, rfl⟩
    simp at hd
  · rw [head, List.getLast?_append_of_ne_nil _ (List.cons_ne_nil _ _)]
    intro hlast
    exact hdash '-' (List.mem_of_getLast? hlast) rfl

/-- A mark that starts with two dashes is found behind the blob or not at all. -/
theorem cut?_head (mark : List Char) (k : Key) (behind : List Char) :
    Text.cut? ('-' :: '-' :: mark) (head k ++ behind) =
      (Text.cut? ('-' :: '-' :: mark) behind).map fun p => (head k ++ p.1, p.2) :=
  Text.cut?_append_of_isChain (isChain_head k).1 (isChain_head k).2 behind

/-- The end of a line is the end of the comment, or of the blob when the comment is blank. -/
theorem toList_encode (k : Key) (comment : String) :
    (encode k comment).toList =
      if Text.trimEnd comment.toList = [] then head k
      else head k ++ ' ' :: Text.trimEnd comment.toList := by
  have hblob : Text.trimEnd (Base64.encodeChars Base64.standard (publicBlob k)) =
      Base64.encodeChars Base64.standard (publicBlob k) :=
    Text.trimEnd_of_forall fun c hc => (Pem.isContent_of_mem_encodeChars hc).1
  have hline : (encode k comment).toList = Text.trimEnd (head k ++ ([' '] ++ comment.toList)) := by
    simp [encode, head]
  rw [hline]
  split
  · rename_i hcomment
    have hspace : Text.trimEnd ([' '] ++ comment.toList) = [] :=
      (Text.trimEnd_append_of_eq_nil hcomment).trans (by decide)
    rw [Text.trimEnd_append_of_eq_nil hspace, head, List.append_cons,
      Text.trimEnd_append_of_ne_nil (by rw [hblob]; exact encodeChars_publicBlob_ne_nil k), hblob]
  · rename_i hcomment
    have hspace : Text.trimEnd ([' '] ++ comment.toList) = ' ' :: Text.trimEnd comment.toList :=
      Text.trimEnd_append_of_ne_nil hcomment
    rw [Text.trimEnd_append_of_ne_nil (by rw [hspace]; exact List.cons_ne_nil _ _), hspace]

/-! ### Reading a line back -/

/-- A line starts with the type name. -/
theorem exists_toList_encode (k : Key) (comment : String) :
    ∃ rest, (encode k comment).toList = (typeName k).toList ++ rest := by
  rw [toList_encode, head]
  split
  · exact ⟨_, rfl⟩
  · exact ⟨_, List.append_assoc _ _ _⟩

/-- There is no white space in front of a line. -/
theorem trimStart_encode (k : Key) (comment : String) :
    Text.trimStart (encode k comment).toList = (encode k comment).toList := by
  obtain ⟨rest, hrest⟩ := exists_toList_encode k comment
  obtain ⟨c, more, hchars⟩ := List.exists_cons_of_ne_nil (toList_typeName_ne_nil k)
  have hc : Text.isBlank c = false := isBlank_of_mem_typeName (hchars ▸ List.mem_cons_self)
  rw [hrest, hchars, List.cons_append, Text.trimStart_cons hc]

/-- A line starts as one. -/
theorem isLine_encode (k : Key) (comment : String) :
    isLine (encode k comment).toList = true := by
  obtain ⟨rest, hrest⟩ := exists_toList_encode k comment
  rw [isLine, trimStart_encode, hrest]
  exact startsAsName_typeName k rest

/-- There is no white space around the name and the blob of a line, whatever stands between them. -/
theorem trim_fields (k : Key) (gap rest : List Char) :
    Text.trim ((typeName k).toList ++
        (gap ++ (Base64.encodeChars Base64.standard (publicBlob k) ++ rest))) =
      (typeName k).toList ++
        (gap ++ (Base64.encodeChars Base64.standard (publicBlob k) ++ Text.trimEnd rest)) := by
  obtain ⟨c, more, hname⟩ := List.exists_cons_of_ne_nil (toList_typeName_ne_nil k)
  have hc : Text.isBlank c = false := isBlank_of_mem_typeName (hname ▸ List.mem_cons_self)
  have hblob : Text.trimEnd (Base64.encodeChars Base64.standard (publicBlob k)) =
      Base64.encodeChars Base64.standard (publicBlob k) :=
    Text.trimEnd_of_forall fun c hc => (Pem.isContent_of_mem_encodeChars hc).1
  have hfront (front : List Char) :
      Text.trimEnd (front ++ Base64.encodeChars Base64.standard (publicBlob k)) =
        front ++ Base64.encodeChars Base64.standard (publicBlob k) := by
    rw [Text.trimEnd_append_of_ne_nil (by rw [hblob]; exact encodeChars_publicBlob_ne_nil k), hblob]
  rw [hname, List.cons_append, Text.trim, Text.trimStart_cons hc, ← List.cons_append, ← hname]
  simp only [← List.append_assoc]
  exact Text.trimEnd_append (hfront _) rest

/-- A line with one blank behind the type name holds the key and the comment.  It is read exactly
when the modulus, if there is one, is not too large. -/
theorem decode_fields_eq_ok_iff {k : Key} {b : Char} (hb : Text.isBlank b = true)
    {rest : List Char} (hrest : ∀ c ∈ rest.head?, Text.isBlank c = true) {p : Key × String} :
    decode (String.ofList ((typeName k).toList ++
        b :: (Base64.encodeChars Base64.standard (publicBlob k) ++ rest))) = .ok p ↔
      k.IsReadable ∧ p = (k.toPublic, String.ofList (Text.trim rest)) := by
  have hsymbols : ∀ c ∈ Base64.encodeChars Base64.standard (publicBlob k),
      Text.isBlank c = false := fun c hc => (Pem.isContent_of_mem_encodeChars hc).1
  obtain ⟨behind, hsplit, hcomment⟩ := Text.splitBlank_append_trimEnd hsymbols hrest
  have hname : (typeName k).toList.isEmpty = false :=
    List.isEmpty_eq_false_iff.mpr (toList_typeName_ne_nil k)
  have hblob : Base64.decodeText Base64.standard
      (String.ofList (Base64.encodeChars Base64.standard (publicBlob k))) = .ok (publicBlob k) :=
    Base64.decodeText_encode Base64.standard_isFaithful _
  have htype : typeName k.toPublic = typeName k := by
    cases k <;> rfl
  have hread : decode (String.ofList ((typeName k).toList ++
      b :: (Base64.encodeChars Base64.standard (publicBlob k) ++ rest))) =
      decodeBlob (publicBlob k) >>= fun key =>
        if typeName key ≠ typeName k then throw (.algorithmMismatch (typeName k) (typeName key))
        else pure (key, String.ofList (Text.trim rest)) := by
    have htrim := trim_fields k [b] rest
    simp only [List.singleton_append] at htrim
    simp only [decode, String.toList_ofList, htrim,
      Text.splitBlank_append_cons (fun c => isBlank_of_mem_typeName) hb, hname, hsplit, hcomment,
      hblob, String.ofList_toList, Result.of_ok, ok_bind]
    rfl
  rw [hread, bind_eq_ok_iff]
  constructor
  · rintro ⟨key, hkey, h⟩
    obtain ⟨hreadable, rfl⟩ := decodeBlob_publicBlob_eq_ok_iff.mp hkey
    rw [if_neg (not_not.mpr htype)] at h
    exact ⟨hreadable, (pure_eq_ok_iff.mp h).symm⟩
  · rintro ⟨hreadable, rfl⟩
    refine ⟨k.toPublic, decodeBlob_publicBlob_eq_ok_iff.mpr ⟨hreadable, rfl⟩, ?_⟩
    rw [if_neg (not_not.mpr htype)]
    rfl

/-- A line is read as it is before the white space at its end is taken off. -/
theorem decode_encode_eq (k : Key) (comment : String) :
    decode (encode k comment) = decode (String.ofList ((typeName k).toList ++
      ' ' :: (Base64.encodeChars Base64.standard (publicBlob k) ++ ' ' :: comment.toList))) := by
  simp only [decode, encode, String.toList_ofList, Text.trim_trimEnd]

/-- A line is read as the public half of its key, exactly when the modulus, if there is one, is not
too large. The comment has no part in it. -/
theorem fst_decode_encode_iff (k : Key) (comment : String) :
    Prod.fst <$> decode (encode k comment) = .ok k.toPublic ↔ k.IsReadable := by
  rw [decode_encode_eq, map_eq_ok_iff]
  have hrest : ∀ c ∈ (' ' :: comment.toList).head?, Text.isBlank c = true := by
    rintro c ⟨rfl⟩
    exact Text.isBlank_space
  constructor
  · rintro ⟨p, hp, -⟩
    exact ((decode_fields_eq_ok_iff Text.isBlank_space hrest).mp hp).1
  · intro hreadable
    exact ⟨_, (decode_fields_eq_ok_iff Text.isBlank_space hrest).mpr ⟨hreadable, rfl⟩, rfl⟩

end KeySmith.Ssh.AuthorizedLine

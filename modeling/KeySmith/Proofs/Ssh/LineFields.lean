import KeySmith.Proofs.Ssh.AuthorizedLine

/-!
# The fields of an authorized key line

A line that is written has one space between its fields, and it is read back with its comment, but for
the white space around the comment.  The comment may start with any white space, so behind the blob
the gap may be of any length.  In front of the blob it may not: a line is split behind a single blank,
and with a second one the blob that is found is empty.
-/

namespace KeySmith.Ssh.AuthorizedLine

/-- What stands between two fields of a line: white space, at least one character of it. -/
structure Gap where
  chars : List Char
  ne_nil : chars ≠ []
  isBlank : ∀ c ∈ chars, Text.isBlank c = true

/-- A blank, and more of the same. -/
def Gap.replicate {c : Char} (hc : Text.isBlank c = true) (more : Nat) : Gap where
  chars := List.replicate (more + 1) c
  ne_nil := List.cons_ne_nil c (List.replicate more c)
  isBlank := fun _ hd => List.eq_of_mem_replicate hd ▸ hc

/-- One space. -/
def space : Gap :=
  .replicate Text.isBlank_space 0

/-- One tab. -/
def tab : Gap :=
  .replicate Text.isBlank_tab 0

/-- Two spaces. -/
def twoSpaces : Gap :=
  .replicate Text.isBlank_space 1

/-- The line of a key and a comment with the given gaps between the fields. -/
def spaced (k : Key) (gap gap' : Gap) (comment : String) : String :=
  String.ofList <| (typeName k).toList ++
    (gap.chars ++ (Base64.encodeChars Base64.standard (publicBlob k) ++
      (gap'.chars ++ comment.toList)))

variable {k : Key} {gap gap' : Gap} {comment : String} {p : Key × String}

/-! ### Gaps -/

theorem Gap.head?_isBlank (gap : Gap) (s : List Char) :
    ∀ c ∈ (gap.chars ++ s).head?, Text.isBlank c = true := by
  intro c hc
  rw [List.head?_append_of_ne_nil _ gap.ne_nil] at hc
  exact gap.isBlank c (List.mem_of_mem_head? hc)

/-- Behind a gap of one character the blob is found, and the comment behind any gap. -/
theorem decode_spaced_of_length_eq_one (h : gap.chars.length = 1) :
    decode (spaced k gap gap' comment) = .ok p ↔
      k.IsReadable ∧ p = (k.toPublic, String.ofList (Text.trim comment.toList)) := by
  obtain ⟨b, hgap⟩ := List.length_eq_one_iff.mp h
  have hb : Text.isBlank b = true := gap.isBlank b (by rw [hgap]; exact List.mem_singleton_self b)
  rw [spaced, hgap, List.singleton_append,
    decode_fields_eq_ok_iff hb (gap'.head?_isBlank comment.toList),
    Text.trim_append_of_forall gap'.isBlank]

/-- Behind a longer gap an empty blob is found. -/
theorem decode_spaced_of_one_lt_length (h : 1 < gap.chars.length) :
    decode (spaced k gap gap' comment) = .error (wireError .truncated) := by
  obtain ⟨b, c, more, hgap⟩ : ∃ b c more, gap.chars = b :: c :: more := by
    match hchars : gap.chars, h with
    | b :: c :: more, _ => exact ⟨b, c, more, rfl⟩
  have hb : Text.isBlank b = true := gap.isBlank b (by simp [hgap])
  have hc : Text.isBlank c = true := gap.isBlank c (by simp [hgap])
  have hname : (typeName k).toList.isEmpty = false :=
    List.isEmpty_eq_false_iff.mpr (toList_typeName_ne_nil k)
  have hempty (rest : List Char) : Text.splitBlank (c :: rest) = ([], some rest) :=
    Text.splitBlank_append_cons (s := []) (by simp) hc rest
  rw [spaced, decode, String.toList_ofList, trim_fields, hgap, List.cons_append,
    Text.splitBlank_append_cons (fun c => isBlank_of_mem_typeName) hb]
  simp only [hname, List.cons_append, hempty]
  rfl

/-- A line is read as the one with a space between its fields, whose end may be blank. -/
theorem decode_encode_eq_spaced (k : Key) (comment : String) :
    decode (encode k comment) = decode (spaced k space space comment) :=
  decode_encode_eq k comment

/-! ### Reading lines -/

/-- The line of a key and a comment is read as the public half of the key and the comment without the
white space around it, and only when the modulus, if there is one, has at most 4096 bits. -/
theorem decode_encode_eq_ok_iff (k : Key) (comment : String) (p : Key × String) :
    decode (encode k comment) = .ok p ↔
      k.IsReadable ∧ p = (k.toPublic, String.ofList (Text.trim comment.toList)) := by
  rw [decode_encode_eq_spaced, decode_spaced_of_length_eq_one rfl]

/-- The line of a key with a modulus of 4098 bits is not read. -/
theorem decode_encode_large_ne :
    decode (encode (.rsa .large) "rt") ≠ .ok (.rsa RsaKey.large.toPublic, "rt") := by
  rw [decode_encode_eq_spaced, Ne, decode_spaced_of_length_eq_one rfl]
  rintro ⟨hreadable, -⟩
  exact Key.not_isReadable_large hreadable

/-- A line is read with any gap in front of the comment.  In front of the blob it is read with a gap
of one character, and with a longer one the blob that is found is empty. -/
theorem decode_spaced (k : Key) (gap gap' : Gap) (comment : String) :
    (gap.chars.length = 1 → ∀ p, decode (spaced k gap gap' comment) = .ok p ↔
      k.IsReadable ∧ p = (k.toPublic, String.ofList (Text.trim comment.toList))) ∧
    (1 < gap.chars.length →
      decode (spaced k gap gap' comment) = .error (wireError .truncated)) :=
  ⟨fun h _ => decode_spaced_of_length_eq_one h, decode_spaced_of_one_lt_length⟩

/-- The key with the modulus 15 is read with two spaces in front of the comment, not with two spaces
in front of the blob. -/
theorem decode_spaced_fifteen :
    decode (spaced (.rsa .fifteen) tab twoSpaces "me ") = .ok (.rsa RsaKey.fifteen.toPublic, "me") ∧
      decode (spaced (.rsa .fifteen) twoSpaces tab "me ") = .error (wireError .truncated) := by
  constructor
  · refine ((decode_spaced (.rsa .fifteen) tab twoSpaces "me ").1 rfl _).mpr ?_
    exact ⟨Key.isReadable_fifteen, by decide⟩
  · exact (decode_spaced (.rsa .fifteen) twoSpaces tab "me ").2 (by decide)

/-- With two spaces behind its type name a line is refused. -/
theorem decode_spaced_twoSpaces_ne :
    decode (spaced (.rsa .fifteen) twoSpaces tab "me") ≠
      .ok (.rsa RsaKey.fifteen.toPublic, "me") := by
  rw [decode_spaced_of_one_lt_length (by decide)]
  rintro ⟨⟩

end KeySmith.Ssh.AuthorizedLine

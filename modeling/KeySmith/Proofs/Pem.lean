import KeySmith.Proofs.Pem.Layout

/-!
# Reading armored blocks back

The marks of a block are found where they stand, since no character of a label or of a body is a
dash.  Lines are joined again whatever their lengths, since the characters of a body are neither
white space nor colons: what reading sees is the body without its line feeds (`joinLines_lines`).
-/

namespace KeySmith.Pem

/-! ### Bodies -/

/-- The lines of a body are joined to the body without its line feeds. -/
theorem joinLines_lines {body : List Char} (h : ∀ c ∈ body, c = '\n' ∨ IsContent c) :
    joinLines (Text.lines body) = .ok (body.filter (· ≠ '\n')) := by
  have htrim : ∀ line : List Char, (∀ c ∈ line, IsContent c) → Text.trim line = line :=
    fun line hline => Text.trim_of_forall fun c hc => (hline c hc).1
  have hfilter : ∀ line : List Char, '\n' ∉ line → line.filter (· ≠ '\n') = line := by
    intro line hline
    refine List.filter_eq_self.mpr fun c hc => ?_
    simpa using ne_of_mem_of_not_mem hc hline
  induction body using Text.line_induction with
  | last line hline =>
    have hcontent : ∀ c ∈ line, IsContent c := fun c hc =>
      (h c hc).resolve_left (ne_of_mem_of_not_mem hc hline)
    rw [joinLines_lines_of_not_mem hline, htrim line hcontent, hfilter line hline]
    exact ⟨colon_not_mem hcontent, rfl⟩
  | more line rest hline ih =>
    obtain ⟨hfront, hbehind⟩ := List.forall_mem_append.mp h
    have hcontent : ∀ c ∈ line, IsContent c := fun c hc =>
      (hfront c hc).resolve_left (ne_of_mem_of_not_mem hc hline)
    rw [joinLines_lines_append_cons hline, htrim line hcontent, List.filter_append,
      List.filter_cons_of_neg (by simp), hfilter line hline]
    exact ⟨colon_not_mem hcontent, _, ih fun c hc => hbehind c (List.mem_cons_of_mem _ hc), rfl⟩

/-! ### Wrapping -/

/-- Wrapping adds line feeds only. -/
theorem mem_wrap {width left : Nat} {cs : List Char} {c : Char} (h : c ∈ wrap width left cs) :
    c = '\n' ∨ c ∈ cs := by
  induction cs generalizing left with
  | nil =>
    rw [wrap] at h
    split at h
    · cases h
    · exact Or.inl (List.mem_singleton.mp h)
  | cons d cs ih =>
    cases left with
    | zero =>
      rw [wrap] at h
      rcases List.mem_cons.mp h with rfl | h
      · exact Or.inl rfl
      · rcases List.mem_cons.mp h with rfl | h
        · exact Or.inr List.mem_cons_self
        · exact (ih h).imp id (List.mem_cons_of_mem d)
    | succ left =>
      rw [wrap] at h
      rcases List.mem_cons.mp h with rfl | h
      · exact Or.inr List.mem_cons_self
      · exact (ih h).imp id (List.mem_cons_of_mem d)

/-- The line feeds that wrapping adds are all that it adds. -/
theorem filter_wrap {width left : Nat} {cs : List Char} (h : ∀ c ∈ cs, c ≠ '\n') :
    (wrap width left cs).filter (· ≠ '\n') = cs := by
  induction cs generalizing left with
  | nil =>
    rw [wrap]
    split
    · rfl
    · rfl
  | cons d cs ih =>
    have hd : d ≠ '\n' := h d List.mem_cons_self
    have hcs : ∀ c ∈ cs, c ≠ '\n' := fun c hc => h c (List.mem_cons_of_mem d hc)
    cases left with
    | zero =>
      rw [wrap, List.filter_cons_of_neg (by simp), List.filter_cons_of_pos (by simpa using hd),
        ih hcs]
    | succ left =>
      rw [wrap, List.filter_cons_of_pos (by simpa using hd), ih hcs]

/-! ### Headers -/

/-- A header starts with two dashes. -/
theorem beginMark_eq : beginMark = '-' :: '-' :: "---BEGIN ".toList := by
  decide

/-- A header is made of characters of one octet. -/
theorem lt_128_of_mem_beginMark {c : Char} (h : c ∈ beginMark) : c.toNat < 128 := by
  have hall : beginMark.all fun d => decide (d.toNat < 128) := by decide
  simpa using List.all_eq_true.mp hall c h

/-- An octet from 128 on starts no header. -/
theorem startsWith_cons_of_le {b : UInt8} (h : 128 ≤ b) (rest : Bytes) :
    startsWith beginMark (b :: rest) = false := by
  have hdash : Text.asciiByte '-' ≠ b := by
    rintro rfl
    exact absurd h (by decide)
  rw [startsWith, beginMark_eq, List.map_cons, List.isPrefixOf]
  exact Bool.and_eq_false_iff.mpr (Or.inl (beq_false_of_ne hdash))

/-- No header starts within octets from 128 on. -/
theorem occurs_append_of_forall_le {bs rest : Bytes} (h : ∀ b ∈ bs, 128 ≤ b) :
    occurs (bs ++ rest) = occurs rest := by
  induction bs with
  | nil => rfl
  | cons b bs ih =>
    rw [List.cons_append, occurs, startsWith_cons_of_le (h b List.mem_cons_self), Bool.false_or,
      ih fun d hd => h d (List.mem_cons_of_mem b hd)]

/-- A header occurs in the octets of characters exactly when it occurs in the characters. -/
theorem occurs_flatMap_utf8EncodeChar (cs : List Char) :
    occurs (cs.flatMap String.utf8EncodeChar) = Text.contains beginMark cs := by
  induction cs with
  | nil => rfl
  | cons c cs ih =>
    have hprefix : startsWith beginMark ((c :: cs).flatMap String.utf8EncodeChar) =
        beginMark.isPrefixOf (c :: cs) :=
      Text.isPrefixOf_flatMap_utf8EncodeChar (fun _ => lt_128_of_mem_beginMark) (c :: cs)
    rw [Text.contains_cons, ← ih, ← hprefix, List.flatMap_cons]
    by_cases hc : c.toNat < 128
    · rw [Text.utf8EncodeChar_of_lt hc, List.singleton_append, occurs]
    · have hlarge : ∀ b ∈ String.utf8EncodeChar c, 128 ≤ b :=
        fun b hb => Text.le_of_mem_utf8EncodeChar (Nat.not_lt.mp hc) hb
      obtain ⟨b, bs, hbytes⟩ := List.exists_cons_of_ne_nil (String.utf8EncodeChar_ne_nil (c := c))
      rw [occurs_append_of_forall_le hlarge, hbytes, List.cons_append,
        startsWith_cons_of_le (hlarge b (hbytes ▸ List.mem_cons_self)), Bool.false_or]

/-- A header occurs in the octets of a text exactly when it occurs in the text. -/
theorem occurs_toBytes (s : String) :
    occurs (Text.toBytes s) = Text.contains beginMark s.toList := by
  rw [← occurs_flatMap_utf8EncodeChar, ← Text.toBytes_ofList, String.ofList_toList]

/-- Nothing in front of the first header matters. -/
theorem decodeText_congr {s t : List Char}
    (h : (Text.cut? beginMark s).map Prod.snd = (Text.cut? beginMark t).map Prod.snd) :
    decodeText s = decodeText t := by
  unfold decodeText
  cases hs : Text.cut? beginMark s with
  | none =>
    cases ht : Text.cut? beginMark t with
    | none => rfl
    | some p => simp [hs, ht] at h
  | some p =>
    cases ht : Text.cut? beginMark t with
    | none => simp [hs, ht] at h
    | some q =>
      obtain ⟨before, after⟩ := p
      obtain ⟨before', after'⟩ := q
      obtain rfl : after = after' := by simpa [hs, ht] using h
      rfl

/-! ### Blocks -/

/-- Whether a text is a simple label, as all labels of keys are: it is not empty, and stands on one
line without dashes. -/
def IsLabel (label : String) : Prop :=
  label.toList ≠ [] ∧ ∀ c ∈ label.toList, c ≠ '-' ∧ c ≠ '\n' ∧ c ≠ '\r'

instance (label : String) : Decidable (IsLabel label) :=
  @instDecidableAnd _ _ _ (List.decidableBAll _ _)

/-- The lines between the header and the footer of a block, with the line feed of the header. -/
def Block.body (b : Block) : List Char :=
  '\n' :: wrap lineWidth lineWidth (Base64.encodeChars Base64.standard b.contents)

/-- The characters of a body are line feeds and those of the contents. -/
theorem isContent_of_mem_body {b : Block} {c : Char} (h : c ∈ b.body) :
    c = '\n' ∨ IsContent c := by
  rcases List.mem_cons.mp h with hc | hc
  · exact Or.inl hc
  · exact (mem_wrap hc).imp id isContent_of_mem_encodeChars

/-- The lines of a body are joined to the contents in Base64. -/
theorem joinLines_body (b : Block) :
    joinLines (Text.lines b.body) = .ok (Base64.encodeChars Base64.standard b.contents) := by
  have hfeed : ∀ c ∈ Base64.encodeChars Base64.standard b.contents, c ≠ '\n' := by
    rintro c hc rfl
    exact absurd (isContent_of_mem_encodeChars hc).1 (by decide)
  rw [joinLines_lines fun _ => isContent_of_mem_body, Block.body,
    List.filter_cons_of_neg (by simp), filter_wrap hfeed]

/-- The characters of a block up to the end of its footer. -/
def Block.frame (b : Block) : List Char :=
  beginMark ++ (b.label.toList ++ (dashes ++ (b.body ++ (endMark ++ b.label.toList ++ dashes))))

/-- A block consists of its header, its body and its footer, and ends its line. -/
theorem Block.chars_eq (b : Block) : b.chars = b.frame ++ ['\n'] := by
  simp only [Block.chars, Block.frame, Block.body, List.append_assoc, List.cons_append]

/-- The body of a block is a layout of its contents. -/
theorem exists_layout_frame (b : Block) :
    ∃ layout : Layout, layout.symbols = Base64.encodeChars Base64.standard b.contents ∧
      b.frame = (layout.armor b.label).toList := by
  obtain ⟨layout, htext, hsymbols⟩ := exists_layout (joinLines_body b)
  refine ⟨layout, hsymbols, ?_⟩
  rw [Layout.armor, String.toList_ofList, htext, Block.frame]

/-- A block is read back from its characters, whatever stands behind them, exactly when its label can
be told from its header. -/
theorem decodeText_frame_append_iff (b : Block) (behind : List Char) :
    decodeText (b.frame ++ behind) = .ok b ↔ IsHeaderLabel b.label := by
  constructor
  · intro h
    exact (decodeText_eq_ok_iff_layout.mp h).1
  · intro hlabel
    obtain ⟨layout, hsymbols, hframe⟩ := exists_layout_frame b
    refine decodeText_eq_ok_iff_layout.mpr
      ⟨hlabel, [], layout, behind, by decide, hsymbols, ?_⟩
    rw [hframe, List.nil_append]

/-- A simple label can be told from its header. -/
theorem IsLabel.isHeaderLabel {label : String} (h : IsLabel label) : IsHeaderLabel label where
  ne_empty := mt String.toList_eq_nil_iff.mpr h.1
  no_feed := fun hmem => (h.2 _ hmem).2.1 rfl
  no_return := fun hmem => (h.2 _ hmem).2.2 rfl
  no_dashes := fun hfound => (h.2 '-' (hfound.subset (by decide))).1 rfl
  no_dash_end := fun hlast => (h.2 '-' (List.mem_of_getLast? hlast)).1 rfl

/-- A block with a simple label is read back from its characters, whatever stands behind them. -/
theorem decodeText_frame_append {b : Block} (hlabel : IsLabel b.label) (behind : List Char) :
    decodeText (b.frame ++ behind) = .ok b :=
  (decodeText_frame_append_iff b behind).mpr hlabel.isHeaderLabel

/-- A block is read back from the octets of its text exactly when its label can be told from its
header. -/
theorem decode_encode_iff (b : Block) :
    decode (Text.toBytes b.encode) = .ok b ↔ IsHeaderLabel b.label := by
  rw [decode, Text.ofBytes?_toBytes]
  simp only [Block.encode, String.toList_ofList, Block.chars_eq]
  exact decodeText_frame_append_iff b ['\n']

/-- A block with a simple label is read back from the octets of its text. -/
theorem decode_encode {b : Block} (hlabel : IsLabel b.label) :
    decode (Text.toBytes b.encode) = .ok b :=
  (decode_encode_iff b).mpr hlabel.isHeaderLabel

/-- A label that has been read can be told from its header. -/
theorem isHeaderLabel_of_decode {file : Bytes} {b : Block} (h : decode file = .ok b) :
    IsHeaderLabel b.label := by
  obtain ⟨text, -, htext⟩ := decode_eq_ok_iff.mp h
  exact (decodeText_eq_ok_iff_layout.mp htext).1

/-- A header occurs in a file that has been read. -/
theorem occurs_of_decode {file : Bytes} {b : Block} (h : decode file = .ok b) :
    occurs file = true := by
  obtain ⟨text, rfl, htext⟩ := decode_eq_ok_iff.mp h
  obtain ⟨_, _, _, _, _, hmark, -⟩ := decodeText_eq_ok_iff_cut.mp htext
  rw [occurs_toBytes, Text.contains, hmark]
  rfl

/-- Writing and reading are inverse to each other on the labels that can be told from their header,
whatever the contents are, and no other label is read back.  Only such labels are ever read, so a
block that has been read from any file is written and read back. -/
theorem decode_encode_label (label : String) (contents file : Bytes) (b : Block) :
    (decode (Text.toBytes (Block.encode ⟨label, contents⟩)) = .ok ⟨label, contents⟩ ↔
        IsHeaderLabel label) ∧
      (decode file = .ok b →
        IsHeaderLabel b.label ∧ decode (Text.toBytes b.encode) = .ok b) := by
  refine ⟨decode_encode_iff ⟨label, contents⟩, ?_⟩
  intro h
  have hlabel := isHeaderLabel_of_decode h
  exact ⟨hlabel, (decode_encode_iff b).mpr hlabel⟩

/-- A label with dashes in it, read from a block between other texts whose lines are indented. -/
theorem decode_encode_label_dashes :
    decode (Text.toBytes "key:\r\n-----BEGIN A--B-----\r\n aGVs\r\n\tbG8= \n-----END A--B-----END") =
        .ok ⟨"A--B", [104, 101, 108, 108, 111]⟩ ∧
      IsHeaderLabel "A--B" ∧
      decode (Text.toBytes (Block.encode ⟨"A--B", [104, 101, 108, 108, 111]⟩)) =
        .ok ⟨"A--B", [104, 101, 108, 108, 111]⟩ := by
  have hread : decode (Text.toBytes
      "key:\r\n-----BEGIN A--B-----\r\n aGVs\r\n\tbG8= \n-----END A--B-----END") =
        .ok ⟨"A--B", [104, 101, 108, 108, 111]⟩ :=
    decode_eq_ok_iff.mpr ⟨_, rfl, rfl⟩
  exact ⟨hread, (decode_encode_label "A--B" [104, 101, 108, 108, 111] _ _).2 hread⟩

/-- A header occurs in the characters of a block. -/
theorem contains_frame (b : Block) : Text.contains beginMark b.frame = true := by
  rw [Text.contains, Block.frame, Text.cut?_append]
  rfl

/-- Trimming the text of a block takes off the line feed behind its footer. -/
theorem trimEnd_encode (b : Block) : Text.trimEnd b.encode.toList = b.frame := by
  have hdashes : Text.trimEnd dashes = dashes := by decide
  have hfeed : Text.trimEnd ['\n'] = [] := by decide
  have hframe : b.frame = (beginMark ++ (b.label.toList ++ (dashes ++
      (b.body ++ (endMark ++ b.label.toList))))) ++ dashes := by
    simp only [Block.frame, List.append_assoc]
  rw [Block.encode, String.toList_ofList, Block.chars_eq, Text.trimEnd_append_of_eq_nil hfeed,
    hframe, Text.trimEnd_append_of_ne_nil (by rw [hdashes]; decide), hdashes]

/-- A header occurs in the octets of the text of a block. -/
theorem occurs_encode (b : Block) : occurs (Text.toBytes b.encode) = true := by
  have hmark : beginMark.flatMap String.utf8EncodeChar = beginMark.map Text.asciiByte := by
    decide
  have hstart : startsWith beginMark (Text.toBytes b.encode) = true := by
    rw [Block.encode, Text.toBytes_ofList, Block.chars_eq, Block.frame, List.append_assoc,
      List.flatMap_append, hmark]
    exact List.isPrefixOf_iff_prefix.mpr ⟨_, rfl⟩
  cases hbytes : Text.toBytes b.encode with
  | nil =>
    rw [hbytes] at hstart
    exact absurd hstart (by decide)
  | cons first rest =>
    rw [hbytes] at hstart
    rw [occurs, hstart, Bool.true_or]

end KeySmith.Pem

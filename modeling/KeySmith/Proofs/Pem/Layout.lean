import KeySmith.Pem
import KeySmith.Proofs.Base64.Canonical
import KeySmith.Proofs.Outcome
import KeySmith.Proofs.Text

/-!
# Which texts are read as a block

The contents of a block may be cut into lines at will, with white space around each of them: a
`Layout` is one way to do so.  The first block of a text is found by three searches, for the mark of
the header, for the dashes that end it and for the footer, each of which takes the first occurrence.
No search can be led astray: the mark of the header ends in a space, which it holds nowhere else, the
dashes do not reach into a label that does not end in a dash, and no character of a body is a dash.
So a file is read as a block exactly when it consists of any text without the mark of a header, the
header, a layout of the contents, the footer and any text (`decode_eq_ok_iff_layout`).
-/

namespace KeySmith.Pem

/-! ### Characters of a body -/

/-- Whether a character may stand in the body of a block. -/
def IsContent (c : Char) : Prop :=
  Text.isBlank c = false ∧ c ≠ ':' ∧ c ≠ '-'

instance (c : Char) : Decidable (IsContent c) :=
  inferInstanceAs (Decidable (_ ∧ _ ∧ _))

/-- The symbols of armored keys may stand in a body. -/
theorem isContent_of_mem_encodeChars {bs : Bytes} {c : Char}
    (h : c ∈ Base64.encodeChars Base64.standard bs) : IsContent c := by
  have hsymbols : ∀ n : Fin 64,
      IsContent (Char.ofNat (Base64.symbol Base64.standard (UInt8.ofNat n)).toNat) := by
    decide
  obtain ⟨b, hb, rfl⟩ := List.mem_map.mp h
  rcases Base64.mem_encodeBytes hb with rfl | ⟨n, hn, rfl⟩
  · decide
  · have hn' := hsymbols ⟨n.toNat, UInt8.lt_iff_toNat_lt.mp hn⟩
    simpa only [UInt8.ofNat_toNat] using hn'

/-! ### Layouts -/

/-- White space within a line. -/
structure Space where
  chars : List Char
  isBlank : ∀ c ∈ chars, Text.isBlank c = true
  no_feed : '\n' ∉ chars

/-- A line of a body: a piece of the contents, which may be empty, between white space. -/
structure Line where
  indent : Space
  piece : List Char
  trail : Space

/-- The characters of a line. -/
def Line.chars (l : Line) : List Char :=
  l.indent.chars ++ (l.piece ++ l.trail.chars)

/-- What ends a line. -/
inductive LineEnd where
  | feed
  | returnFeed
deriving DecidableEq

/-- The characters in front of the line feed that ends a line. -/
def LineEnd.beforeFeed : LineEnd → List Char
  | feed => []
  | returnFeed => ['\r']

/-- The lines between the dashes of a header and the footer.  The first line is what is left of the
line of the header, and the last one is what stands in front of the footer. -/
inductive Layout where
  | last (line : Line)
  | more (line : Line) (ending : LineEnd) (rest : Layout)

namespace Layout

/-- The characters of a layout. -/
def text : Layout → List Char
  | last line => line.chars
  | more line ending rest => line.chars ++ (ending.beforeFeed ++ '\n' :: rest.text)

/-- The contents that are laid out. -/
def symbols : Layout → List Char
  | last line => line.piece
  | more line _ rest => line.piece ++ rest.symbols

/-- The block with a label and a layout of its contents. -/
def armor (layout : Layout) (label : String) : String :=
  String.ofList (beginMark ++ (label.toList ++ (dashes ++
    (layout.text ++ (endMark ++ label.toList ++ dashes)))))

end Layout

variable {layout : Layout} {c : Char}

/-- What ends a line is white space. -/
theorem LineEnd.isBlank_of_mem {ending : LineEnd} (h : c ∈ ending.beforeFeed) :
    Text.isBlank c = true ∧ c ≠ '\n' := by
  cases ending with
  | feed => cases h
  | returnFeed =>
    obtain rfl := List.mem_singleton.mp h
    decide

/-- A character of a line is white space or belongs to the piece. -/
theorem Line.isBlank_or_mem {l : Line} (h : c ∈ l.chars) :
    Text.isBlank c = true ∨ c ∈ l.piece := by
  rcases List.mem_append.mp h with h | h
  · exact .inl (l.indent.isBlank c h)
  · rcases List.mem_append.mp h with h | h
    · exact .inr h
    · exact .inl (l.trail.isBlank c h)

/-- A character of a layout is white space or belongs to the contents. -/
theorem Layout.isBlank_or_mem (h : c ∈ layout.text) :
    Text.isBlank c = true ∨ c ∈ layout.symbols := by
  induction layout with
  | last line => exact Line.isBlank_or_mem h
  | more line ending rest ih =>
    rcases List.mem_append.mp h with h | h
    · exact (Line.isBlank_or_mem h).imp_right (List.mem_append_left rest.symbols)
    · rcases List.mem_append.mp h with h | h
      · exact .inl (LineEnd.isBlank_of_mem h).1
      · rcases List.mem_cons.mp h with rfl | h
        · exact .inl (by decide)
        · exact (ih h).imp_right (List.mem_append_right line.piece)

/-- A layout of contents has no dash. -/
theorem Layout.ne_dash (hcontent : ∀ d ∈ layout.symbols, IsContent d) (h : c ∈ layout.text) :
    c ≠ '-' := by
  rcases layout.isBlank_or_mem h with hblank | hsymbol
  · rintro rfl
    exact absurd hblank (by decide)
  · exact (hcontent c hsymbol).2.2

/-! ### Joining lines -/

/-- A line is joined to the others without the white space around it. -/
theorem joinLines_cons_eq_ok_iff {line : List Char} {more : List (List Char)}
    {symbols : List Char} :
    joinLines (line :: more) = .ok symbols ↔
      ':' ∉ Text.trim line ∧ ∃ rest, joinLines more = .ok rest ∧ symbols = Text.trim line ++ rest := by
  rw [joinLines]
  by_cases hempty : (Text.trim line).isEmpty = true
  · rw [if_pos hempty, List.isEmpty_iff.mp hempty]
    simp
  · by_cases hcolon : (Text.trim line).contains ':' = true
    · rw [if_neg hempty, if_pos hcolon]
      simpa using fun hnot => absurd (List.contains_iff_mem.mp hcolon) hnot
    · rw [if_neg hempty, if_neg hcolon]
      simp only [bind_eq_ok_iff, pure_eq_ok_iff]
      rw [and_iff_right (mt List.contains_iff_mem.mpr hcolon)]
      exact exists_congr fun rest => and_congr_right fun _ => eq_comm

/-- The first line of a text is joined to the others without the white space around it. -/
theorem joinLines_lines_append_cons {line rest symbols : List Char} (hline : '\n' ∉ line) :
    joinLines (Text.lines (line ++ '\n' :: rest)) = .ok symbols ↔
      ':' ∉ Text.trim line ∧ ∃ more, joinLines (Text.lines rest) = .ok more ∧
        symbols = Text.trim line ++ more := by
  rw [Text.lines_append_cons hline, joinLines_cons_eq_ok_iff]

/-- The last line of a text, which may be empty, is joined without the white space around it. -/
theorem joinLines_lines_of_not_mem {line symbols : List Char} (hline : '\n' ∉ line) :
    joinLines (Text.lines line) = .ok symbols ↔
      ':' ∉ Text.trim line ∧ symbols = Text.trim line := by
  obtain rfl | hne := eq_or_ne line []
  · change Except.ok [] = Except.ok symbols ↔ ':' ∉ [] ∧ symbols = []
    simp [eq_comm]
  · rw [(Text.lines_eq_singleton_iff hne).mpr hline, joinLines_cons_eq_ok_iff]
    change _ ∧ (∃ rest, Except.ok [] = Except.ok rest ∧ _) ↔ _
    simp

/-- The piece of a line is what is left when the line is trimmed, with or without a carriage
return. -/
theorem Line.trim_chars_append {l : Line} (hcontent : ∀ d ∈ l.piece, IsContent d)
    (ending : LineEnd) : Text.trim (l.chars ++ ending.beforeFeed) = l.piece := by
  rw [Line.chars, List.append_assoc, List.append_assoc]
  refine Text.trim_append_append l.indent.isBlank (fun d hd => (hcontent d hd).1) ?_
  intro d hd
  rcases List.mem_append.mp hd with hd | hd
  · exact l.trail.isBlank d hd
  · exact (LineEnd.isBlank_of_mem hd).1

/-- There is no line feed in a line with a piece of contents. -/
theorem Line.feed_not_mem {l : Line} (hcontent : ∀ d ∈ l.piece, IsContent d) :
    '\n' ∉ l.chars := by
  intro h
  rcases List.mem_append.mp h with h | h
  · exact l.indent.no_feed h
  · rcases List.mem_append.mp h with h | h
    · exact absurd (hcontent '\n' h).1 (by decide)
    · exact l.trail.no_feed h

/-- No colon is a character of contents. -/
theorem colon_not_mem {piece : List Char} (hcontent : ∀ d ∈ piece, IsContent d) : ':' ∉ piece :=
  fun h => (hcontent ':' h).2.1 rfl

/-- Joining the lines of a layout gives the contents. -/
theorem joinLines_text (hcontent : ∀ d ∈ layout.symbols, IsContent d) :
    joinLines (Text.lines layout.text) = .ok layout.symbols := by
  induction layout with
  | last line =>
    have htrim := Line.trim_chars_append hcontent .feed
    rw [LineEnd.beforeFeed, List.append_nil] at htrim
    rw [Layout.text, joinLines_lines_of_not_mem (Line.feed_not_mem hcontent), htrim]
    exact ⟨colon_not_mem hcontent, rfl⟩
  | more line ending rest ih =>
    obtain ⟨hpiece, hrest⟩ := List.forall_mem_append.mp hcontent
    have hfeed : '\n' ∉ line.chars ++ ending.beforeFeed := by
      intro h
      rcases List.mem_append.mp h with h | h
      · exact Line.feed_not_mem hpiece h
      · exact (LineEnd.isBlank_of_mem h).2 rfl
    rw [Layout.text, ← List.append_assoc, joinLines_lines_append_cons hfeed,
      Line.trim_chars_append hpiece]
    exact ⟨colon_not_mem hpiece, rest.symbols, ih hrest, rfl⟩

/-- Every line without a line feed is a piece between white space. -/
theorem exists_line {s : List Char} (hs : '\n' ∉ s) :
    ∃ l : Line, l.chars = s ∧ l.piece = Text.trim s := by
  obtain ⟨front, back, heq, hfront, hback⟩ := Text.exists_eq_append_trim s
  have hfeed : '\n' ∉ front ∧ '\n' ∉ back := by
    constructor
    · intro h
      exact hs (heq ▸ List.mem_append_left _ h)
    · intro h
      exact hs (heq ▸ List.mem_append_right _ (List.mem_append_right _ h))
  exact ⟨⟨⟨front, hfront, hfeed.1⟩, Text.trim s, ⟨back, hback, hfeed.2⟩⟩, heq.symm, rfl⟩

/-- Every body whose lines can be joined is a layout of what they are joined to. -/
theorem exists_layout {body symbols : List Char}
    (h : joinLines (Text.lines body) = .ok symbols) :
    ∃ layout : Layout, layout.text = body ∧ layout.symbols = symbols := by
  induction body using Text.line_induction generalizing symbols with
  | last line hline =>
    obtain ⟨l, hchars, hpiece⟩ := exists_line hline
    obtain ⟨-, rfl⟩ := (joinLines_lines_of_not_mem hline).mp h
    exact ⟨.last l, hchars, hpiece⟩
  | more line rest hline ih =>
    obtain ⟨l, hchars, hpiece⟩ := exists_line hline
    obtain ⟨-, more, hmore, rfl⟩ := (joinLines_lines_append_cons hline).mp h
    obtain ⟨layout, rfl, rfl⟩ := ih hmore
    refine ⟨.more l .feed layout, ?_, ?_⟩
    · rw [Layout.text, hchars]
      rfl
    · rw [Layout.symbols, hpiece]

/-! ### Labels -/

/-- Whether a label can be told from the header that it stands in. -/
structure IsHeaderLabel (label : String) : Prop where
  ne_empty : label ≠ ""
  no_feed : '\n' ∉ label.toList
  no_return : '\r' ∉ label.toList
  no_dashes : ¬ dashes <:+: label.toList
  no_dash_end : label.toList.getLast? ≠ some '-'

/-- The dashes behind a label are not the first ones in two cases only. -/
theorem infix_append_dashes_iff (label : List Char) :
    dashes <:+: label ++ dashes.dropLast ↔ dashes <:+: label ∨ label.getLast? = some '-' := by
  have hdashes : dashes = List.replicate 5 '-' := by decide
  constructor
  · rintro ⟨front, behind, h⟩
    rw [List.append_assoc] at h
    rcases List.append_eq_append_iff.mp h with ⟨more, hlabel, hmore⟩ | ⟨more, -, hmore⟩
    · rcases List.append_eq_append_iff.mp hmore with ⟨more', rfl, -⟩ | ⟨more', hsplit, hmore'⟩
      · exact .inl ⟨front, more', by rw [hlabel, List.append_assoc]⟩
      · -- The occurrence starts in the label and ends behind it.
        have hne : more ≠ [] := by
          rintro rfl
          have hlength := congrArg List.length hmore'
          rw [List.length_append, ← List.nil_append more', ← hsplit] at hlength
          change 4 = 5 + _ at hlength
          omega
        obtain ⟨c, hc⟩ := Option.isSome_iff_exists.mp (List.getLast?_isSome.mpr hne)
        have hmem : c ∈ dashes := hsplit ▸ List.mem_append_left _ (List.mem_of_getLast? hc)
        rw [hdashes] at hmem
        refine .inr ?_
        rw [hlabel, List.getLast?_append_of_ne_nil _ hne, hc, List.eq_of_mem_replicate hmem]
    · have hlength := congrArg List.length hmore
      rw [List.length_append, List.length_append] at hlength
      change 4 = _ + (5 + _) at hlength
      omega
  · rintro (h | h)
    · exact h.trans (List.prefix_append _ _).isInfix
    · obtain ⟨front, rfl⟩ := List.getLast?_eq_some_iff.mp h
      exact ⟨front, [], by rw [List.append_nil, List.append_assoc]; rfl⟩

/-- The header of a block ends behind the label exactly when the label can be told from it, line
breaks apart. -/
theorem cut?_dashes_iff {text label behind : List Char} :
    Text.cut? dashes text = some (label, behind) ↔
      text = label ++ (dashes ++ behind) ∧ ¬ dashes <:+: label ∧ label.getLast? ≠ some '-' := by
  rw [Text.cut?_eq_some_iff (by decide), infix_append_dashes_iff, not_or]

/-- The mark of a header is found behind a text that does not hold it, whatever the text ends with. -/
theorem cut?_beginMark_iff {text before behind : List Char} :
    Text.cut? beginMark text = some (before, behind) ↔
      text = before ++ (beginMark ++ behind) ∧ ¬ beginMark <:+: before := by
  have hmark : beginMark = beginMark.dropLast ++ [' '] := by decide
  have hspace : ' ' ∉ beginMark.dropLast := by decide
  have hfound : beginMark.dropLast ++ [' '] <:+: before ++ beginMark.dropLast ↔
      beginMark.dropLast ++ [' '] <:+: before := Text.infix_append_iff_of_not_mem hspace
  rw [← hmark] at hfound
  rw [Text.cut?_eq_some_iff (by decide), hfound]

/-- The footer of a block is found behind characters other than dashes. -/
theorem cut?_footer {body : List Char} (hbody : ∀ d ∈ body, d ≠ '-') (label behind : List Char) :
    Text.cut? (endMark ++ label ++ dashes) (body ++ (endMark ++ label ++ dashes ++ behind)) =
      some (body, behind) :=
  Text.cut?_append_append hbody

/-! ### Blocks -/

/-- What is asked of a label before the footer is looked for. -/
theorem label_check_iff {label : List Char} :
    ¬ (label.isEmpty || label.contains '\n' || label.contains '\r') = true ↔
      label ≠ [] ∧ '\n' ∉ label ∧ '\r' ∉ label := by
  simp [and_assoc]

/-- The steps of reading the first block of a text. -/
theorem decodeText_eq_ok_iff_cut {text : List Char} {b : Block} :
    decodeText text = .ok b ↔
      ∃ before afterMark afterHeader body behind,
        Text.cut? beginMark text = some (before, afterMark) ∧
        Text.cut? dashes afterMark = some (b.label.toList, afterHeader) ∧
        (b.label.toList ≠ [] ∧ '\n' ∉ b.label.toList ∧ '\r' ∉ b.label.toList) ∧
        Text.cut? (endMark ++ b.label.toList ++ dashes) afterHeader = some (body, behind) ∧
        joinLines (Text.lines body) = .ok (Base64.encodeChars Base64.standard b.contents) := by
  constructor
  · intro h
    unfold decodeText at h
    split at h
    case h_2 => cases h
    rename_i before afterMark hmark
    split at h
    case h_2 => cases h
    rename_i label afterHeader hheader
    rw [guard_eq_ok_iff] at h
    obtain ⟨hlabel, h⟩ := h
    split at h
    case h_2 => cases h
    rename_i body behind hfooter
    obtain ⟨encoded, hencoded, h⟩ := bind_eq_ok_iff.mp h
    split at h
    · cases h
    rename_i contents hcontents
    obtain rfl := pure_eq_ok_iff.mp h
    have hsymbols : encoded = Base64.encodeChars Base64.standard contents :=
      String.ofList_injective
        ((Base64.decodeText_eq_ok_iff Base64.standard_isFaithful).mp hcontents)
    rw [String.toList_ofList]
    exact ⟨before, afterMark, afterHeader, body, behind, hmark, hheader, label_check_iff.mp hlabel,
      hfooter, hsymbols ▸ hencoded⟩
  · rintro ⟨before, afterMark, afterHeader, body, behind, hmark, hheader, hlabel, hfooter, hjoin⟩
    have hcontents : Base64.decodeText Base64.standard
        (String.ofList (Base64.encodeChars Base64.standard b.contents)) = .ok b.contents :=
      Base64.decodeText_encode Base64.standard_isFaithful b.contents
    unfold decodeText
    simp only [hmark, hheader, hfooter, hjoin, ok_bind, hcontents]
    rw [if_neg (label_check_iff.mpr hlabel), String.ofList_toList]
    rfl

/-- Every text is read as a block exactly when the block stands in it, with any layout of its
contents, behind characters without the mark of a header. -/
theorem decodeText_eq_ok_iff_layout {text : List Char} {b : Block} :
    decodeText text = .ok b ↔
      IsHeaderLabel b.label ∧ ∃ before layout behind, ¬ beginMark <:+: before ∧
        layout.symbols = Base64.encodeChars Base64.standard b.contents ∧
        text = before ++ ((Layout.armor layout b.label).toList ++ behind) := by
  rw [decodeText_eq_ok_iff_cut]
  constructor
  · rintro ⟨before, afterMark, afterHeader, body, behind, hmark, hheader, ⟨hne, hfeed, hreturn⟩,
      hfooter, hjoin⟩
    obtain ⟨rfl, hbefore⟩ := cut?_beginMark_iff.mp hmark
    obtain ⟨rfl, hdashes, hend⟩ := cut?_dashes_iff.mp hheader
    obtain rfl := Text.eq_append_of_cut? hfooter
    obtain ⟨layout, rfl, hsymbols⟩ := exists_layout hjoin
    refine ⟨⟨mt String.toList_eq_nil_iff.mpr hne, hfeed, hreturn, hdashes, hend⟩, before, layout,
      behind, hbefore, hsymbols, ?_⟩
    simp only [Layout.armor, String.toList_ofList, List.append_assoc]
  · rintro ⟨hlabel, before, layout, behind, hbefore, hsymbols, rfl⟩
    have hcontent : ∀ d ∈ layout.symbols, IsContent d := by
      intro d hd
      exact isContent_of_mem_encodeChars (hsymbols ▸ hd)
    refine ⟨before, _, _, layout.text, behind, cut?_beginMark_iff.mpr ⟨?_, hbefore⟩,
      cut?_dashes_iff.mpr ⟨rfl, hlabel.no_dashes, hlabel.no_dash_end⟩,
      ⟨mt String.toList_eq_nil_iff.mp hlabel.ne_empty, hlabel.no_feed, hlabel.no_return⟩,
      cut?_footer (fun d hd => layout.ne_dash hcontent hd) _ behind, ?_⟩
    · simp only [Layout.armor, String.toList_ofList, List.append_assoc]
    · rw [joinLines_text hcontent, hsymbols]

/-- A file is read as a block when it is a text that is. -/
theorem decode_eq_ok_iff {file : Bytes} {b : Block} :
    decode file = .ok b ↔ ∃ text : String, file = Text.toBytes text ∧ decodeText text.toList = .ok b := by
  constructor
  · intro h
    unfold decode at h
    split at h
    · cases h
    · rename_i text htext
      exact ⟨text, Text.ofBytes?_eq_some_iff.mp htext, h⟩
  · rintro ⟨text, rfl, h⟩
    rw [decode, Text.ofBytes?_toBytes]
    exact h

/-- A file is read as a block exactly when it is a text in which the block stands behind a text
without the mark of a header.  Its label can be told from the header, its contents may be laid out
in lines of any lengths, with white space around them, blank lines and any ends of lines, and it may
be followed by any text. -/
theorem decode_eq_ok_iff_layout {file : Bytes} {b : Block} :
    decode file = .ok b ↔
      IsHeaderLabel b.label ∧ ∃ (before behind : String) (layout : Layout),
        ¬ beginMark <:+: before.toList ∧
        layout.symbols = Base64.encodeChars Base64.standard b.contents ∧
        file = Text.toBytes (before ++ layout.armor b.label ++ behind) := by
  rw [decode_eq_ok_iff]
  constructor
  · rintro ⟨text, rfl, h⟩
    obtain ⟨hlabel, before, layout, behind, hbefore, hsymbols, heq⟩ :=
      decodeText_eq_ok_iff_layout.mp h
    refine ⟨hlabel, String.ofList before, String.ofList behind, layout, ?_, hsymbols, ?_⟩
    · rwa [String.toList_ofList]
    · congr 1
      apply String.toList_injective
      simp only [String.toList_append, String.toList_ofList, heq, List.append_assoc]
  · rintro ⟨hlabel, before, behind, layout, hbefore, hsymbols, rfl⟩
    refine ⟨_, rfl, decodeText_eq_ok_iff_layout.mpr
      ⟨hlabel, before.toList, layout, behind.toList, hbefore, hsymbols, ?_⟩⟩
    simp only [String.toList_append, List.append_assoc]

end KeySmith.Pem

import KeySmith.Text.Search
import KeySmith.Text.Utf8
import Mathlib.Data.List.Chain
import Mathlib.Data.List.TakeWhile

/-!
# Texts

The UTF-8 form of a text is the concatenation of the forms of its characters, and every octet string
is the form of at most one text.  Characters below 128 take one octet each, so for texts of such
characters, which all armor consists of, reading octets and reading characters is the same.

A text is cut at a mark where the mark ends for the first time (`cut?_eq_some_iff`), which is easy to
see where no character in front is the one that the mark starts with.  The lines of a text hold its
characters without the line feeds.
-/

namespace KeySmith.Text

/-! ### Octets -/

/-- The octets of a text given by its characters. -/
theorem toBytes_ofList (cs : List Char) :
    toBytes (String.ofList cs) = cs.flatMap String.utf8EncodeChar := by
  simp [toBytes, List.utf8Encode]

/-- Reading octets as text succeeds exactly on the octets of the text. -/
theorem ofBytes?_eq_some_iff {bs : Bytes} {s : String} : ofBytes? bs = some s ↔ bs = toBytes s := by
  constructor
  · intro h
    unfold ofBytes? String.fromUTF8? at h
    split at h
    · cases h
      simp [toBytes, String.fromUTF8]
    · cases h
  · rintro rfl
    exact ofBytes?_toBytes s

/-- Texts are told apart by their octets. -/
theorem toBytes_injective {s t : String} (h : toBytes s = toBytes t) : s = t := by
  have hs : ofBytes? (toBytes s) = some s := ofBytes?_toBytes s
  rw [h, ofBytes?_toBytes] at hs
  exact (Option.some.inj hs).symm

/-! ### Characters of one octet -/

/-- The octet of a character below 128. -/
def asciiByte (c : Char) : UInt8 :=
  c.toNat.toUInt8

/-- A character below 128 takes the one octet of its number. -/
theorem utf8EncodeChar_of_lt {c : Char} (h : c.toNat < 128) :
    String.utf8EncodeChar c = [asciiByte c] := by
  have hsize : c.utf8Size = 1 := by
    have hval : c.val ≤ 0x7f := by
      rw [UInt32.le_iff_toNat_le]
      exact Nat.le_of_lt_succ h
    simp [Char.utf8Size, hval]
  rw [String.utf8EncodeChar_eq_singleton hsize]
  rfl

/-- A text of characters below 128 has one octet for each. -/
theorem flatMap_utf8EncodeChar_of_lt {cs : List Char} (h : ∀ c ∈ cs, c.toNat < 128) :
    cs.flatMap String.utf8EncodeChar = cs.map asciiByte := by
  induction cs with
  | nil => rfl
  | cons c cs ih =>
    rw [List.flatMap_cons, utf8EncodeChar_of_lt (h c List.mem_cons_self),
      ih fun d hd => h d (List.mem_cons_of_mem c hd)]
    rfl

/-- The character of an octet below 128 has the number of the octet. -/
theorem toNat_ofNat_of_lt {b : UInt8} (h : b < 128) : (Char.ofNat b.toNat).toNat = b.toNat := by
  have hb : b.toNat < 128 := UInt8.lt_iff_toNat_lt.mp h
  have hvalid : b.toNat.isValidChar := Or.inl (by omega)
  rw [Char.ofNat, dif_pos hvalid]
  rfl

/-- The characters of octets below 128 have these octets. -/
theorem toBytes_ofList_map_ofNat {bs : Bytes} (h : ∀ b ∈ bs, b < 128) :
    toBytes (String.ofList (bs.map fun b => Char.ofNat b.toNat)) = bs := by
  have hsmall : ∀ c ∈ bs.map fun b => Char.ofNat b.toNat, c.toNat < 128 := by
    intro c hc
    obtain ⟨b, hb, rfl⟩ := List.mem_map.mp hc
    rw [toNat_ofNat_of_lt (h b hb)]
    exact UInt8.lt_iff_toNat_lt.mp (h b hb)
  rw [toBytes_ofList, flatMap_utf8EncodeChar_of_lt hsmall, List.map_map]
  refine (List.map_congr_left fun b hb => ?_).trans (List.map_id bs)
  rw [Function.comp_apply, asciiByte, toNat_ofNat_of_lt (h b hb)]
  exact UInt8.ofNat_toNat

/-! ### Characters of more octets -/

/-- Every octet of a character from 128 on is at least 128. -/
theorem le_of_mem_utf8EncodeChar {c : Char} (h : 128 ≤ c.toNat) {b : UInt8}
    (hb : b ∈ String.utf8EncodeChar c) : 128 ≤ b := by
  have hv : ¬ c.val.toNat ≤ 0x7f := Nat.not_le.mpr h
  simp only [String.utf8EncodeChar, if_neg hv] at hb
  rw [UInt8.le_iff_toNat_le]
  split at hb
  · simp only [List.mem_cons, List.not_mem_nil, or_false] at hb
    rcases hb with rfl | rfl <;> simp <;> omega
  split at hb
  · simp only [List.mem_cons, List.not_mem_nil, or_false] at hb
    rcases hb with rfl | rfl | rfl <;> simp <;> omega
  · simp only [List.mem_cons, List.not_mem_nil, or_false] at hb
    rcases hb with rfl | rfl | rfl | rfl <;> simp <;> omega

/-- Characters below 128 are told apart by their octets. -/
theorem asciiByte_eq_iff {c d : Char} (hc : c.toNat < 128) (hd : d.toNat < 128) :
    asciiByte c = asciiByte d ↔ c = d := by
  constructor
  · intro h
    have hnat : c.toNat % 256 = d.toNat % 256 := congrArg UInt8.toNat h
    have hval : c.toNat = d.toNat := by omega
    exact Char.toNat_inj.mp hval
  · rintro rfl
    rfl

/-- Characters below 128 start a text exactly when their octets start its octets. -/
theorem isPrefixOf_flatMap_utf8EncodeChar {mark : List Char} (h : ∀ c ∈ mark, c.toNat < 128)
    (cs : List Char) :
    (mark.map asciiByte).isPrefixOf (cs.flatMap String.utf8EncodeChar) = mark.isPrefixOf cs := by
  induction mark generalizing cs with
  | nil => rfl
  | cons m mark ih =>
    have hm : m.toNat < 128 := h m List.mem_cons_self
    have hmark : ∀ c ∈ mark, c.toNat < 128 := fun c hc => h c (List.mem_cons_of_mem m hc)
    cases cs with
    | nil => rfl
    | cons c cs =>
      rw [List.flatMap_cons]
      by_cases hc : c.toNat < 128
      · rw [utf8EncodeChar_of_lt hc, List.map_cons, List.singleton_append, List.isPrefixOf,
          List.isPrefixOf, ih hmark]
        congr 1
        rw [Bool.eq_iff_iff, beq_iff_eq, beq_iff_eq, asciiByte_eq_iff hm hc]
      · have hne : m ≠ c := by
          rintro rfl
          exact hc hm
        cases hbytes : String.utf8EncodeChar c with
        | nil => exact absurd hbytes String.utf8EncodeChar_ne_nil
        | cons b bs =>
          have hb : 128 ≤ b :=
            le_of_mem_utf8EncodeChar (Nat.not_lt.mp hc) (hbytes ▸ List.mem_cons_self)
          have hbne : asciiByte m ≠ b := by
            rintro rfl
            rw [UInt8.le_iff_toNat_le] at hb
            have : (asciiByte m).toNat = m.toNat % 256 := rfl
            have : (128 : UInt8).toNat = 128 := rfl
            omega
          rw [List.map_cons, List.cons_append, List.isPrefixOf, List.isPrefixOf,
            beq_false_of_ne hbne, beq_false_of_ne hne]
          simp only [Bool.false_and]

/-! ### Cutting -/

/-- A mark at the start of a text is its first occurrence. -/
theorem cut?_append (mark after : List Char) : cut? mark (mark ++ after) = some ([], after) := by
  cases hall : mark ++ after with
  | nil =>
    obtain ⟨rfl, rfl⟩ := List.append_eq_nil_iff.mp hall
    rfl
  | cons c rest =>
    have hprefix : mark.isPrefixOf (c :: rest) = true :=
      List.isPrefixOf_iff_prefix.mpr ⟨after, hall⟩
    rw [cut?, if_pos hprefix, ← hall, List.drop_left]

/-- A mark behind characters that it does not start with is the first one. -/
theorem cut?_append_append {m : Char} {mark before after : List Char}
    (h : ∀ c ∈ before, c ≠ m) :
    cut? (m :: mark) (before ++ (m :: mark ++ after)) = some (before, after) := by
  induction before with
  | nil => exact cut?_append (m :: mark) after
  | cons c before ih =>
    have hne : (m :: mark).isPrefixOf (c :: (before ++ (m :: mark ++ after))) = false := by
      have hc : ¬ m = c := fun hmc => h c List.mem_cons_self hmc.symm
      simp [List.isPrefixOf, hc]
    rw [List.cons_append, cut?, hne, ih fun d hd => h d (List.mem_cons_of_mem c hd)]
    rfl

/-- A mark that starts with a character twice is not found before the end of characters that hold it
only by itself and do not end in it. -/
theorem cut?_append_of_isChain {m : Char} {mark before : List Char}
    (hchain : before.IsChain fun c d => ¬ (c = m ∧ d = m)) (hlast : before.getLast? ≠ some m)
    (after : List Char) :
    cut? (m :: m :: mark) (before ++ after) =
      (cut? (m :: m :: mark) after).map fun p => (before ++ p.1, p.2) := by
  induction before with
  | nil => simp
  | cons c before ih =>
    have hnot : (m :: m :: mark).isPrefixOf (c :: (before ++ after)) = false := by
      by_contra hprefix
      obtain ⟨rest, hrest⟩ := List.isPrefixOf_iff_prefix.mp (Bool.not_eq_false _ ▸ hprefix)
      obtain ⟨hc, hmore⟩ := List.cons.inj hrest
      cases before with
      | nil => exact hlast (congrArg some hc.symm)
      | cons d before =>
        obtain ⟨hd, -⟩ := List.cons.inj hmore
        exact (List.isChain_cons_cons.mp hchain).1 ⟨hc.symm, hd.symm⟩
    have hrest : before.IsChain fun c d => ¬ (c = m ∧ d = m) := hchain.tail
    have hlast' : before.getLast? ≠ some m := by
      cases before with
      | nil => simp
      | cons d before => rwa [List.getLast?_cons_cons] at hlast
    rw [List.cons_append, cut?, hnot, ih hrest hlast']
    cases cut? (m :: m :: mark) after <;> rfl

/-- A mark occurs in a text when it stands in front, or when it occurs behind the first
character. -/
theorem contains_cons (mark : List Char) (c : Char) (cs : List Char) :
    contains mark (c :: cs) = (mark.isPrefixOf (c :: cs) || contains mark cs) := by
  unfold contains
  rw [cut?]
  cases h : mark.isPrefixOf (c :: cs) with
  | true => rfl
  | false => rw [if_neg Bool.false_ne_true, Bool.false_or, Option.isSome_map]

/-- A text that is cut at a mark consists of what stands before it, of the mark and of the rest. -/
theorem eq_append_of_cut? {mark text before behind : List Char}
    (h : cut? mark text = some (before, behind)) : text = before ++ (mark ++ behind) := by
  induction text generalizing before with
  | nil =>
    obtain ⟨hmark, hparts⟩ := Option.ite_none_right_eq_some.mp h
    cases hparts
    rw [List.isEmpty_iff.mp hmark]
    rfl
  | cons c rest ih =>
    unfold cut? at h
    split at h
    · rename_i hprefix
      cases h
      obtain ⟨behind, hbehind⟩ := List.isPrefixOf_iff_prefix.mp hprefix
      rw [← hbehind, List.drop_left, List.nil_append]
    · obtain ⟨⟨a, b⟩, hcut, heq⟩ := Option.map_eq_some_iff.mp h
      cases heq
      rw [ih hcut, List.cons_append]

/-- A mark does not occur in what is shorter than it. -/
theorem not_infix_dropLast {mark : List Char} (hmark : mark ≠ []) : ¬ mark <:+: mark.dropLast := by
  intro hfound
  have hle := hfound.length_le
  have hpos := List.length_pos_iff.mpr hmark
  rw [List.length_dropLast] at hle
  omega

/-- All of a mark but its last character stands where the mark does. -/
theorem append_dropLast_isPrefix_append (mark before behind : List Char) :
    before ++ mark.dropLast <+: before ++ (mark ++ behind) := by
  have hmark : mark.dropLast <+: mark := List.dropLast_prefix mark
  rw [List.prefix_append_right_inj]
  exact hmark.trans (List.prefix_append mark behind)

/-- A text is cut where a mark ends for the first time: no occurrence ends before the last character
of the one that the text is cut at. -/
theorem cut?_eq_some_iff {mark text before behind : List Char} (hmark : mark ≠ []) :
    cut? mark text = some (before, behind) ↔
      text = before ++ (mark ++ behind) ∧ ¬ mark <:+: before ++ mark.dropLast := by
  constructor
  · intro h
    refine ⟨eq_append_of_cut? h, ?_⟩
    induction text generalizing before with
    | nil =>
      rw [cut?, if_neg (by simpa using hmark)] at h
      cases h
    | cons c rest ih =>
      rw [cut?] at h
      split at h
      · cases h
        exact not_infix_dropLast hmark
      · rename_i hprefix
        obtain ⟨⟨a, b⟩, hcut, heq⟩ := Option.map_eq_some_iff.mp h
        cases heq
        intro hfound
        rcases List.infix_cons_iff.mp hfound with hstart | hlater
        · apply hprefix
          rw [List.isPrefixOf_iff_prefix, eq_append_of_cut? hcut]
          exact hstart.trans (append_dropLast_isPrefix_append mark (c :: a) behind)
        · exact ih hcut hlater
  · rintro ⟨rfl, hfirst⟩
    induction before with
    | nil => exact cut?_append mark behind
    | cons c before ih =>
      have hrest : ¬ mark <:+: before ++ mark.dropLast := fun hfound =>
        hfirst (hfound.trans (List.suffix_cons c _).isInfix)
      have hstart : mark.isPrefixOf (c :: (before ++ (mark ++ behind))) = false := by
        rw [Bool.eq_false_iff]
        intro hprefix
        have hle : mark.length ≤ (c :: before ++ mark.dropLast).length := by
          rw [List.length_append, List.length_cons, List.length_dropLast]
          omega
        -- The mark in front would be seen before the one behind ends.
        exact hfirst (List.prefix_of_prefix_length_le (List.isPrefixOf_iff_prefix.mp hprefix)
          (append_dropLast_isPrefix_append mark (c :: before) behind) hle).isInfix
      rw [List.cons_append, cut?, hstart, ih hrest]
      rfl

/-- A mark whose last character does not occur in an appended text does not reach into it. -/
theorem infix_append_iff_of_not_mem {m : Char} {mark s t : List Char} (ht : m ∉ t) :
    mark ++ [m] <:+: s ++ t ↔ mark ++ [m] <:+: s := by
  constructor
  · rintro ⟨front, behind, h⟩
    rw [List.append_assoc, List.append_assoc, ← List.append_assoc front] at h
    rcases List.append_eq_append_iff.mp h with ⟨more, hs, hmore⟩ | ⟨more, -, ht'⟩
    · cases more with
      | nil =>
        rw [List.nil_append] at hmore
        exact absurd (hmore ▸ List.mem_cons_self) ht
      | cons c more =>
        obtain ⟨rfl, -⟩ := List.cons.inj hmore
        exact ⟨front, more, by rw [hs]; simp⟩
    · exact absurd (by rw [ht']; simp) ht
  · intro h
    exact h.trans (List.prefix_append s t).isInfix

/-! ### Lines -/

/-- A line feed belongs to no line, and the characters of a line are those of the text. -/
theorem mem_of_mem_lines {text line : List Char} (hline : line ∈ lines text) {c : Char}
    (hc : c ∈ line) : c ∈ text ∧ c ≠ '\n' := by
  induction text generalizing line with
  | nil => cases hline
  | cons d text ih =>
    rw [lines] at hline
    split at hline
    · rcases List.mem_cons.mp hline with rfl | hline
      · cases hc
      · obtain ⟨hmem, hne⟩ := ih hline hc
        exact ⟨List.mem_cons_of_mem d hmem, hne⟩
    · rename_i hd
      split at hline
      · obtain rfl := List.mem_singleton.mp hline
        obtain rfl := List.mem_singleton.mp hc
        exact ⟨List.mem_cons_self, hd⟩
      · rename_i first more hlines
        rcases List.mem_cons.mp hline with rfl | hline
        · rcases List.mem_cons.mp hc with rfl | hc
          · exact ⟨List.mem_cons_self, hd⟩
          · obtain ⟨hmem, hne⟩ := ih (hlines ▸ List.mem_cons_self) hc
            exact ⟨List.mem_cons_of_mem d hmem, hne⟩
        · obtain ⟨hmem, hne⟩ := ih (hlines ▸ List.mem_cons_of_mem first hline) hc
          exact ⟨List.mem_cons_of_mem d hmem, hne⟩

/-- Only the empty text has no lines. -/
theorem lines_ne_nil {s : List Char} (h : s ≠ []) : lines s ≠ [] := by
  cases s with
  | nil => exact absurd rfl h
  | cons c s =>
    rw [lines]
    split
    · exact List.cons_ne_nil _ _
    · split <;> exact List.cons_ne_nil _ _

/-- A character other than a line feed belongs to the first line of the text that it stands in front
of. -/
theorem lines_cons_of_ne {c : Char} (hc : c ≠ '\n') (s : List Char) :
    lines (c :: s) = (c :: (lines s).headD []) :: (lines s).tail := by
  rw [lines, if_neg hc]
  cases lines s <;> rfl

/-- Characters without line feeds belong to the first line of the text that they stand in front of. -/
theorem lines_append_of_not_mem {s : List Char} (hne : s ≠ []) (hs : '\n' ∉ s) (t : List Char) :
    lines (s ++ t) = (s ++ (lines t).headD []) :: (lines t).tail := by
  induction s with
  | nil => exact absurd rfl hne
  | cons c s ih =>
    obtain ⟨hc, hrest⟩ := not_or.mp (mt List.mem_cons.mpr hs)
    rw [List.cons_append, lines_cons_of_ne (Ne.symm hc)]
    cases s with
    | nil => rfl
    | cons d s =>
      rw [ih (List.cons_ne_nil d s) hrest]
      rfl

/-- The first line ends at the first line feed. -/
theorem lines_append_cons {s : List Char} (hs : '\n' ∉ s) (t : List Char) :
    lines (s ++ '\n' :: t) = s :: lines t := by
  have hfeed : lines ('\n' :: t) = [] :: lines t := if_pos rfl
  obtain rfl | hne := eq_or_ne s []
  · exact hfeed
  · rw [lines_append_of_not_mem hne hs, hfeed, List.headD_cons, List.append_nil, List.tail_cons]

/-- A text is its only line exactly when it has no line feed. -/
theorem lines_eq_singleton_iff {s : List Char} (hne : s ≠ []) : lines s = [s] ↔ '\n' ∉ s := by
  constructor
  · intro h hmem
    exact (mem_of_mem_lines (h ▸ List.mem_singleton_self s) hmem).2 rfl
  · intro hs
    have hlines := lines_append_of_not_mem hne hs []
    rw [List.append_nil] at hlines
    exact hlines.trans (congrArg ([·]) (List.append_nil s))

/-- A text is a line without its line feed, or a line with it in front of another text. -/
@[elab_as_elim] theorem line_induction {motive : List Char → Prop}
    (last : ∀ s, '\n' ∉ s → motive s)
    (more : ∀ line rest, '\n' ∉ line → motive rest → motive (line ++ '\n' :: rest))
    (s : List Char) : motive s := by
  induction hlength : s.length using Nat.strong_induction_on generalizing s with
  | h n ih =>
    by_cases hfeed : '\n' ∈ s
    · obtain ⟨line, rest, rfl, hline⟩ := List.eq_append_cons_of_mem hfeed
      refine more line rest hline (ih rest.length ?_ rest rfl)
      rw [← hlength, List.length_append, List.length_cons]
      omega
    · exact last s hfeed

/-- A line starts where a text ends with a line feed, or is empty. -/
theorem lines_append {s : List Char} (hs : s = [] ∨ s.getLast? = some '\n') (t : List Char) :
    lines (s ++ t) = lines s ++ lines t := by
  induction s with
  | nil => rfl
  | cons c s ih =>
    have hrest : c = '\n' ∧ s = [] ∨ s.getLast? = some '\n' := by
      cases s with
      | nil => simpa using hs
      | cons d s => exact .inr (by simpa using hs)
    rw [List.cons_append]
    by_cases hc : c = '\n'
    · rw [lines, if_pos hc, lines, if_pos hc, ih (hrest.imp_left And.right), List.cons_append]
    · have hlast : s.getLast? = some '\n' := hrest.resolve_left fun h => hc h.1
      have hne : s ≠ [] := by
        rintro rfl
        simp at hlast
      obtain ⟨line, more, hlines⟩ := List.exists_cons_of_ne_nil (lines_ne_nil hne)
      rw [lines_cons_of_ne hc, lines_cons_of_ne hc, ih (.inr hlast), hlines]
      rfl

/-- The last line may end with a line feed or without one. -/
theorem lines_append_break {s : List Char} (hne : s ≠ []) (hlast : s.getLast? ≠ some '\n') :
    lines (s ++ ['\n']) = lines s := by
  induction s with
  | nil => exact absurd rfl hne
  | cons c s ih =>
    cases s with
    | nil =>
      have hc : c ≠ '\n' := by simpa using hlast
      rw [List.singleton_append, lines_cons_of_ne hc, lines_cons_of_ne hc]
      rfl
    | cons d s =>
      rw [List.cons_append, lines, lines, ih (List.cons_ne_nil d s) (by simpa using hlast)]

/-- A text without white space is not trimmed. -/
theorem trim_of_forall {s : List Char} (h : ∀ c ∈ s, isBlank c = false) : trim s = s := by
  have hkeep : ∀ t : List Char, (∀ c ∈ t, isBlank c = false) → t.dropWhile isBlank = t := by
    intro t ht
    cases t with
    | nil => rfl
    | cons c t =>
      rw [List.dropWhile_cons_of_neg]
      simp [ht c List.mem_cons_self]
  rw [trim, trimStart, hkeep s h, trimEnd, hkeep s.reverse fun c hc => h c (List.mem_reverse.mp hc),
    List.reverse_reverse]

/-! ### White space -/

theorem isBlank_space : isBlank ' ' = true := by
  decide

theorem isBlank_tab : isBlank '\t' = true := by
  decide

/-- Trimming the end of a text leaves what stands before a part that does not vanish. -/
theorem trimEnd_append_of_ne_nil {s t : List Char} (h : trimEnd t ≠ []) :
    trimEnd (s ++ t) = s ++ trimEnd t := by
  have hdrop : t.reverse.dropWhile isBlank ≠ [] := by simpa [trimEnd] using h
  rw [trimEnd, List.reverse_append, List.dropWhile_append, if_neg (by simpa using hdrop),
    List.reverse_append, List.reverse_reverse, trimEnd]

/-- A part that vanishes may be left out before the end of a text is trimmed. -/
theorem trimEnd_append_of_eq_nil {s t : List Char} (h : trimEnd t = []) :
    trimEnd (s ++ t) = trimEnd s := by
  have hdrop : t.reverse.dropWhile isBlank = [] := by simpa [trimEnd] using h
  rw [trimEnd, List.reverse_append, List.dropWhile_append, if_pos (by simpa using hdrop), trimEnd]

/-- Behind a text that has been trimmed at its end only what follows is trimmed. -/
theorem trimEnd_append {s : List Char} (hs : trimEnd s = s) (t : List Char) :
    trimEnd (s ++ t) = s ++ trimEnd t := by
  by_cases ht : trimEnd t = []
  · rw [trimEnd_append_of_eq_nil ht, ht, hs, List.append_nil]
  · exact trimEnd_append_of_ne_nil ht

/-- What is left of a text whose end has been trimmed stands at its start. -/
theorem trimEnd_prefix (s : List Char) : trimEnd s <+: s := by
  rw [← List.reverse_suffix, trimEnd, List.reverse_reverse]
  exact List.dropWhile_suffix _

/-- A text without white space keeps its end. -/
theorem trimEnd_of_forall {s : List Char} (h : ∀ c ∈ s, isBlank c = false) : trimEnd s = s := by
  rw [trimEnd]
  cases hs : s.reverse with
  | nil => rw [← List.reverse_reverse s, hs]; rfl
  | cons c rest =>
    have hc : c ∈ s := List.mem_reverse.mp (hs ▸ List.mem_cons_self)
    rw [List.dropWhile_cons_of_neg (by simp [h c hc]), ← hs, List.reverse_reverse]

/-- A text is trimmed at its end once. -/
@[simp] theorem trimEnd_trimEnd (s : List Char) : trimEnd (trimEnd s) = trimEnd s := by
  have hdrop : (s.reverse.dropWhile isBlank).dropWhile isBlank = s.reverse.dropWhile isBlank := by
    cases h : s.reverse.dropWhile isBlank with
    | nil => rfl
    | cons c rest =>
      have hhead := List.head?_dropWhile_not isBlank s.reverse
      rw [h] at hhead
      have hc : isBlank c = false := by simpa using hhead
      exact List.dropWhile_cons_of_neg (by simp [hc])
  rw [trimEnd, trimEnd, List.reverse_reverse, hdrop]

/-- A text that has been trimmed at its end does not end in white space. -/
theorem isBlank_of_mem_getLast?_trimEnd {s : List Char} :
    ∀ c ∈ (trimEnd s).getLast?, isBlank c = false := by
  intro c hc
  have hhead := List.head?_dropWhile_not isBlank s.reverse
  rw [trimEnd, List.getLast?_reverse] at hc
  rw [Option.mem_def.mp hc] at hhead
  simpa using hhead

/-- A text that starts with another character than white space keeps its start. -/
theorem trimStart_cons {c : Char} (h : isBlank c = false) (s : List Char) :
    trimStart (c :: s) = c :: s :=
  List.dropWhile_cons_of_neg (by simp [h])

/-- White space at the start and at the end of a text is taken off in any order. -/
theorem trimStart_trimEnd (s : List Char) : trimStart (trimEnd s) = trimEnd (trimStart s) := by
  induction s with
  | nil => rfl
  | cons c s ih =>
    have hskip : isBlank c = true → trimStart (c :: s) = trimStart s :=
      fun hc => List.dropWhile_cons_of_pos hc
    by_cases hs : trimEnd s = []
    · have hcons : trimEnd (c :: s) = trimEnd [c] := trimEnd_append_of_eq_nil (s := [c]) hs
      rw [hcons]
      cases hc : isBlank c with
      | true =>
        have hone : trimEnd [c] = [] := by simp [trimEnd, hc]
        rw [hskip hc, ← ih, hs, hone]
      | false =>
        have hone : trimEnd [c] = [c] := by simp [trimEnd, hc]
        rw [trimStart_cons hc, hcons, hone, trimStart_cons hc]
    · have hcons : trimEnd (c :: s) = c :: trimEnd s := trimEnd_append_of_ne_nil (s := [c]) hs
      rw [hcons]
      cases hc : isBlank c with
      | true =>
        have hskipEnd : trimStart (c :: trimEnd s) = trimStart (trimEnd s) :=
          List.dropWhile_cons_of_pos hc
        rw [hskip hc, hskipEnd, ih]
      | false => rw [trimStart_cons hc, trimStart_cons hc, hcons]

/-- Trimming a text is trimming what is left when its end has been trimmed. -/
theorem trim_trimEnd (s : List Char) : trim (trimEnd s) = trim s := by
  rw [trim, trimStart_trimEnd, trimEnd_trimEnd, trim]

/-- White space in front of a text vanishes when the text is trimmed. -/
theorem trim_append_of_forall {s : List Char} (hs : ∀ c ∈ s, isBlank c = true) (t : List Char) :
    trim (s ++ t) = trim t := by
  rw [trim, trimStart, List.dropWhile_append_of_pos hs, trim, trimStart]

/-- The white space around a text is all that trimming takes off. -/
theorem exists_eq_append_trim (s : List Char) :
    ∃ front back, s = front ++ (trim s ++ back) ∧ (∀ c ∈ front, isBlank c = true) ∧
      ∀ c ∈ back, isBlank c = true := by
  refine ⟨s.takeWhile isBlank, ((trimStart s).reverse.takeWhile isBlank).reverse, ?_, ?_, ?_⟩
  · have hend : trimStart s =
        trimEnd (trimStart s) ++ ((trimStart s).reverse.takeWhile isBlank).reverse := by
      rw [trimEnd, ← List.reverse_append, List.takeWhile_append_dropWhile, List.reverse_reverse]
    rw [trim, ← hend, trimStart, List.takeWhile_append_dropWhile]
  · intro c hc
    exact List.mem_takeWhile_imp hc
  · intro c hc
    exact List.mem_takeWhile_imp (List.mem_reverse.mp hc)

/-- White space vanishes when it is trimmed. -/
theorem trimEnd_eq_nil {s : List Char} (hs : ∀ c ∈ s, isBlank c = true) : trimEnd s = [] := by
  rw [trimEnd, List.reverse_eq_nil_iff, List.dropWhile_eq_nil_iff]
  intro c hc
  exact hs c (List.mem_reverse.mp hc)

/-- A text without white space is what is left when the white space around it has been trimmed. -/
theorem trim_append_append {front s back : List Char} (hfront : ∀ c ∈ front, isBlank c = true)
    (hs : ∀ c ∈ s, isBlank c = false) (hback : ∀ c ∈ back, isBlank c = true) :
    trim (front ++ (s ++ back)) = s := by
  rw [trim_append_of_forall hfront, ← trim_trimEnd, trimEnd_append_of_eq_nil (trimEnd_eq_nil hback),
    trim_trimEnd, trim_of_forall hs]

/-- A text without white space is split before the white space behind it. -/
theorem splitBlank_append_cons {s : List Char} (hs : ∀ c ∈ s, isBlank c = false) {b : Char}
    (hb : isBlank b = true) (rest : List Char) : splitBlank (s ++ b :: rest) = (s, some rest) := by
  have hall : ∀ c ∈ s, (!isBlank c) = true := fun c hc => by simp [hs c hc]
  rw [splitBlank, List.takeWhile_append_of_pos hall, List.dropWhile_append_of_pos hall,
    List.takeWhile_cons_of_neg (by simp [hb]), List.dropWhile_cons_of_neg (by simp [hb]),
    List.append_nil]

/-- A text without white space is not split. -/
theorem splitBlank_of_forall {s : List Char} (hs : ∀ c ∈ s, isBlank c = false) :
    splitBlank s = (s, none) := by
  have hall : ∀ c ∈ s, (!isBlank c) = true := fun c hc => by simp [hs c hc]
  have htake : s.takeWhile (!isBlank ·) = s := List.takeWhile_eq_self_iff.mpr hall
  have hdrop : s.dropWhile (!isBlank ·) = [] := List.dropWhile_eq_nil_iff.mpr hall
  rw [splitBlank, htake, hdrop]

/-- A text without white space is split from what follows it, when that starts with white space or
vanishes. -/
theorem splitBlank_append_trimEnd {s : List Char} (hs : ∀ c ∈ s, isBlank c = false)
    {rest : List Char} (hrest : ∀ c ∈ rest.head?, isBlank c = true) :
    ∃ behind, splitBlank (s ++ trimEnd rest) = (s, behind) ∧
      trim (behind.getD []) = trim rest := by
  rw [← trim_trimEnd rest]
  cases hend : trimEnd rest with
  | nil => exact ⟨none, by rw [List.append_nil, splitBlank_of_forall hs], rfl⟩
  | cons c behind =>
    have hc : isBlank c = true := by
      obtain ⟨more, hmore⟩ := hend ▸ trimEnd_prefix rest
      exact hrest c (by rw [← hmore]; rfl)
    refine ⟨some behind, splitBlank_append_cons hs hc behind, ?_⟩
    exact (trim_append_of_forall (s := [c]) (by simpa using hc) behind).symm

end KeySmith.Text

import KeySmith.Command.Export
import KeySmith.Proofs.Curve.Order
import KeySmith.Proofs.Ssh.LineFields

/-!
# Lists of authorized keys

An exported line is appended to a list of authorized keys, which is read line by line.  Only the end
of a comment is trimmed when it is written, so a comment with line feeds inside goes on in further
lines.  Where these are lines of other keys they are entries of the list like any other.
-/

namespace KeySmith

namespace Ssh.AuthorizedLine

/-- What is written of a comment. -/
def written (comment : String) : List Char :=
  Text.trimEnd comment.toList

/-! ### The lines of what is written for a key -/

/-- In front of the comment there is no white space other than a space. -/
theorem eq_space_of_mem_head {k : Key} {c : Char} (hc : Text.isBlank c = true) (h : c ∈ head k) :
    c = ' ' := by
  rcases List.mem_append.mp h with hname | hrest
  · rw [isBlank_of_mem_typeName hname] at hc
    cases hc
  rcases List.mem_cons.mp hrest with rfl | hblob
  · rfl
  · rw [(Pem.isContent_of_mem_encodeChars hblob).1] at hc
    cases hc

/-- White space other than a space comes from the comment. -/
theorem mem_encode_iff {c : Char} (hc : Text.isBlank c = true) (hne : c ≠ ' ') (k : Key)
    (comment : String) : c ∈ (encode k comment).toList ↔ c ∈ written comment := by
  have hhead : c ∉ head k := fun h => hne (eq_space_of_mem_head hc h)
  rw [toList_encode, written]
  split
  · rename_i hcomment
    simp [hcomment, hhead]
  · simp [hhead, hne]

/-- The first line of what is written holds the key, with the first line of the comment behind it, and
the other lines are those of the comment. -/
theorem exists_lines_encode (k : Key) (comment : String) :
    ∃ rest, Text.lines (encode k comment).toList =
        (head k ++ rest) :: (Text.lines (written comment)).tail ∧
      (∀ c ∈ rest.head?, Text.isBlank c = true) ∧
      Text.trim rest = Text.trim ((Text.lines (written comment)).headD []) := by
  have hfeed : '\n' ∉ head k ++ [' '] := by
    intro h
    rcases List.mem_append.mp h with hhead | hlast
    · exact absurd (eq_space_of_mem_head (by decide) hhead) (by decide)
    · exact absurd hlast (by decide)
  have hhead : head k ≠ [] := by simp [head]
  rw [toList_encode, written]
  split
  · rename_i hcomment
    refine ⟨[], ?_, by simp, by rw [hcomment]; rfl⟩
    have hlines := Text.lines_append_of_not_mem hhead (fun h => hfeed (List.mem_append_left _ h)) []
    rw [List.append_nil] at hlines
    rw [hcomment]
    exact hlines
  · refine ⟨' ' :: (Text.lines (Text.trimEnd comment.toList)).headD [], ?_, ?_, ?_⟩
    · rw [List.append_cons, Text.lines_append_of_not_mem (by simp) hfeed, ← List.append_cons]
    · rintro c ⟨rfl⟩
      exact Text.isBlank_space
    · exact Text.trim_append_of_forall (List.forall_mem_singleton.mpr Text.isBlank_space) _

theorem toList_encode_ne_nil (k : Key) (comment : String) : (encode k comment).toList ≠ [] := by
  obtain ⟨rest, hrest⟩ := exists_toList_encode k comment
  rw [hrest]
  exact List.append_ne_nil_of_left_ne_nil (toList_typeName_ne_nil k) rest

/-- What is written for a key does not end with a line feed. -/
theorem lines_encode_append_break (k : Key) (comment : String) :
    Text.lines ((encode k comment).toList ++ ['\n']) = Text.lines (encode k comment).toList := by
  refine Text.lines_append_break ?_ ?_
  · exact toList_encode_ne_nil k comment
  · intro hlast
    rw [encode, String.toList_ofList] at hlast
    exact absurd (Text.isBlank_of_mem_getLast?_trimEnd _ hlast) (by decide)

end Ssh.AuthorizedLine

namespace KeyList

open Ssh.AuthorizedLine

/-- The keys and the comments of those lines that can be read. -/
def entriesOf (lines : List (List Char)) : List (Key × String) :=
  lines.filterMap fun line => (decode (String.ofList line)).toOption

/-- The entries of a list of authorized keys. -/
def entries (list : List Char) : List (Key × String) :=
  entriesOf (Text.lines list)

variable {k : Key} {comment : String}

/-! ### Entries -/

theorem entriesOf_append (lines lines' : List (List Char)) :
    entriesOf (lines ++ lines') = entriesOf lines ++ entriesOf lines' :=
  List.filterMap_append

/-- A line that can be read is an entry. -/
theorem entriesOf_cons_of_ok {line : List Char} {p : Key × String}
    (h : decode (String.ofList line) = .ok p) (more : List (List Char)) :
    entriesOf (line :: more) = p :: entriesOf more :=
  List.filterMap_cons_some (by rw [h]; rfl)

/-- A line that cannot be read is no entry. -/
theorem entriesOf_cons_of_ne_ok {line : List Char}
    (h : ∀ p, decode (String.ofList line) ≠ .ok p) (more : List (List Char)) :
    entriesOf (line :: more) = entriesOf more := by
  refine List.filterMap_cons_none ?_
  cases hline : decode (String.ofList line) with
  | error e => rfl
  | ok p => exact absurd hline (h p)

/-- The entries of what is written for a key are its own, if it can be read, and those of the further
lines of the comment. -/
theorem entriesOf_lines_encode (k : Key) (comment : String) :
    (k.IsReadable → entriesOf (Text.lines (encode k comment).toList) =
      (k.toPublic, String.ofList (Text.trim ((Text.lines (written comment)).headD []))) ::
        entriesOf (Text.lines (written comment)).tail) ∧
    (¬ k.IsReadable → entriesOf (Text.lines (encode k comment).toList) =
      entriesOf (Text.lines (written comment)).tail) := by
  obtain ⟨rest, hlines, hrest, htrim⟩ := exists_lines_encode k comment
  have hdecode (p : Key × String) : decode (String.ofList (head k ++ rest)) = .ok p ↔
      k.IsReadable ∧ p = (k.toPublic, String.ofList (Text.trim rest)) := by
    rw [head, List.append_assoc, List.cons_append, decode_fields_eq_ok_iff Text.isBlank_space hrest]
  rw [hlines, ← htrim]
  constructor
  · intro hreadable
    exact entriesOf_cons_of_ok ((hdecode _).mpr ⟨hreadable, rfl⟩) _
  · intro hunreadable
    exact entriesOf_cons_of_ne_ok (fun p hp => hunreadable ((hdecode p).mp hp).1) _

/-- A comment may go on in a second line.  Where this is what is written for another key, the entries
of the other key follow. -/
theorem entriesOf_lines_encode_break {k : Key} (hk : k.IsReadable) {comment : String}
    (hcomment : '\n' ∉ comment.toList) (other : Key) (comment' : String) :
    entriesOf (Text.lines (encode k (comment ++ "\n" ++ encode other comment')).toList) =
      (k.toPublic, String.ofList (Text.trim comment.toList)) ::
        entriesOf (Text.lines (encode other comment').toList) := by
  have hend : Text.trimEnd (encode other comment').toList = (encode other comment').toList := by
    rw [encode, String.toList_ofList, Text.trimEnd_trimEnd]
  have hwritten : written (comment ++ "\n" ++ encode other comment') =
      comment.toList ++ '\n' :: (encode other comment').toList := by
    rw [written, String.toList_append, Text.trimEnd_append_of_ne_nil, hend, String.toList_append,
      List.append_assoc]
    · rfl
    · rw [hend]
      exact toList_encode_ne_nil other comment'
  rw [(entriesOf_lines_encode k _).1 hk, hwritten, Text.lines_append_cons hcomment, List.headD_cons,
    List.tail_cons]

/-- The lines of an exported line are those of what is written for the key. -/
theorem lines_export (k : Key) (comment : String) :
    Text.lines (encode k comment ++ "\n").toList = Text.lines (encode k comment).toList := by
  rw [String.toList_append]
  exact lines_encode_append_break k comment

/-! ### Appending an exported line -/

/-- The exported line of a key is appended to a list, which is empty or ends with a line feed.  The
line feeds and carriage returns of the line are those that stand in the comment when its end has been
trimmed.  Without a line feed there the list has one line more.  The entries that the list has more
are the one of the key, with the first line of the comment, and those of the other lines of the
comment; the one of the key can be read when its modulus, if it has one, has at most 4096 bits. -/
theorem entries_append_export (check : UInt32) (k : Key) (comment : String) (list : List Char)
    (hlist : list = [] ∨ list.getLast? = some '\n') :
    ∃ line, ExportFormat.encode check comment .authorized k = .ok (line ++ "\n") ∧
      (∀ c, c = '\n' ∨ c = '\r' → (c ∈ line.toList ↔ c ∈ written comment)) ∧
      (Text.lines (list ++ (line ++ "\n").toList) = Text.lines list ++ [line.toList] ↔
        '\n' ∉ written comment) ∧
      (k.IsReadable → entries (list ++ (line ++ "\n").toList) = entries list ++
        (k.toPublic, String.ofList
          (Text.trim ((Text.lines (written comment)).headD []))) ::
            entriesOf (Text.lines (written comment)).tail) ∧
      (¬ k.IsReadable → entries (list ++ (line ++ "\n").toList) =
        entries list ++ entriesOf (Text.lines (written comment)).tail) := by
  have hbreaks (c : Char) (hc : c = '\n' ∨ c = '\r') :
      c ∈ (encode k comment).toList ↔ c ∈ written comment := by
    rcases hc with rfl | rfl
    · exact mem_encode_iff (by decide) (by decide) k comment
    · exact mem_encode_iff (by decide) (by decide) k comment
  have hentries : entries (list ++ (encode k comment ++ "\n").toList) =
      entries list ++ entriesOf (Text.lines (encode k comment).toList) := by
    rw [entries, Text.lines_append hlist, lines_export, entriesOf_append, entries]
  obtain ⟨hreadable, hunreadable⟩ := entriesOf_lines_encode k comment
  refine ⟨encode k comment, rfl, hbreaks, ?_, ?_, ?_⟩
  · rw [Text.lines_append hlist, lines_export, List.append_cancel_left_eq, ← hbreaks '\n' (.inl rfl)]
    exact Text.lines_eq_singleton_iff (toList_encode_ne_nil k comment)
  · intro h
    rw [hentries, hreadable h]
  · intro h
    rw [hentries, hunreadable h]

/-- The line of the key with the modulus 15 becomes the only entry of a list with a comment line. -/
theorem entries_append_export_fifteen :
    ∃ text, ExportFormat.encode 0 "laptop" .authorized (.rsa .fifteen) = .ok text ∧
      entries ("# keys\n".toList ++ text.toList) = [(.rsa RsaKey.fifteen.toPublic, "laptop")] := by
  obtain ⟨line, hline, -, -, hentries, -⟩ :=
    entries_append_export 0 (.rsa .fifteen) "laptop" "# keys\n".toList (.inr (by decide))
  exact ⟨_, hline, hentries Key.isReadable_fifteen⟩

/-- The line of the key with the modulus 15 brings another key into a list. -/
theorem exists_entries_export_two :
    ∃ other comment text, EcKey.ofScalar? .p256 2 = some other ∧
      ExportFormat.encode 0 comment .authorized (.rsa .fifteen) = .ok text ∧
      entries text.toList =
        [(.rsa RsaKey.fifteen.toPublic, "laptop"), (.ecdsa other.toPublic, "")] := by
  obtain ⟨other, hother⟩ := EcKey.exists_ofScalar? .p256 (d := 2) (by decide) (by decide)
  refine ⟨other, "laptop" ++ "\n" ++ encode (.ecdsa other) "", _, hother, rfl, ?_⟩
  rw [entries, lines_export, entriesOf_lines_encode_break Key.isReadable_fifteen (by decide),
    (entriesOf_lines_encode _ _).1 (Key.isReadable_ecdsa other)]
  rfl

end KeyList

end KeySmith

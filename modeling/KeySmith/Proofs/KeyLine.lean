import KeySmith.Proofs.KeyFile
import KeySmith.Proofs.Ssh.AuthorizedLine

/-!
# Files with an authorized key line

A file is searched for the header of an armored block before it is taken for an authorized key line,
and the search does not stop at the comment.  So a comment decides how the file of its line is read:
without a header in it the line is read, and the comment has no further part in it; with a header the
block behind it is read in place of the line.
-/

namespace KeySmith.KeyFile

open Ssh

/-! ### Authorized key lines -/

/-- Whether a comment would make a file of its line one with an armored block: a header occurs in
what is written of the comment. -/
def HoldsHeader (comment : String) : Prop :=
  Text.contains Pem.beginMark (Text.trimEnd comment.toList) = true

instance (comment : String) : Decidable (HoldsHeader comment) :=
  inferInstanceAs (Decidable (_ = _))

/-- What follows the first header of a line follows the first header of its comment. -/
theorem map_snd_cut?_encode (k : Key) (comment : String) :
    (Text.cut? Pem.beginMark (AuthorizedLine.encode k comment).toList).map Prod.snd =
      (Text.cut? Pem.beginMark (Text.trimEnd comment.toList)).map Prod.snd := by
  have hspace : ∀ rest, (Text.cut? Pem.beginMark (' ' :: rest)).map Prod.snd =
      (Text.cut? Pem.beginMark rest).map Prod.snd := by
    intro rest
    have hnot : Pem.beginMark.isPrefixOf (' ' :: rest) = false := by
      rw [Pem.beginMark_eq]
      rfl
    rw [Text.cut?, hnot, if_neg Bool.false_ne_true, Option.map_map]
    rfl
  have hhead : ∀ behind, (Text.cut? Pem.beginMark (AuthorizedLine.head k ++ behind)).map Prod.snd =
      (Text.cut? Pem.beginMark behind).map Prod.snd := by
    intro behind
    rw [Pem.beginMark_eq, AuthorizedLine.cut?_head, Option.map_map]
    rfl
  rw [AuthorizedLine.toList_encode]
  split
  · rename_i hcomment
    have hblank := hhead []
    rwa [List.append_nil, ← hcomment] at hblank
  · exact (hhead _).trans (hspace _)

/-- A header occurs in the file of a line exactly when the comment holds one. -/
theorem occurs_encode_line (k : Key) (comment : String) :
    Pem.occurs (Text.toBytes (AuthorizedLine.encode k comment)) =
      Text.contains Pem.beginMark (Text.trimEnd comment.toList) := by
  have hcut := congrArg Option.isSome (map_snd_cut?_encode k comment)
  rw [Option.isSome_map, Option.isSome_map] at hcut
  rw [Pem.occurs_toBytes]
  exact hcut

/-- A comment with a header is all that matters of its line: the file is read as the comment would
be. -/
theorem decode_line_of_holdsHeader (k : Key) {comment : String} (h : HoldsHeader comment) :
    decode (Text.toBytes (AuthorizedLine.encode k comment)) =
      decode (Text.toBytes (String.ofList (Text.trimEnd comment.toList))) := by
  have hline : Pem.occurs (Text.toBytes (AuthorizedLine.encode k comment)) = true :=
    (occurs_encode_line k comment).trans h
  have hcomment :
      Pem.occurs (Text.toBytes (String.ofList (Text.trimEnd comment.toList))) = true := by
    rw [Pem.occurs_toBytes, String.toList_ofList]
    exact h
  have hblock : Pem.decode (Text.toBytes (AuthorizedLine.encode k comment)) =
      Pem.decode (Text.toBytes (String.ofList (Text.trimEnd comment.toList))) := by
    rw [Pem.decode, Pem.decode, Text.ofBytes?_toBytes, Text.ofBytes?_toBytes]
    refine Pem.decodeText_congr ?_
    rw [String.toList_ofList]
    exact map_snd_cut?_encode k comment
  simp only [decode, decodeClass, block, hline, hcomment, hblock, if_true]

/-- Without a header in its comment the file of a line is read as the line. -/
theorem decode_line_of_not_holdsHeader (k : Key) {comment : String} (h : ¬ HoldsHeader comment) :
    decode (Text.toBytes (AuthorizedLine.encode k comment)) =
      Prod.fst <$> AuthorizedLine.decode (AuthorizedLine.encode k comment) := by
  have hoccurs : Pem.occurs (Text.toBytes (AuthorizedLine.encode k comment)) = false :=
    (occurs_encode_line k comment).trans (Bool.not_eq_true _ ▸ h)
  have hline : line? (Text.toBytes (AuthorizedLine.encode k comment)) =
      some (AuthorizedLine.encode k comment) := by
    rw [line?, Text.ofBytes?_toBytes]
    exact Option.filter_some_pos (AuthorizedLine.isLine_encode k comment)
  rw [decode, decodeClass, hoccurs, if_neg Bool.false_ne_true, hline]
  rfl

/-- A comment that is the text of a block in itself: the file of the line is read as this block. -/
theorem decode_line_armor (k : Key) (form : Form) (contents : Bytes) :
    decode (Text.toBytes (AuthorizedLine.encode k (armor form contents))) =
      form.parse contents := by
  have htrim : Text.trimEnd (armor form contents).toList =
      Pem.Block.frame ⟨form.label, contents⟩ :=
    Pem.trimEnd_encode ⟨form.label, contents⟩
  have hheader : HoldsHeader (armor form contents) := by
    rw [HoldsHeader, htrim]
    exact Pem.contains_frame ⟨form.label, contents⟩
  have hoccurs : Pem.occurs (Text.toBytes (String.ofList
      (Pem.Block.frame ⟨form.label, contents⟩))) = true := by
    rw [Pem.occurs_toBytes, String.toList_ofList]
    exact Pem.contains_frame ⟨form.label, contents⟩
  have hblock : block (Text.toBytes (String.ofList
      (Pem.Block.frame ⟨form.label, contents⟩))) = .ok ⟨form.label, contents⟩ := by
    have hread := Pem.decodeText_frame_append (b := ⟨form.label, contents⟩) form.isLabel_label []
    rw [List.append_nil] at hread
    rw [block, Pem.decode, Text.ofBytes?_toBytes]
    simp only [String.toList_ofList, hread, Result.of_ok]
  rw [decode_line_of_holdsHeader k hheader, htrim, decode, decodeClass, if_pos hoccurs, hblock]
  exact ofBlock_label form contents

/-- What is read from the file of an authorized key line.  The line is written for a key with a
comment, and gives the public half of the key exactly when its modulus, if it has one, has at most
4096 bits.  A comment that holds a header takes the place of the line: the file is then read as the
comment would be, whatever the key is. -/
theorem decode_line (k : Key) (comment : String) :
    (¬ HoldsHeader comment →
      (decode (Text.toBytes (AuthorizedLine.encode k comment)) = .ok k.toPublic ↔ k.IsReadable)) ∧
    (HoldsHeader comment →
      decode (Text.toBytes (AuthorizedLine.encode k comment)) =
        decode (Text.toBytes (String.ofList (Text.trimEnd comment.toList)))) := by
  constructor
  · intro h
    rw [decode_line_of_not_holdsHeader k h]
    exact AuthorizedLine.fst_decode_encode_iff k comment
  · exact decode_line_of_holdsHeader k

/-- The line of the key with the modulus 15 is read back with a comment in letters of two octets and
white space behind them.  With the start of a header in its comment the file is read as the comment
is. -/
theorem decode_line_fifteen :
    ¬ HoldsHeader "сервер \t" ∧
      decode (Text.toBytes (AuthorizedLine.encode (.rsa .fifteen) "сервер \t")) =
        .ok (.rsa RsaKey.fifteen.toPublic) ∧
      HoldsHeader "-----BEGIN key \n" ∧
      decode (Text.toBytes (AuthorizedLine.encode (.rsa .fifteen) "-----BEGIN key \n")) =
        decode (Text.toBytes "-----BEGIN key") := by
  have hplain : ¬ HoldsHeader "сервер \t" := by decide
  have hheader : HoldsHeader "-----BEGIN key \n" := by decide
  have hreadable : (Key.rsa .fifteen).IsReadable := by
    rw [Key.isReadable_rsa]
    cbv
  refine ⟨hplain, ?_, hheader, ?_⟩
  · exact ((decode_line (.rsa .fifteen) "сервер \t").1 hplain).mpr hreadable
  · have htrim : String.ofList (Text.trimEnd "-----BEGIN key \n".toList) = "-----BEGIN key" := by
      decide
    rw [← htrim]
    exact (decode_line (.rsa .fifteen) "-----BEGIN key \n").2 hheader

/-- A comment with the start of a header keeps the line of a key from being read, and a comment with
the private file of a key makes it be read as the private key. -/
theorem decode_line_ne :
    decode (Text.toBytes (AuthorizedLine.encode (.rsa .fifteen) "laptop -----BEGIN here")) =
        .error (.malformed (.pem .unterminatedHeader)) ∧
      ∃ comment, decode (Text.toBytes (AuthorizedLine.encode (.rsa .fifteen) comment)) =
        .ok (.rsa .fifteen) := by
  constructor
  · rw [decode_line_of_holdsHeader _ (by decide)]
    rfl
  · obtain ⟨body, hbody⟩ : ∃ body, Der.Pkcs1.encodePrivate .fifteen = .ok body :=
      exists_eq_ok (by decide +kernel)
    refine ⟨armor .rsaPrivate body, ?_⟩
    rw [decode_line_armor]
    exact map_eq_ok_iff.mpr ⟨_, Der.Pkcs1.decodePrivate_encodePrivate hbody, rfl⟩

end KeySmith.KeyFile

import KeySmith.Pem
import KeySmith.Proofs.Strict.Run
import KeySmith.Proofs.Text

/-!
# Reading armored blocks in bounds

The places of a text are counted in octets of its UTF-8 form, and a text may be cut only where a
character starts or where it ends.  The header and the footer of a block are searched for, which
gives the octet of their first character, so the cuts at the footer and behind the mark that starts
the header are never inside a character.
-/

namespace KeySmith.Strict

/-! ### Cutting texts -/

/-- The octets of a text in UTF-8. -/
def octets (text : List Char) : Bytes :=
  Text.toBytes (String.ofList text)

@[simp] theorem octets_append (a b : List Char) : octets (a ++ b) = octets a ++ octets b := by
  rw [octets, Text.toBytes_ofList, List.flatMap_append, ← Text.toBytes_ofList,
    ← Text.toBytes_ofList, octets, octets]

@[simp] theorem octets_toList (s : String) : octets s.toList = Text.toBytes s := by
  rw [octets, String.ofList_toList]

/-- Texts are told apart by their octets. -/
theorem octets_injective {a b : List Char} (h : octets a = octets b) : a = b :=
  String.ofList_injective (Text.toBytes_injective h)

/-- The texts before an octet of a text and from it on. Both have to be texts, which they are where
the octet is the first one of a character or the end. -/
def splitText? (place : Nat) (text : List Char) : Option (List Char × List Char) := do
  let (before, behind) ← splitAt? place (octets text)
  return ((← Text.ofBytes? before).toList, (← Text.ofBytes? behind).toList)

/-- A text is cut exactly at the octet that some of its characters reach up to. -/
theorem splitText?_eq_some_iff {place : Nat} {text before behind : List Char} :
    splitText? place text = some (before, behind) ↔
      text = before ++ behind ∧ (octets before).length = place := by
  constructor
  · intro h
    unfold splitText? at h
    simp only [Option.bind_eq_bind, Option.bind_eq_some_iff] at h
    obtain ⟨⟨a, b⟩, hsplit, s, hs, t, ht, heq⟩ := h
    cases heq
    obtain ⟨hle, hparts⟩ := Option.ite_none_right_eq_some.mp hsplit
    obtain ⟨htake, hdrop⟩ := Prod.mk.inj (Option.some.inj hparts)
    have hbefore : octets s.toList = (octets text).take place := by
      rw [octets_toList, htake]
      exact (Text.ofBytes?_eq_some_iff.mp hs).symm
    have hbehind : octets t.toList = (octets text).drop place := by
      rw [octets_toList, hdrop]
      exact (Text.ofBytes?_eq_some_iff.mp ht).symm
    constructor
    · apply octets_injective
      rw [octets_append, hbefore, hbehind, List.take_append_drop]
    · rw [hbefore, List.length_take, Nat.min_eq_left hle]
  · rintro ⟨rfl, rfl⟩
    have hsplit : splitAt? (octets before).length (octets before ++ octets behind) =
        some (octets before, octets behind) := by
      rw [splitAt?_of_le (by simp), List.take_left, List.drop_left]
    rw [splitText?, octets_append, hsplit]
    simp [octets]

/-- The octet at which a mark occurs for the first time. -/
def find? (mark : List Char) : List Char → Option Nat
  | [] => if mark.isEmpty then some 0 else none
  | c :: rest =>
    if mark.isPrefixOf (c :: rest) then some 0
    else (find? mark rest).map ((octets [c]).length + ·)

/-- What stands before the first occurrence of a mark reaches up to the octet of it. -/
theorem find?_eq (mark text : List Char) :
    find? mark text = (Text.cut? mark text).map fun p => (octets p.1).length := by
  induction text with
  | nil =>
    unfold find? Text.cut?
    split <;> rfl
  | cons c rest ih =>
    unfold find? Text.cut?
    split
    · rfl
    · rw [ih, Option.map_map, Option.map_map]
      congr 1
      funext p
      change (octets [c]).length + (octets p.1).length = (octets ([c] ++ p.1)).length
      rw [octets_append, List.length_append]

/-! ### Blocks -/

namespace Pem

open KeySmith.Pem (Block beginMark endMark dashes joinLines)

/-- Reads the first block of a text, which is cut at octets. -/
def decodeText (text : List Char) : Run PemFault Block := do
  let some start := find? beginMark text | throw .noBlock
  let (_, afterMark) ← splitText? (start + (octets beginMark).length) text
  let some (label, afterHeader) := Text.cut? dashes afterMark | throw .unterminatedHeader
  if label.isEmpty || label.contains '\n' || label.contains '\r' then throw .invalidLabel
  let some stop := find? (endMark ++ label ++ dashes) afterHeader
    | throw (.missingFooter (String.ofList label))
  let (body, _) ← splitText? stop afterHeader
  let encoded ← joinLines (Text.lines body)
  match Base64.decodeText Base64.standard (String.ofList encoded) with
  | .error fault => throw (.body fault)
  | .ok contents => return ⟨String.ofList label, contents⟩

/-- Reads the first block of a file. -/
def decode (bs : Bytes) : Run PemFault Block :=
  match Text.ofBytes? bs with
  | none => throw .notUtf8
  | some text => decodeText text.toList

/-- Reading the first block of a text cuts it between characters. -/
theorem decodeText_agrees (text : List Char) :
    Agrees (decodeText text) (KeySmith.Pem.decodeText text) := by
  unfold decodeText KeySmith.Pem.decodeText
  rw [find?_eq]
  cases hmark : Text.cut? beginMark text with
  | none => exact .throw _
  | some cut =>
    obtain ⟨before, afterMark⟩ := cut
    have hstart : splitText? ((octets before).length + (octets beginMark).length) text =
        some (before ++ beginMark, afterMark) := by
      rw [splitText?_eq_some_iff, Text.eq_append_of_cut? hmark]
      simp
    refine .step hstart ?_
    dsimp only
    cases hheader : Text.cut? dashes afterMark with
    | none => exact .throw _
    | some cut =>
      obtain ⟨label, afterHeader⟩ := cut
      refine .guard fun _ => ?_
      rw [find?_eq]
      cases hfooter : Text.cut? (endMark ++ label ++ dashes) afterHeader with
      | none => exact .throw _
      | some cut =>
        obtain ⟨body, behind⟩ := cut
        have hstop : splitText? (octets body).length afterHeader =
            some (body, endMark ++ label ++ dashes ++ behind) := by
          rw [splitText?_eq_some_iff]
          exact ⟨Text.eq_append_of_cut? hfooter, rfl⟩
        refine .step hstop ?_
        refine .bind (.lift _) fun encoded _ => ?_
        cases Base64.decodeText Base64.standard (String.ofList encoded) with
        | error fault => exact .throw _
        | ok contents => exact .pure _

/-- Reading the first block of a file stays in bounds. -/
theorem decode_agrees (bs : Bytes) : Agrees (decode bs) (KeySmith.Pem.decode bs) := by
  unfold decode KeySmith.Pem.decode
  cases Text.ofBytes? bs with
  | none => exact .throw _
  | some text => exact decodeText_agrees text.toList

end Pem

end KeySmith.Strict

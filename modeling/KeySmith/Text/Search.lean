import KeySmith.Text.Blank

/-!
# Cutting text into parts

Text is cut at the first occurrence of a mark, into lines, or at white space.
-/

namespace KeySmith.Text

/-- What stands before and after the first occurrence of `mark`, if there is one. -/
def cut? (mark : List Char) : List Char → Option (List Char × List Char)
  | [] => if mark.isEmpty then some ([], []) else none
  | c :: rest =>
    if mark.isPrefixOf (c :: rest) then some ([], (c :: rest).drop mark.length)
    else (cut? mark rest).map fun (before, after) => (c :: before, after)

/-- Whether `mark` occurs in the text. -/
def contains (mark text : List Char) : Bool :=
  (cut? mark text).isSome

/-- The lines of a text. A line feed ends a line and belongs to none; what follows the last line
feed is a line unless it is empty. -/
def lines : List Char → List (List Char)
  | [] => []
  | c :: rest =>
    if c = '\n' then [] :: lines rest
    else match lines rest with
      | [] => [[c]]
      | line :: more => (c :: line) :: more

/-- The text before the first white space, and what follows that one character. A text without
white space has no second part. -/
def splitBlank (s : List Char) : List Char × Option (List Char) :=
  (s.takeWhile (!isBlank ·),
    match s.dropWhile (!isBlank ·) with
    | [] => none
    | _ :: rest => some rest)

end KeySmith.Text

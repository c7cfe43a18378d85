import KeySmith.Base64
import KeySmith.Error
import KeySmith.Text.Quoted
import KeySmith.Text.Search

/-!
# Armored blocks

An armored block is a header line with a label, the contents in Base64 and a footer line with the
same label. Reading takes the first block of a text; what stands before it, behind it and around its
lines does not matter.
-/

namespace KeySmith.Pem

/-- The contents of an armored block and the label that tells what they are. -/
structure Block where
  label : String
  contents : Bytes
deriving DecidableEq

/-- What a header starts with. -/
def beginMark : List Char :=
  "-----BEGIN ".toList

/-- What a footer starts with. -/
def endMark : List Char :=
  "-----END ".toList

/-- What ends a header and a footer. -/
def dashes : List Char :=
  "-----".toList

/-- The columns of a line of the contents. -/
def lineWidth : Nat :=
  64

/-! ### Reading -/

/-- Whether octets start with a text that is ASCII. -/
def startsWith (mark : List Char) (bs : Bytes) : Bool :=
  (mark.map fun c => c.toNat.toUInt8).isPrefixOf bs

/-- Whether a header occurs in a file, which need not be text. -/
def occurs : Bytes → Bool
  | [] => false
  | b :: rest => startsWith beginMark (b :: rest) || occurs rest

/-- The Base64 text in the lines of a body. Blank lines are passed over, and a colon is refused. -/
def joinLines : List (List Char) → Except PemFault (List Char)
  | [] => .ok []
  | line :: more =>
    let content := Text.trim line
    if content.isEmpty then joinLines more
    else if content.contains ':' then .error .headerLine
    else do
      let rest ← joinLines more
      return content ++ rest

/-- Reads the first block of a text. -/
def decodeText (text : List Char) : Except PemFault Block := do
  let some (_, afterMark) := Text.cut? beginMark text | throw .noBlock
  let some (label, afterHeader) := Text.cut? dashes afterMark | throw .unterminatedHeader
  if label.isEmpty || label.contains '\n' || label.contains '\r' then throw .invalidLabel
  let some (body, _) := Text.cut? (endMark ++ label ++ dashes) afterHeader
    | throw (.missingFooter (String.ofList label))
  let encoded ← joinLines (Text.lines body)
  match Base64.decodeText Base64.standard (String.ofList encoded) with
  | .error fault => throw (.body fault)
  | .ok contents => return ⟨String.ofList label, contents⟩

/-- Reads the first block of a file. -/
def decode (bs : Bytes) : Except PemFault Block :=
  match Text.ofBytes? bs with
  | none => .error .notUtf8
  | some text => decodeText text.toList

/-! ### Writing -/

/-- Ends every run of `width` characters, the first one of `left`, by a line feed; a shorter run at
the end is ended too. -/
def wrap (width : Nat) : (left : Nat) → List Char → List Char
  | left, [] => if left = width then [] else ['\n']
  | 0, c :: rest => '\n' :: c :: wrap width (width - 1) rest
  | left + 1, c :: rest => c :: wrap width left rest

/-- The characters of a block. -/
def Block.chars (b : Block) : List Char :=
  beginMark ++ b.label.toList ++ dashes ++ '\n' ::
    (wrap lineWidth lineWidth (Base64.encodeChars Base64.standard b.contents)
      ++ endMark ++ b.label.toList ++ dashes ++ ['\n'])

/-- The text of a block. -/
def Block.encode (b : Block) : String :=
  String.ofList b.chars

/-- A description of a block for logs. It tells of the contents only how long they are. -/
def Block.describe (b : Block) : String :=
  "PemBlock \x7b label: " ++ Text.quoted b.label ++ ", len: " ++ toString b.contents.length
    ++ " \x7d"

end KeySmith.Pem

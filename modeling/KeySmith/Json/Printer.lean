import KeySmith.Json.Value

/-!
# Writing JSON

The objects that are written hold texts and numbers only. They are written on one line without
spaces, or with a line for each member.
-/

namespace KeySmith.Json

/-- A value that is written without brackets. -/
inductive Scalar where
  | text (s : String)
  | natural (n : Nat)

/-- A digit to base 16. -/
def hexDigit (n : Nat) : Char :=
  if n < 10 then Char.ofNat (48 + n) else Char.ofNat (87 + n)

/-- A character inside a string. The quotation mark, the backslash and control characters are
escaped. -/
def escapeChar (c : Char) : List Char :=
  match c with
  | '"' => ['\\', '"']
  | '\\' => ['\\', '\\']
  | '\x08' => ['\\', 'b']
  | '\x0c' => ['\\', 'f']
  | '\n' => ['\\', 'n']
  | '\r' => ['\\', 'r']
  | '\t' => ['\\', 't']
  | c =>
    if c.toNat < 0x20 then ['\\', 'u', '0', '0', hexDigit (c.toNat / 16), hexDigit (c.toNat % 16)]
    else [c]

/-- A string with its quotation marks. -/
def quoteChars (cs : List Char) : List Char :=
  '"' :: (cs.flatMap escapeChar ++ ['"'])

/-- The characters of a scalar. -/
def Scalar.chars : Scalar → List Char
  | text s => quoteChars s.toList
  | natural n => Nat.toDigits 10 n

/-- An object whose members are separated by `separator` and start after `colon`. -/
def objectChars (opening separator closing colon : List Char) (members : List (String × Scalar)) :
    List Char :=
  opening ++ List.intercalate separator
    (members.map fun (name, v) => quoteChars name.toList ++ colon ++ v.chars) ++ closing

/-- An object on one line. -/
def compact (members : List (String × Scalar)) : String :=
  String.ofList (objectChars ['\x7b'] [','] ['\x7d'] [':'] members)

/-- An object with a line for each of its members, of which there is at least one. -/
def pretty (members : List (String × Scalar)) : String :=
  String.ofList
    (objectChars ['\x7b', '\n', ' ', ' '] [',', '\n', ' ', ' '] ['\n', '\x7d'] [':', ' '] members)

end KeySmith.Json

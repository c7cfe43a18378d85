import KeySmith.Text.Printable

/-!
# Quoted text

A quoted text shows its characters between quotation marks so that each of them can be told: the
mark itself and the backslash follow a backslash, the usual control characters have letters, and
every other character without an appearance is shown by its code in braces.
-/

namespace KeySmith.Text

/-- The digits of `n` to base 16, in lower case. -/
def hexDigits (n : Nat) : String :=
  String.ofList (Nat.toDigits 16 n)

/-- One character inside quotation marks `mark`. -/
def quotedChar (mark c : Char) : String :=
  match c with
  | '\x00' => "\\0"
  | '\t' => "\\t"
  | '\r' => "\\r"
  | '\n' => "\\n"
  | '\\' => "\\\\"
  | c =>
    if c = mark then String.ofList ['\\', c]
    else if isPrintable c then String.singleton c
    else "\\u\x7b" ++ hexDigits c.toNat ++ "\x7d"

/-- A text between double quotation marks. -/
def quoted (s : String) : String :=
  "\"" ++ String.join (s.toList.map (quotedChar '"')) ++ "\""

/-- A character between single quotation marks. -/
def quotedSingle (c : Char) : String :=
  "'" ++ quotedChar '\'' c ++ "'"

end KeySmith.Text

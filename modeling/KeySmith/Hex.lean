import KeySmith.Bytes
import KeySmith.Text.Utf8
import KeySmith.Text.Quoted

/-!
# Hexadecimal text

Each octet is two digits, the high one first. Writing uses lower case, reading takes both.
-/

namespace KeySmith.Hex

/-- Why a text is not hexadecimal. -/
inductive Fault where
  /-- The last octet has one digit only. -/
  | oddLength
  /-- An octet that is no digit, and its place. -/
  | invalidDigit (octet : UInt8) (place : Nat)
deriving DecidableEq

/-- What is said of a fault. The octet is shown as the character with its number. -/
def Fault.message : Fault → String
  | oddLength => "Odd number of digits"
  | invalidDigit octet place =>
    s!"Invalid character {Text.quotedSingle (Char.ofNat octet.toNat)} at position {place}"

/-- The digit of a number below 16. -/
def digit (n : UInt8) : Char :=
  if n < 10 then Char.ofNat (48 + n.toNat) else Char.ofNat (87 + n.toNat)

/-- The value of a digit, given by its octet. -/
def value? (b : UInt8) : Option UInt8 :=
  if 48 ≤ b && b ≤ 57 then some (b - 48)
  else if 97 ≤ b && b ≤ 102 then some (b - 87)
  else if 65 ≤ b && b ≤ 70 then some (b - 55)
  else none

/-- The digits of an octet string. -/
def encodeChars (bs : Bytes) : List Char :=
  bs.flatMap fun (b : UInt8) => [digit (b >>> 4), digit (b &&& 15)]

/-- The digits of an octet string, as text. -/
def encode (bs : Bytes) : String :=
  String.ofList (encodeChars bs)

/-- The value of the digit at a place. -/
def valueAt (place : Nat) (b : UInt8) : Except Fault UInt8 :=
  match value? b with
  | some v => .ok v
  | none => .error (.invalidDigit b place)

/-- Reads pairs of digits, the first of them at `place`. -/
def decodeFrom (place : Nat) : Bytes → Except Fault Bytes
  | high :: low :: rest => do
    let h ← valueAt place high
    let l ← valueAt (place + 1) low
    return (h <<< 4 ||| l) :: (← decodeFrom (place + 2) rest)
  | _ => .ok []

/-- The octets that a text, given in UTF-8, writes in hexadecimal. -/
def decode (digits : Bytes) : Except Fault Bytes :=
  if digits.length % 2 = 1 then .error .oddLength else decodeFrom 0 digits

/-- The octets that a text writes in hexadecimal. -/
def decodeText (s : String) : Except Fault Bytes :=
  decode (Text.toBytes s)

end KeySmith.Hex

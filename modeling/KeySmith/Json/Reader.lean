import KeySmith.Json.Value

/-!
# Reading JSON

The readers take their part from the front of the characters and return the rest. White space is the
four characters that JSON allows, a number has no superfluous zeros, control characters inside
strings have to be escaped, and nothing may follow the value.
-/

namespace KeySmith.Json

/-- Takes what it needs from the front of a text. -/
def Reader (α : Type) : Type :=
  List Char → Option (α × List Char)

/-- Whether a character is white space between the parts of a text. -/
def isSpace (c : Char) : Bool :=
  c == ' ' || c == '\n' || c == '\t' || c == '\r'

/-- The text without its leading white space. -/
def skipSpace (s : List Char) : List Char :=
  s.dropWhile isSpace

/-! ### Numbers -/

/-- Reads one digit or more. -/
def digits : Reader (List Char) :=
  fun s =>
    let ds := s.takeWhile Char.isDigit
    if ds.isEmpty then none else some (ds, s.dropWhile Char.isDigit)

/-- Reads digits that do not start with zero unless they are zero. -/
def integerPart : Reader (List Char)
  | '0' :: rest => if (rest.headD ' ').isDigit then none else some (['0'], rest)
  | s => digits s

/-- Reads a point and the digits behind it, if there is one. -/
def fractionPart : Reader (List Char)
  | '.' :: rest => (digits rest).map fun (ds, more) => ('.' :: ds, more)
  | s => some ([], s)

/-- Reads the sign of an exponent, if there is one. -/
def exponentSign : List Char → List Char × List Char
  | '+' :: rest => (['+'], rest)
  | '-' :: rest => (['-'], rest)
  | s => ([], s)

/-- Reads an exponent, if there is one. -/
def exponentPart : Reader (List Char)
  | c :: rest =>
    if c = 'e' ∨ c = 'E' then
      let (sign, more) := exponentSign rest
      (digits more).map fun (ds, end') => (c :: sign ++ ds, end')
    else some ([], c :: rest)
  | [] => some ([], [])

/-- Reads a number without its sign. -/
def unsigned : Reader (List Char) := fun s => do
  let (whole, s) ← integerPart s
  let (fraction, s) ← fractionPart s
  let (exponent, s) ← exponentPart s
  return (whole ++ fraction ++ exponent, s)

/-- Reads a number. -/
def number : Reader Value
  | '-' :: rest => (unsigned rest).map fun (cs, more) => (.number ('-' :: cs), more)
  | s => (unsigned s).map fun (cs, more) => (.number cs, more)

/-! ### Strings -/

/-- The value of a hexadecimal digit. -/
def hexValue? (c : Char) : Option Nat :=
  if '0' ≤ c ∧ c ≤ '9' then some (c.toNat - 48)
  else if 'a' ≤ c ∧ c ≤ 'f' then some (c.toNat - 87)
  else if 'A' ≤ c ∧ c ≤ 'F' then some (c.toNat - 55)
  else none

/-- Reads four hexadecimal digits. -/
def fourDigits : Reader Nat
  | a :: b :: c :: d :: rest => do
    let a ← hexValue? a
    let b ← hexValue? b
    let c ← hexValue? c
    let d ← hexValue? d
    return (((a * 16 + b) * 16 + c) * 16 + d, rest)
  | _ => none

/-- The character of an escape with one letter. -/
def shortEscape? : Char → Option Char
  | '"' => some '"'
  | '\\' => some '\\'
  | '/' => some '/'
  | 'b' => some '\x08'
  | 'f' => some '\x0c'
  | 'n' => some '\n'
  | 'r' => some '\r'
  | 't' => some '\t'
  | _ => none

/-- A unit of a string: a character, or a number that an escape gives. -/
inductive Piece where
  | char (c : Char)
  | unit (n : Nat)

/-- Reads the pieces of a string up to the closing quotation mark. -/
def pieces : (fuel : Nat) → Reader (List Piece)
  | 0, _ => none
  | _, [] => none
  | _, '"' :: rest => some ([], rest)
  | fuel + 1, '\\' :: 'u' :: rest => do
    let (n, rest) ← fourDigits rest
    let (more, rest) ← pieces fuel rest
    return (.unit n :: more, rest)
  | fuel + 1, '\\' :: e :: rest => do
    let c ← shortEscape? e
    let (more, rest) ← pieces fuel rest
    return (.char c :: more, rest)
  | fuel + 1, c :: rest =>
    if c.toNat < 0x20 ∨ c = '\\' then none
    else (pieces fuel rest).map fun (more, rest) => (.char c :: more, rest)

/-- Whether a number is the first half of a surrogate pair. -/
def isHighHalf (n : Nat) : Bool :=
  0xd800 ≤ n && n < 0xdc00

/-- Whether a number is the second half of a surrogate pair. -/
def isLowHalf (n : Nat) : Bool :=
  0xdc00 ≤ n && n < 0xe000

/-- The text of the pieces, if every half of a surrogate pair stands beside its other half. -/
def piecesText? : List Piece → Option (List Char)
  | [] => some []
  | .char c :: rest => (piecesText? rest).map (c :: ·)
  | .unit n :: .unit m :: rest =>
    if isHighHalf n then
      if isLowHalf m then
        (piecesText? rest).map (Char.ofNat (0x10000 + (n - 0xd800) * 0x400 + (m - 0xdc00)) :: ·)
      else none
    else if isLowHalf n then none
    else (piecesText? (.unit m :: rest)).map (Char.ofNat n :: ·)
  | .unit n :: rest =>
    if isHighHalf n || isLowHalf n then none else (piecesText? rest).map (Char.ofNat n :: ·)

/-- Reads what follows the opening quotation mark of a string. -/
def stringBody : Reader (Option (List Char)) :=
  fun s => (pieces (s.length + 1) s).map fun (ps, rest) => (piecesText? ps, rest)

/-! ### Values -/

/-- Reads a word. -/
def word (w : List Char) (v : Value) : Reader Value :=
  fun s => if w.isPrefixOf s then some (v, s.drop w.length) else none

mutual

/-- Reads a value. The fuel bounds the number of values, elements and members. -/
def value : (fuel : Nat) → Reader Value
  | 0, _ => none
  | fuel + 1, s =>
    match skipSpace s with
    | [] => none
    | 'n' :: rest => word "ull".toList .null rest
    | 't' :: rest => word "rue".toList (.bool true) rest
    | 'f' :: rest => word "alse".toList (.bool false) rest
    | '"' :: rest => (stringBody rest).map fun (t, more) => (.string t, more)
    | '[' :: rest =>
      match skipSpace rest with
      | ']' :: more => some (.array [], more)
      | _ => (elements fuel rest).map fun (vs, more) => (.array vs, more)
    | '\x7b' :: rest =>
      match skipSpace rest with
      | '\x7d' :: more => some (.object [], more)
      | _ => (memberList fuel rest).map fun (ms, more) => (.object ms, more)
    | c :: rest => number (c :: rest)

/-- Reads the elements of an array up to its closing bracket. -/
def elements : (fuel : Nat) → Reader (List Value)
  | 0, _ => none
  | fuel + 1, s =>
    match value fuel s with
    | none => none
    | some (v, rest) =>
      match skipSpace rest with
      | ']' :: more => some ([v], more)
      | ',' :: more => (elements fuel more).map fun (vs, end') => (v :: vs, end')
      | _ => none

/-- Reads the members of an object up to its closing brace. -/
def memberList : (fuel : Nat) → Reader (List (Option (List Char) × Value))
  | 0, _ => none
  | fuel + 1, s =>
    match skipSpace s with
    | '"' :: rest =>
      match stringBody rest with
      | none => none
      | some (name, rest) =>
        match skipSpace rest with
        | ':' :: rest =>
          match value fuel rest with
          | none => none
          | some (v, rest) =>
            match skipSpace rest with
            | '\x7d' :: more => some ([(name, v)], more)
            | ',' :: more => (memberList fuel more).map fun (ms, end') => ((name, v) :: ms, end')
            | _ => none
        | _ => none
    | _ => none

end

/-- Reads a whole text. -/
def parse (s : String) : Except Fault Value :=
  let cs := s.toList
  match value (2 * cs.length + 2) cs with
  | some (v, rest) => if (skipSpace rest).isEmpty then .ok v else .error .malformed
  | none => .error .malformed

end KeySmith.Json

import KeySmith.Bytes
import KeySmith.Text.Utf8

/-!
# Base64

Three octets are written as four symbols of six bits each. A `Variant` fixes the symbols for 62 and
63 and whether the last group is filled up with `=`: `standard` is the form of armored keys and
ciphertexts, `url` the form of JSON Web Keys. Reading is strict: the filling has to be the one that
writing produces, and bits that carry nothing have to be zero, so each octet string has one form.
-/

namespace KeySmith.Base64

/-- The two free choices of the encoding. -/
structure Variant where
  /-- The symbol for 62. -/
  symbol62 : UInt8
  /-- The symbol for 63. -/
  symbol63 : UInt8
  /-- Whether the last group is filled up to four symbols. -/
  padded : Bool
deriving DecidableEq

/-- The symbols `+` and `/`, with filling. -/
def standard : Variant := ⟨43, 47, true⟩

/-- The symbols `-` and `_`, without filling. -/
def url : Variant := ⟨45, 95, false⟩

/-- Why a text is not Base64. -/
inductive Fault where
  | invalidSymbol (octet : UInt8) (offset : Nat)
  | invalidLength (length : Nat)
  | invalidPadding
  /-- The last symbol has bits that no octet holds. -/
  | invalidLastSymbol (octet : UInt8) (offset : Nat)
deriving DecidableEq

/-- What is said of a fault. -/
def Fault.message : Fault → String
  | invalidSymbol octet offset => s!"Invalid symbol {octet.toNat}, offset {offset}."
  | invalidLength length => s!"Invalid input length: {length}"
  | invalidPadding => "Invalid padding"
  | invalidLastSymbol octet offset => s!"Invalid last symbol {octet.toNat}, offset {offset}."

/-- The filling symbol `=`. -/
def pad : UInt8 := 61

/-! ### Symbols -/

/-- The symbol for a number below 64. -/
def symbol (v : Variant) (n : UInt8) : UInt8 :=
  if n < 26 then n + 65
  else if n < 52 then n + 71
  else if n < 62 then n - 4
  else if n = 62 then v.symbol62
  else v.symbol63

/-- The number that a symbol stands for. -/
def value? (v : Variant) (b : UInt8) : Option UInt8 :=
  if 65 ≤ b && b ≤ 90 then some (b - 65)
  else if 97 ≤ b && b ≤ 122 then some (b - 71)
  else if 48 ≤ b && b ≤ 57 then some (b + 4)
  else if b = v.symbol62 then some 62
  else if b = v.symbol63 then some 63
  else none

/-! ### Writing -/

/-- The filling of a last group that lacks `n` symbols. -/
def filling (v : Variant) (n : Nat) : Bytes :=
  if v.padded then List.replicate n pad else []

/-- The symbols of an octet string. -/
def encodeBytes (v : Variant) : Bytes → Bytes
  | a :: b :: c :: rest =>
    symbol v (a >>> 2) :: symbol v ((a &&& 3) <<< 4 ||| b >>> 4) ::
      symbol v ((b &&& 15) <<< 2 ||| c >>> 6) :: symbol v (c &&& 63) :: encodeBytes v rest
  | [a, b] =>
    symbol v (a >>> 2) :: symbol v ((a &&& 3) <<< 4 ||| b >>> 4) ::
      symbol v ((b &&& 15) <<< 2) :: filling v 1
  | [a] => symbol v (a >>> 2) :: symbol v ((a &&& 3) <<< 4) :: filling v 2
  | [] => []

/-- The symbols of an octet string, as characters. -/
def encodeChars (v : Variant) (bs : Bytes) : List Char :=
  (encodeBytes v bs).map fun b => Char.ofNat b.toNat

/-- The symbols of an octet string, as text. -/
def encode (v : Variant) (bs : Bytes) : String :=
  String.ofList (encodeChars v bs)

/-! ### Reading -/

/-- The number of the symbol at `offset`. -/
def valueAt (v : Variant) (offset : Nat) (b : UInt8) : Except Fault UInt8 :=
  match value? v b with
  | some n => .ok n
  | none => .error (.invalidSymbol b offset)

/-- What the last group consists of: its symbols with their numbers, the latest first, and the
filling behind them. -/
structure Tail where
  symbols : List (UInt8 × UInt8)
  fillings : Nat

/-- Reads the last group, whose first octet is at `offset`; `place` counts the octets read. The
filling starts behind at least two symbols, and nothing else follows it. -/
def scanTail (v : Variant) (offset : Nat) : (place : Nat) → Tail → Bytes → Except Fault Tail
  | _, t, [] => .ok t
  | place, t, b :: rest =>
    if b = pad then
      if place < 2 then .error (.invalidSymbol b (offset + place))
      else scanTail v offset (place + 1) { t with fillings := t.fillings + 1 } rest
    else if 0 < t.fillings then .error (.invalidSymbol pad (offset + t.symbols.length))
    else do
      let n ← valueAt v (offset + place) b
      scanTail v offset (place + 1) { t with symbols := (b, n) :: t.symbols } rest

/-- The octets of the last group. -/
def decodeTail (v : Variant) (offset : Nat) (group : Bytes) : Except Fault Bytes := do
  let t ← scanTail v offset 0 ⟨[], 0⟩ group
  let count := t.symbols.length
  if count < 2 then throw (.invalidLength (offset + count))
  if v.padded then
    if (count + t.fillings) % 4 ≠ 0 then throw .invalidPadding
  else if 0 < t.fillings then throw .invalidPadding
  match t.symbols with
  | [(last, y), (_, x)] =>
    if y &&& 15 ≠ 0 then throw (.invalidLastSymbol last (offset + 1))
    return [x <<< 2 ||| y >>> 4]
  | [(last, z), (_, y), (_, x)] =>
    if z &&& 3 ≠ 0 then throw (.invalidLastSymbol last (offset + 2))
    return [x <<< 2 ||| y >>> 4, y <<< 4 ||| z >>> 2]
  | (_, u) :: (_, z) :: (_, y) :: (_, x) :: _ =>
    return [x <<< 2 ||| y >>> 4, y <<< 4 ||| z >>> 2, z <<< 6 ||| u]
  | _ => return []

/-- Reads groups of four symbols, the first at `offset`. The group with the last symbol is read by
`decodeTail`, also when it is complete. -/
def decodeFrom (v : Variant) (offset : Nat) : Bytes → Except Fault Bytes
  | a :: b :: c :: d :: e :: rest => do
    let x ← valueAt v offset a
    let y ← valueAt v (offset + 1) b
    let z ← valueAt v (offset + 2) c
    let u ← valueAt v (offset + 3) d
    let more ← decodeFrom v (offset + 4) (e :: rest)
    return (x <<< 2 ||| y >>> 4) :: (y <<< 4 ||| z >>> 2) :: (z <<< 6 ||| u) :: more
  | [] => .ok []
  | group => decodeTail v offset group

/-- The octets that a string of symbols stands for. A symbol too many at the end is looked at before
all others. -/
def decode (v : Variant) (symbols : Bytes) : Except Fault Bytes :=
  match symbols.getLast? with
  | none => .ok []
  | some last =>
    if symbols.length % 4 = 1 && last ≠ pad && (value? v last).isNone then
      .error (.invalidSymbol last (symbols.length - 1))
    else decodeFrom v 0 symbols

/-- The octets that a text stands for. -/
def decodeText (v : Variant) (s : String) : Except Fault Bytes :=
  decode v (Text.toBytes s)

end KeySmith.Base64

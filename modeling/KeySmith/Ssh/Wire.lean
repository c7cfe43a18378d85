import KeySmith.Error

/-!
# The SSH wire format

Data is a sequence of fields: numbers of four octets, octet strings with their length in front, and
integers of any size, which are octet strings with a sign bit. A `Reader` takes fields from the front
of an octet string.
-/

namespace KeySmith.Ssh

/-- Takes what it needs from the front of an octet string, or says what is wrong. -/
abbrev Reader (α : Type) : Type :=
  StateT Bytes (Except WireFault) α

namespace Reader

/-- Reads `count` octets. -/
def take (count : Nat) : Reader Bytes :=
  fun bs =>
    if bs.length < count then .error .truncated else .ok (bs.take count, bs.drop count)

/-- Reads a number of four octets. -/
def uint32 : Reader UInt32 := do
  return (BigEndian.toNat (← take 4)).toUInt32

/-- Reads an octet string. -/
def string : Reader Bytes := do
  take (← uint32).toNat

/-- Reads a text. -/
def text : Reader String := do
  match Text.ofBytes? (← string) with
  | some s => return s
  | none => throw .notUtf8

/-- Whether the sign bit is set. -/
def isNegative (bs : Bytes) : Bool :=
  bs.head?.any (128 ≤ ·)

/-- Reads a non-negative integer, as its digits without leading zeros. -/
def magnitude : Reader Bytes := do
  let bs ← string
  if isNegative bs then throw .negative else return Bytes.stripZeros bs

/-- Reads a non-negative integer. -/
def natural : Reader Nat := do
  return BigEndian.toNat (← magnitude)

/-- Fails if anything is left. -/
def finish : Reader Unit :=
  fun bs => if bs.isEmpty then .ok ((), bs) else .error (.trailing bs.length)

end Reader

/-! ### Writing -/

/-- A number in four octets. -/
def uint32Bytes (n : UInt32) : Bytes :=
  BigEndian.fixed 4 n.toNat

/-- An octet string with its length, modulo `2^32`, in front. -/
def stringBytes (bs : Bytes) : Bytes :=
  uint32Bytes bs.length.toUInt32 ++ bs

/-- A text. -/
def textBytes (s : String) : Bytes :=
  stringBytes (Text.toBytes s)

/-- A non-negative integer, given by its digits. Leading zeros are dropped, and a zero octet is put
before a set top bit. -/
def magnitudeBytes (digits : Bytes) : Bytes :=
  let short := Bytes.stripZeros digits
  stringBytes (if Reader.isNegative short then 0 :: short else short)

/-- A non-negative integer. -/
def naturalBytes (n : Nat) : Bytes :=
  magnitudeBytes (BigEndian.minimal n)

end KeySmith.Ssh

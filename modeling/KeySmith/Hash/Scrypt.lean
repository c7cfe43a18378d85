import KeySmith.Hash.Hmac
import KeySmith.Hash.Sha256

/-!
# The memory-hard key derivation scrypt

The passphrase is spread over `p` lanes by PBKDF2. Each lane is mixed through a table of `N` of its
earlier values, looked up in an order that depends on the passphrase, and the lanes serve as the
salt of a last PBKDF2.
-/

namespace KeySmith.Hash.Scrypt

/-- The cost of a derivation. -/
structure Cost where
  /-- The number of table entries, `N`. -/
  entries : Nat
  /-- The size of an entry in units of 128 octets, `r`. -/
  blockSize : Nat
  /-- The number of lanes, `p`. -/
  lanes : Nat
deriving DecidableEq

/-- The octets of the table. -/
def Cost.tableSize (c : Cost) : Nat :=
  128 * c.blockSize * c.entries

/-- Whether a cost is allowed: the table has a power of two entries, less than `16 r` doublings, its
octets can be counted in 64 bits, and there is something to mix. -/
def Cost.isValid (c : Cost) : Bool :=
  0 < c.blockSize && 0 < c.lanes && c.blockSize * c.lanes < twoTo 30 &&
    c.entries == twoTo c.entries.log2 && c.entries.log2 < 16 * c.blockSize &&
    c.tableSize < twoTo 64

/-! ### The mixing of sixteen words -/

/-- A sum of two words, rotated. -/
@[inline] def turn (a b k : UInt32) : UInt32 :=
  let s := a + b
  s <<< k ||| s >>> (32 - k)

/-- Does `count` double rounds of Salsa20, over columns and then over rows. -/
def doubleRounds : (count : Nat) → (x0 x1 x2 x3 x4 x5 x6 x7 x8 x9 x10 x11 x12 x13 x14 x15 : UInt32) →
    Array UInt32
  | 0, x0, x1, x2, x3, x4, x5, x6, x7, x8, x9, x10, x11, x12, x13, x14, x15 =>
    #[x0, x1, x2, x3, x4, x5, x6, x7, x8, x9, x10, x11, x12, x13, x14, x15]
  | count + 1, x0, x1, x2, x3, x4, x5, x6, x7, x8, x9, x10, x11, x12, x13, x14, x15 =>
    let x4 := x4 ^^^ turn x0 x12 7
    let x8 := x8 ^^^ turn x4 x0 9
    let x12 := x12 ^^^ turn x8 x4 13
    let x0 := x0 ^^^ turn x12 x8 18
    let x9 := x9 ^^^ turn x5 x1 7
    let x13 := x13 ^^^ turn x9 x5 9
    let x1 := x1 ^^^ turn x13 x9 13
    let x5 := x5 ^^^ turn x1 x13 18
    let x14 := x14 ^^^ turn x10 x6 7
    let x2 := x2 ^^^ turn x14 x10 9
    let x6 := x6 ^^^ turn x2 x14 13
    let x10 := x10 ^^^ turn x6 x2 18
    let x3 := x3 ^^^ turn x15 x11 7
    let x7 := x7 ^^^ turn x3 x15 9
    let x11 := x11 ^^^ turn x7 x3 13
    let x15 := x15 ^^^ turn x11 x7 18
    let x1 := x1 ^^^ turn x0 x3 7
    let x2 := x2 ^^^ turn x1 x0 9
    let x3 := x3 ^^^ turn x2 x1 13
    let x0 := x0 ^^^ turn x3 x2 18
    let x6 := x6 ^^^ turn x5 x4 7
    let x7 := x7 ^^^ turn x6 x5 9
    let x4 := x4 ^^^ turn x7 x6 13
    let x5 := x5 ^^^ turn x4 x7 18
    let x11 := x11 ^^^ turn x10 x9 7
    let x8 := x8 ^^^ turn x11 x10 9
    let x9 := x9 ^^^ turn x8 x11 13
    let x10 := x10 ^^^ turn x9 x8 18
    let x12 := x12 ^^^ turn x15 x14 7
    let x13 := x13 ^^^ turn x12 x15 9
    let x14 := x14 ^^^ turn x13 x12 13
    let x15 := x15 ^^^ turn x14 x13 18
    doubleRounds count x0 x1 x2 x3 x4 x5 x6 x7 x8 x9 x10 x11 x12 x13 x14 x15

/-- Salsa20 with eight rounds, on sixteen words. -/
def salsa (x : Array UInt32) : Array UInt32 :=
  let y := doubleRounds 4 (x.getD 0 0) (x.getD 1 0) (x.getD 2 0) (x.getD 3 0) (x.getD 4 0)
    (x.getD 5 0) (x.getD 6 0) (x.getD 7 0) (x.getD 8 0) (x.getD 9 0) (x.getD 10 0) (x.getD 11 0)
    (x.getD 12 0) (x.getD 13 0) (x.getD 14 0) (x.getD 15 0)
  Array.zipWith (· + ·) x y

/-! ### The mixing of a lane -/

/-- The words of `a` and `b` combined by exclusive or. -/
def xorWords (a b : Array UInt32) : Array UInt32 :=
  Array.zipWith (· ^^^ ·) a b

/-- Mixes `count` groups of sixteen words, the first with the given number. The results of even
numbers come before those of odd ones. -/
def mixGroups (b : Array UInt32) : (count number : Nat) → (last even odd : Array UInt32) → Array UInt32
  | 0, _, _, even, odd => even ++ odd
  | count + 1, number, last, even, odd =>
    let x := salsa (xorWords last (b.extract (16 * number) (16 * number + 16)))
    if number % 2 = 0 then mixGroups b count (number + 1) x (even ++ x) odd
    else mixGroups b count (number + 1) x even (odd ++ x)

/-- Mixes a block of `2 r` groups. -/
def mixBlock (r : Nat) (b : Array UInt32) : Array UInt32 :=
  mixGroups b (2 * r) 0 (b.extract (32 * r - 16) (32 * r)) #[] #[]

/-- Fills the table with `count` more values of the lane, and returns the value after them. -/
def fillTable (r : Nat) : (count : Nat) → (x : Array UInt32) → (table : Array (Array UInt32)) →
    Array UInt32 × Array (Array UInt32)
  | 0, x, table => (x, table)
  | count + 1, x, table => fillTable r count (mixBlock r x) (table.push x)

/-- The place in the table that a value of the lane points to. -/
def pointer (r entries : Nat) (x : Array UInt32) : Nat :=
  ((x.getD (32 * r - 16) 0).toNat + twoTo 32 * (x.getD (32 * r - 15) 0).toNat) % entries

/-- Mixes the lane `count` times with the table entries that it points to. -/
def lookUp (r : Nat) (table : Array (Array UInt32)) : (count : Nat) → Array UInt32 → Array UInt32
  | 0, x => x
  | count + 1, x =>
    lookUp r table count (mixBlock r (xorWords x (table.getD (pointer r table.size x) #[])))

/-- The little-endian words of octets. -/
def littleWords : Bytes → List UInt32
  | a :: b :: c :: d :: rest =>
    (a.toUInt32 ||| b.toUInt32 <<< 8 ||| c.toUInt32 <<< 16 ||| d.toUInt32 <<< 24) :: littleWords rest
  | _ => []

/-- The octets of a word, the low one first. -/
def littleBytes (w : UInt32) : Bytes :=
  [w.toUInt8, (w >>> 8).toUInt8, (w >>> 16).toUInt8, (w >>> 24).toUInt8]

/-- Mixes a lane of `128 r` octets. -/
def mixLane (c : Cost) (lane : Bytes) : Bytes :=
  let x := (littleWords lane).toArray
  let (y, table) := fillTable c.blockSize c.entries x (Array.emptyWithCapacity c.entries)
  (lookUp c.blockSize table c.entries y).toList.flatMap littleBytes

/-- Mixes `count` lanes, one after the other. -/
def mixLanes (c : Cost) : (count : Nat) → Bytes → Bytes
  | 0, _ => []
  | count + 1, bs =>
    mixLane c (bs.take (128 * c.blockSize)) ++ mixLanes c count (bs.drop (128 * c.blockSize))

/-- The first `length` octets that scrypt derives from a passphrase. -/
def derive (c : Cost) (passphrase salt : Bytes) (length : Nat) : Octets length :=
  let spread := pbkdf2 sha256 passphrase salt 1 (128 * c.blockSize * c.lanes)
  pbkdf2 sha256 passphrase (mixLanes c c.lanes spread.bytes) 1 length

end KeySmith.Hash.Scrypt

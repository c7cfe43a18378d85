import KeySmith.Der.ObjectId

/-!
# DER elements

A DER document is a tree of elements: a tag, a length in its shortest form, and the content. A
`Reader` takes elements from the front of an octet string. It has one way to fail, since nothing
more is said of a document that is not DER.
-/

namespace KeySmith.Der

/-- Takes what it needs from the front of an octet string. -/
def Reader (α : Type) : Type :=
  Bytes → Option (α × Bytes)

namespace Reader

variable {α β : Type}

/-- Reads nothing. -/
@[inline] def pure (a : α) : Reader α :=
  fun bs => some (a, bs)

/-- Reads one thing after the other. -/
@[inline] def bind (r : Reader α) (f : α → Reader β) : Reader β :=
  fun bs => match r bs with
    | none => none
    | some (a, rest) => f a rest

/-- Fails. -/
def fail : Reader α :=
  fun _ => none

/-- A value that may be missing. -/
def ofOption (a? : Option α) : Reader α :=
  fun bs => a?.map (·, bs)

/-- Reads a whole octet string. -/
def run? (r : Reader α) (bs : Bytes) : Option α :=
  match r bs with
  | some (a, []) => some a
  | _ => none

end Reader

instance : Monad Reader where
  pure := Reader.pure
  bind := Reader.bind

/-- The octets of a document, none of whose lengths may reach this number. -/
def lengthLimit : Nat :=
  twoTo 28

/-! ### Elements -/

/-- An element: its tag and its content. -/
structure Element where
  tag : UInt8
  content : Bytes
deriving DecidableEq

/-- The tags of the universal types in use here. -/
def integerTag : UInt8 := 0x02
/-- The tag of bit strings. -/
def bitStringTag : UInt8 := 0x03
/-- The tag of octet strings. -/
def octetStringTag : UInt8 := 0x04
/-- The tag of the null value. -/
def nullTag : UInt8 := 0x05
/-- The tag of object identifiers. -/
def objectIdTag : UInt8 := 0x06
/-- The tag of sequences. -/
def sequenceTag : UInt8 := 0x30

/-- The universal tags that are known. -/
def universalTags : List UInt8 :=
  [0x01, 0x02, 0x03, 0x04, 0x05, 0x06, 0x09, 0x0a, 0x0c, 0x12, 0x13, 0x14, 0x15, 0x16, 0x17, 0x18,
    0x1a, 0x1e, 0x30, 0x31]

/-- Whether a tag is known: one of the universal ones, or one of another class with a number below
31. -/
def isTag (b : UInt8) : Bool :=
  if b < 0x40 then universalTags.contains b else b &&& 0x1f != 0x1f

/-- The octets of a length: one octet below 128, otherwise as many as needed after their number. -/
def lengthBytes (n : Nat) : Bytes :=
  if n < 128 then [n.toUInt8]
  else (128 + BigEndian.size n).toUInt8 :: BigEndian.fixed (BigEndian.size n) n

/-- Reads a length in its shortest form. -/
def readLength : Reader Nat
  | [] => none
  | b :: rest =>
    if b < 128 then some (b.toNat, rest)
    else
      let count := b.toNat - 128
      let n := BigEndian.toNat (rest.take count)
      if 0 < count ∧ count ≤ 4 ∧ count ≤ rest.length ∧ 128 ≤ n ∧ BigEndian.size n = count ∧
          n < lengthLimit then
        some (n, rest.drop count)
      else none

namespace Element

/-- The octets of an element. -/
def encode (e : Element) : Bytes :=
  e.tag :: (lengthBytes e.content.length ++ e.content)

/-- Reads any element. -/
def read : Reader Element
  | [] => none
  | tag :: rest =>
    if isTag tag then
      match readLength rest with
      | none => none
      | some (n, body) =>
        if n ≤ body.length then some (⟨tag, body.take n⟩, body.drop n) else none
    else none

end Element

/-- Reads the content of an element with the given tag. -/
def content (tag : UInt8) : Reader Bytes := do
  let e ← Element.read
  if e.tag = tag then return e.content else Reader.fail

/-- The tag of the next element, if there is one. -/
def peek : Reader (Option UInt8) :=
  fun bs => some (bs.head?, bs)

/-- Reads an element whose content is read by `r` to its end. -/
def inside {α : Type} (tag : UInt8) (r : Reader α) : Reader α := do
  let body ← content tag
  Reader.ofOption (r.run? body)

/-- Reads a sequence. -/
def sequence {α : Type} (r : Reader α) : Reader α :=
  inside sequenceTag r

/-! ### Values -/

/-- The magnitude that the content of a non-negative integer stands for: there is at least one
octet, the sign bit is clear, and a leading zero octet stands only before a set bit. -/
def magnitude? : Bytes → Option Nat
  | [] => none
  | [b] => if b < 128 then some b.toNat else none
  | b :: c :: rest =>
    if b = 0 ∧ c < 128 then none
    else if b < 128 then some (BigEndian.toNat (b :: c :: rest))
    else none

/-- Reads a non-negative integer. -/
def natural : Reader Nat := do
  Reader.ofOption (magnitude? (← content integerTag))

/-- Reads a non-negative integer below `limit`. -/
def naturalBelow (limit : Nat) : Reader Nat := do
  let n ← natural
  if n < limit then return n else Reader.fail

/-- Reads a non-negative integer below `limit` if the next element is an integer. -/
def naturalBelow? (limit : Nat) : Reader (Option Nat) := do
  if (← peek) = some integerTag then
    return some (← naturalBelow limit)
  else return none

/-- Reads an octet string. -/
def octetString : Reader Bytes :=
  content octetStringTag

/-- A bit string: octets and the number of bits of the last one that do not count. -/
structure BitString where
  unused : UInt8
  octets : Bytes
deriving DecidableEq

/-- The bit string with the given content. -/
def BitString.ofContent? : Bytes → Option BitString
  | [] => none
  | unused :: octets =>
    if unused ≤ 7 ∧ (unused = 0 ∨ octets ≠ []) then some ⟨unused, octets⟩ else none

/-- The octets of a bit string all of whose bits count. -/
def BitString.whole? (b : BitString) : Option Bytes :=
  if b.unused = 0 then some b.octets else none

/-- Reads a bit string. -/
def bitString : Reader BitString := do
  Reader.ofOption (BitString.ofContent? (← content bitStringTag))

/-- Reads an object identifier. -/
def objectId : Reader ObjectId := do
  Reader.ofOption (ObjectId.ofBytes? (← content objectIdTag))

/-! ### Optional fields -/

/-- Whether a tag is context specific. -/
def isContextTag (tag : UInt8) : Bool :=
  tag &&& 0xc0 == 0x80

/-- Skips context-specific elements with numbers below `number`. -/
def skipFields (number : UInt8) : (fuel : Nat) → Reader Unit
  | 0, bs => some ((), bs)
  | _, [] => some ((), [])
  | fuel + 1, tag :: rest =>
    if isContextTag tag && tag &&& 0x1f < number then
      match Element.read (tag :: rest) with
      | none => none
      | some (_, more) => skipFields number fuel more
    else if isTag tag then some ((), tag :: rest)
    else none

/-- Reads the context-specific field with the given number, if it is there, by `r`. Fields with
lower numbers before it are skipped. -/
def field? {α : Type} (number : UInt8) (r : Reader α) : Reader (Option α) :=
  fun bs => match skipFields number bs.length bs with
    | none => none
    | some ((), []) => some (none, [])
    | some ((), tag :: rest) =>
      if isContextTag tag && tag &&& 0x1f == number then
        (r (tag :: rest)).map fun (a, more) => (some a, more)
      else some (none, tag :: rest)

/-- The tag of a context-specific field that holds an element of its own type inside. -/
def explicitTag (number : UInt8) : UInt8 :=
  0xa0 ||| number

/-- The tag of a context-specific field that replaces the tag of a primitive type. -/
def implicitTag (number : UInt8) : UInt8 :=
  0x80 ||| number

/-! ### Writing -/

/-- An element around the given octets. -/
def element (tag : UInt8) (body : Bytes) : Bytes :=
  Element.encode ⟨tag, body⟩

/-- A sequence of encoded elements. -/
def sequenceBytes (parts : List Bytes) : Bytes :=
  element sequenceTag parts.flatten

/-- A non-negative integer. A zero octet is put before a set top bit. -/
def naturalBytes (n : Nat) : Bytes :=
  let digits := BigEndian.minimal n
  element integerTag (if digits.headD 0 < 128 then digits else 0 :: digits)

/-- An octet string. -/
def octetStringBytes (bs : Bytes) : Bytes :=
  element octetStringTag bs

/-- A bit string all of whose bits count. -/
def bitStringBytes (bs : Bytes) : Bytes :=
  element bitStringTag (0 :: bs)

/-- An object identifier. -/
def objectIdBytes (o : ObjectId) : Bytes :=
  element objectIdTag o.bytes

/-- The null value. -/
def nullElement : Element :=
  ⟨nullTag, []⟩

/-- A document, unless it is too long to be one. -/
def document? (bs : Bytes) : Option Bytes :=
  if bs.length < lengthLimit then some bs else none

/-- Reads a document to its end. -/
def readDocument? {α : Type} (r : Reader α) (bs : Bytes) : Option α :=
  if bs.length < lengthLimit then r.run? bs else none

end KeySmith.Der

/-!
# Octet strings

Every key format below reads and writes strings of octets. They are plain lists, so that a reader
of a format is a function that returns what it has read together with the octets that follow.
`Octets n` is an octet string of known length: an initialisation vector, a seed, an authentication
tag.
-/

namespace KeySmith

/-- The number with one bit set, at place `n`. -/
def twoTo (n : Nat) : Nat :=
  1 <<< n

/-- A string of octets. -/
abbrev Bytes := List UInt8

/-- A string of exactly `n` octets. -/
structure Octets (n : Nat) where
  bytes : Bytes
  length_eq : bytes.length = n
deriving DecidableEq

namespace Octets

variable {n : Nat}

/-- The octets `bs`, if there are `n` of them. -/
def ofBytes? (n : Nat) (bs : Bytes) : Option (Octets n) :=
  if h : bs.length = n then some ⟨bs, h⟩ else none

/-- Changes every octet by a function of it. -/
def map (f : UInt8 → UInt8) (o : Octets n) : Octets n :=
  ⟨o.bytes.map f, by simp [o.length_eq]⟩

/-- `n` zero octets. -/
def zero (n : Nat) : Octets n :=
  ⟨List.replicate n 0, by simp⟩

/-- The first `n` octets of `bs`, filled up with zeros where `bs` is shorter. -/
def firstOf (n : Nat) (bs : Bytes) : Octets n :=
  ⟨bs.take n ++ List.replicate (n - bs.length) 0, by
    simp only [List.length_append, List.length_take, List.length_replicate]; omega⟩

@[simp] theorem ofBytes?_bytes (o : Octets n) : ofBytes? n o.bytes = some o := by
  simp [ofBytes?, o.length_eq]

theorem ofBytes?_eq_some_iff {bs : Bytes} {o : Octets n} :
    ofBytes? n bs = some o ↔ bs = o.bytes := by
  constructor
  · intro h
    unfold ofBytes? at h
    split at h
    · cases h
      rfl
    · cases h
  · rintro rfl
    exact ofBytes?_bytes o

end Octets

namespace Bytes

/-- The octets of `a` and `b` combined by exclusive or, as far as the shorter one reaches. -/
def xor (a b : Bytes) : Bytes :=
  List.zipWith (· ^^^ ·) a b

/-- The octets from the first nonzero one on. -/
def stripZeros (bs : Bytes) : Bytes :=
  bs.dropWhile (· == 0)

end Bytes

/-! ### Big-endian numbers -/

namespace BigEndian

/-- The number whose digits to base 256, the highest first, are `bs`. -/
def toNat (bs : Bytes) : Nat :=
  bs.foldl (fun n b => n <<< 8 + b.toNat) 0

/-- The lowest `len` digits of `n` to base 256, the highest first. -/
def fixed : (len : Nat) → (n : Nat) → Bytes
  | 0, _ => []
  | len + 1, n => (n >>> (8 * len)).toUInt8 :: fixed len n

@[simp] theorem length_fixed (len n : Nat) : (fixed len n).length = len := by
  induction len with
  | zero => rfl
  | succ len ih => simp [fixed, ih]

/-- The number of binary digits of `n`; zero has none. -/
def bitLength (n : Nat) : Nat :=
  if n = 0 then 0 else n.log2 + 1

/-- The number of octets that the binary digits of `n` fill. -/
def size (n : Nat) : Nat :=
  (bitLength n + 7) / 8

/-- The shortest big-endian form of `n`; zero takes one octet. -/
def minimal (n : Nat) : Bytes :=
  fixed (max 1 (size n)) n

/-- The digits of `n` in `len` octets, as octets of known length. -/
def octets (len n : Nat) : Octets len :=
  ⟨fixed len n, length_fixed len n⟩

end BigEndian

/-! ### Little-endian numbers -/

namespace LittleEndian

/-- The number whose digits to base 256, the lowest first, are `bs`. -/
def toNat (bs : Bytes) : Nat :=
  BigEndian.toNat bs.reverse

/-- The lowest `len` digits of `n` to base 256, the lowest first. -/
def octets (len n : Nat) : Octets len :=
  ⟨(BigEndian.fixed len n).reverse, by simp⟩

end LittleEndian

end KeySmith

import KeySmith.Bytes

/-!
# Words of hash functions

Hash functions work on blocks of sixteen big-endian words, of four octets each or of eight. The
message is filled up with a one bit, zeros and its length in bits.
-/

namespace KeySmith.Hash

/-- Reads up to `count` words of 32 bits and returns what follows them. -/
def takeWords32 : (count : Nat) → Array UInt32 → Bytes → Array UInt32 × Bytes
  | count + 1, ws, a :: b :: c :: d :: rest =>
    takeWords32 count
      (ws.push (a.toUInt32 <<< 24 ||| b.toUInt32 <<< 16 ||| c.toUInt32 <<< 8 ||| d.toUInt32)) rest
  | _, ws, rest => (ws, rest)

/-- Reads up to `count` words of 64 bits and returns what follows them. -/
def takeWords64 : (count : Nat) → Array UInt64 → Bytes → Array UInt64 × Bytes
  | count + 1, ws, a :: b :: c :: d :: e :: f :: g :: h :: rest =>
    takeWords64 count
      (ws.push (a.toUInt64 <<< 56 ||| b.toUInt64 <<< 48 ||| c.toUInt64 <<< 40 ||| d.toUInt64 <<< 32
        ||| e.toUInt64 <<< 24 ||| f.toUInt64 <<< 16 ||| g.toUInt64 <<< 8 ||| h.toUInt64)) rest
  | _, ws, rest => (ws, rest)

/-- The octets of a word of 32 bits, the high one first. -/
def bytes32 (w : UInt32) : Bytes :=
  [(w >>> 24).toUInt8, (w >>> 16).toUInt8, (w >>> 8).toUInt8, w.toUInt8]

/-- The octets of a word of 64 bits, the high one first. -/
def bytes64 (w : UInt64) : Bytes :=
  [(w >>> 56).toUInt8, (w >>> 48).toUInt8, (w >>> 40).toUInt8, (w >>> 32).toUInt8,
    (w >>> 24).toUInt8, (w >>> 16).toUInt8, (w >>> 8).toUInt8, w.toUInt8]

/-- What is added to a message of `total` octets so that blocks of `block` octets come out even:
the octet 128, zeros, and the number of message bits in `field` octets. -/
def padding (block field total : Nat) : Bytes :=
  let zeros := (2 * block - 1 - field - total % block) % block
  128 :: (List.replicate zeros 0 ++ BigEndian.fixed field (8 * total))

/-- Rotates a word of 32 bits to the left. -/
@[inline] def rotateLeft32 (w : UInt32) (k : UInt32) : UInt32 :=
  w <<< k ||| w >>> (32 - k)

/-- Rotates a word of 32 bits to the right. -/
@[inline] def rotateRight32 (w : UInt32) (k : UInt32) : UInt32 :=
  w >>> k ||| w <<< (32 - k)

/-- Rotates a word of 64 bits to the right. -/
@[inline] def rotateRight64 (w : UInt64) (k : UInt64) : UInt64 :=
  w >>> k ||| w <<< (64 - k)

end KeySmith.Hash

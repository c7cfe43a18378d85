import KeySmith.Ssh.PublicKey

/-!
# The OpenSSH private key container

After a magic text the container names a cipher and a key derivation, which have to be `none`, and
holds the public key blob and a private block. The block starts with a check integer, given twice,
and holds the key, a comment, and padding by 1, 2, 3, … to a multiple of eight octets. The public key
is derived again from the private one on reading, and has to be the one in the container.
-/

namespace KeySmith.Ssh

/-- A container: a private key, a comment, and the check integer. -/
structure Container where
  key : Key
  comment : String
  check : UInt32
deriving DecidableEq

namespace Container

/-- What every container starts with. -/
def magic : Bytes :=
  Text.toBytes "openssh-key-v1\x00"

/-- The name of no cipher and of no key derivation. -/
def noCipher : String :=
  "none"

/-- The private block is filled up to a multiple of this. -/
def blockSize : Nat :=
  8

/-- The error of a fault of a container. -/
def fault (f : ContainerFault) : Error :=
  .malformed (.container f)

/-! ### Writing -/

/-- The private numbers of a key, behind its type name. -/
def privateFields : Key → Result Bytes
  | .ed25519 k => do
    let pair ← Result.ofOption .missingPrivate k.pairBytes?
    return textBytes ed25519Name ++ stringBytes k.point.bytes ++ stringBytes pair
  | .rsa k => do
    let s ← Result.ofOption .missingPrivate k.secret
    let c ← Result.of (fun f => .failure (.rsaPrecomputation f)) s.crt
    if c.more.isEmpty then
      return textBytes rsaName ++ naturalBytes k.n ++ naturalBytes k.e ++ naturalBytes s.d
        ++ naturalBytes c.qi ++ naturalBytes c.p ++ naturalBytes c.q
    else throw (.failure .multiPrimeContainer)
  | .ecdsa k => do
    let scalar ← Result.ofOption .missingPrivate k.scalarBytes?
    return textBytes (curveName k.curve) ++ textBytes k.curve.sshId ++ stringBytes k.pointBytes
      ++ magnitudeBytes scalar

/-- The octets 1, 2, 3, … that fill up a block of the given length. -/
def padding (length : Nat) : Bytes :=
  (List.range ((blockSize - length % blockSize) % blockSize)).map fun place =>
    (place + 1).toUInt8

/-- Octets filled up to whole blocks. -/
def pad (body : Bytes) : Bytes :=
  body ++ padding body.length

/-- The private block: the check integer twice, the private numbers, the comment, and padding. -/
def block (check : UInt32) (secret : Bytes) (comment : String) : Bytes :=
  pad (uint32Bytes check ++ uint32Bytes check ++ secret ++ textBytes comment)

/-- What a container consists of, given the options of the key derivation, the public key blob and
the private block. -/
def frame (options blob block : Bytes) : Bytes :=
  magic ++ textBytes noCipher ++ textBytes noCipher ++ stringBytes options ++ uint32Bytes 1
    ++ stringBytes blob ++ stringBytes block

/-- The octets of a container. -/
def encode (c : Container) : Result Bytes := do
  let secret ← privateFields c.key
  return frame [] (publicBlob c.key) (block c.check secret c.comment)

/-! ### Reading -/

/-- Reads an Ed25519 key: the point, and the seed followed by the point again. -/
def readEd25519 : KeyReader Key := do
  let point ← fields Reader.string
  let pair ← fields Reader.string
  if point.length ≠ 32 ∨ pair.length ≠ 64 then built (.error (fault .ed25519Lengths))
  else
    match Ed25519Key.ofSeed? (.firstOf 32 pair) with
    | none => built (.error .pointNotOnCurve)
    | some k =>
      if k.point.bytes = pair.drop 32 ∧ k.point.bytes = point then return .ed25519 k
      else built (.error (fault .ed25519Mismatch))

/-- Reads an RSA key. The inverse of one prime modulo the other is read over. -/
def readRsa : KeyReader Key := do
  let n ← fields Reader.natural
  let e ← fields Reader.natural
  let d ← fields Reader.natural
  let _ ← fields Reader.natural
  let p ← fields Reader.natural
  let q ← fields Reader.natural
  return .rsa (← built (RsaKey.ofSecret (fun f => fault (.rsa f)) n e ⟨d, [p, q]⟩))

/-- Reads a key on a curve: the point and the scalar. -/
def readEcdsa (curve : Curve) : KeyReader Key := do
  let point ← readPoint curve
  let scalar ← fields Reader.magnitude
  if curve.size < scalar.length then built (.error (fault .scalarTooLong))
  else
    let padded := List.replicate (curve.size - scalar.length) 0 ++ scalar
    return .ecdsa (← built (EcKey.ofParts curve point (some padded)))

/-- Reads the private key that follows a type name. -/
def readPrivate (name : String) : KeyReader Key := do
  if name = ed25519Name then readEd25519
  else if name = rsaName then readRsa
  else
    let curve ← built (Result.ofOption (fault (.unsupportedType name)) (curveOfName? name))
    readEcdsa curve

/-- Reads the private block up to its padding. -/
def readBlock : KeyReader Container := do
  let check ← fields Reader.uint32
  if (← fields Reader.uint32) ≠ check then built (.error (fault .checkMismatch))
  else
    let name ← fields Reader.text
    let key ← readPrivate name
    let comment ← fields Reader.text
    return ⟨key, comment, check⟩

/-- Whether octets are the beginning of 1, 2, 3, … and shorter than a block. -/
def isPadding (bs : Bytes) : Bool :=
  bs.length < blockSize && bs == (List.range bs.length).map fun place => (place + 1).toUInt8

/-- Reads the public key blob and the private block of a container. -/
def readOuter : KeyReader (Bytes × Bytes) := do
  let cipher ← fields Reader.text
  let kdf ← fields Reader.text
  let _ ← fields Reader.string
  if cipher ≠ noCipher ∨ kdf ≠ noCipher then built (.error (fault (.encrypted cipher kdf)))
  else
    let count ← fields Reader.uint32
    if count ≠ 1 then built (.error (fault (.keyCount count.toNat)))
    else
      let blob ← fields Reader.string
      let block ← fields Reader.string
      fields Reader.finish
      return (blob, block)

/-- Reads a container. -/
def decode (bs : Bytes) : Result Container := do
  if !magic.isPrefixOf bs then throw (fault .missingMagic)
  let ((blob, block), _) ← readOuter (bs.drop magic.length)
  if block.length % blockSize ≠ 0 then throw (fault .unpadded)
  let (c, rest) ← readBlock block
  if !isPadding rest then throw (fault .padding)
  if publicBlob c.key ≠ blob then throw (fault .publicMismatch)
  return c

end Container

end KeySmith.Ssh

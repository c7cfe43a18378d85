import KeySmith.Der.Sec1
import KeySmith.Der.Spki

/-!
# Private key descriptions

The description of a private key of any algorithm: the algorithm, the key as an octet string that
holds its own body, and perhaps the public key. Further fields are passed over.
-/

namespace KeySmith.Der.Pkcs8

/-- An algorithm with a private key for it. -/
structure PrivateInfo where
  algorithm : AlgorithmId
  key : Bytes
  publicKey : Option Bytes

/-- Reads fields with any element inside to the end. -/
def skipExtensions : (fuel : Nat) → Reader Unit
  | _, [] => some ((), [])
  | 0, _ => none
  | fuel + 1, bs =>
    match Element.read bs with
    | none => none
    | some (e, rest) =>
      if isContextTag e.tag && e.tag &&& 0x20 != 0 && (Element.read.run? e.content).isSome then
        skipExtensions fuel rest
      else none

/-- The octets of a bit string, from its content, all of whose bits have to count. -/
def bitsOfContent? (body : Bytes) : Option Bytes :=
  (BitString.ofContent? body).bind BitString.whole?

/-- Reads a description. Its version is 1 if it gives the public key and 0 otherwise. -/
def readInfo : Reader PrivateInfo :=
  sequence do
    let version ← naturalBelow 2
    let algorithm ← AlgorithmId.read
    let key ← octetString
    let bits ← field? 1 (content (implicitTag 1))
    let publicKey ← match bits with
      | none => Reader.pure none
      | some body => Reader.ofOption ((bitsOfContent? body).map some)
    if (version == 1) = publicKey.isSome then
      (fun bs => skipExtensions bs.length bs : Reader Unit)
      return ⟨algorithm, key, publicKey⟩
    else Reader.fail

/-- The octets of a description. -/
def PrivateInfo.encode (info : PrivateInfo) : Bytes :=
  sequenceBytes [naturalBytes (if info.publicKey.isSome then 1 else 0), info.algorithm.encode,
    octetStringBytes info.key,
    (info.publicKey.map fun bs => element (implicitTag 1) (0 :: bs)).getD []]

/-- The error of a fault of a description. -/
def infoError (fault : PrivateInfoFault) : Error :=
  .malformed (.der (.privateInfo fault))

/-- Reads a description from a document. -/
def PrivateInfo.decode (bs : Bytes) : Result PrivateInfo :=
  Result.ofOption (infoError .notDer) (readDocument? readInfo bs)

/-- The RSA key of a description. -/
def rsaKey (info : PrivateInfo) : Result RsaKey := do
  if let some fault := info.algorithm.rsaFault? then throw (infoError (.algorithm fault))
  Pkcs1.parsePrivate infoError info.key

/-- The curve key of a description. -/
def ecKey (info : PrivateInfo) : Result EcKey := do
  let curve ← info.algorithm.curve
  Result.ofOption (infoError .notDer)
    ((readDocument? Sec1.readBody info.key).bind fun body => body.key? curve)

/-- The seed inside the key of an Ed25519 description, an octet string of 32 octets. -/
def seed? : Bytes → Option (Octets 32)
  | 0x04 :: 0x20 :: seed => Octets.ofBytes? 32 seed
  | _ => none

/-- The Ed25519 key of a description. A public key that is given has to be the one of the seed. -/
def ed25519Key (info : PrivateInfo) : Result Ed25519Key := do
  if info.algorithm.parameters.isSome then throw (infoError .parametersMalformed)
  Result.ofOption (infoError .keyMalformed) <|
    ((seed? info.key).bind Ed25519Key.ofSeed?).filter fun k =>
      info.publicKey.all (· == k.point.bytes)

/-- Reads a key from a description. -/
def decode (bs : Bytes) : Result Key := do
  let info ← PrivateInfo.decode bs
  let oid := info.algorithm.oid
  if oid = rsaEncryption then return .rsa (← rsaKey info)
  else if oid = ecPublicKey then return .ecdsa (← ecKey info)
  else if oid = ed25519 then return .ed25519 (← ed25519Key info)
  else throw (.malformed (.der (.privateAlgorithm oid)))

/-- The description of a private key. The one of an Ed25519 key gives the public key. -/
def info : Key → Result PrivateInfo
  | .rsa k => do
    if k.secret.isNone then throw .missingPrivate
    let body ← Result.of (fun fault => .failure (.privateEncoding fault)) (Pkcs1.privateBytes k)
    return ⟨.rsa, body, none⟩
  | .ecdsa k => do
    let body ← Result.ofOption .missingPrivate (Sec1.body? k false)
    return ⟨.ec k.curve, body.encode, none⟩
  | .ed25519 k => do
    let seed ← Result.ofOption .missingPrivate k.seed
    return ⟨⟨ed25519, none⟩, octetStringBytes seed.bytes, some k.point.bytes⟩

/-- The description of a private key as a document. -/
def encode (k : Key) : Result Bytes := do
  let info ← info k
  Result.ofOption (.failure (.privateEncoding .notDer)) (document? info.encode)

end KeySmith.Der.Pkcs8

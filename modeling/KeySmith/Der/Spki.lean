import KeySmith.Der.Pkcs1
import KeySmith.Key.Basic

/-!
# Public key descriptions

The description of a public key of any algorithm: the algorithm, with the curve where there is one,
and the key as a bit string.
-/

namespace KeySmith.Der.Spki

/-- An algorithm with a public key for it. -/
structure PublicInfo where
  algorithm : AlgorithmId
  key : BitString

/-- Reads a description. -/
def readInfo : Reader PublicInfo :=
  sequence do
    let algorithm ← AlgorithmId.read
    return ⟨algorithm, ← bitString⟩

/-- The error of a fault of a description. -/
def infoError (fault : PublicInfoFault) : Error :=
  .malformed (.der (.publicInfo fault))

/-- The RSA key of a description. -/
def rsaKey (info : PublicInfo) : Result RsaKey := do
  if let some fault := info.algorithm.rsaFault? then throw (infoError fault)
  let body ← Result.ofOption (infoError .keyMalformed) info.key.whole?
  Pkcs1.parsePublic infoError body

/-- The curve key of a description. -/
def ecKey (info : PublicInfo) : Result EcKey := do
  let curve ← info.algorithm.curve
  Result.ofOption (infoError .notDer) (info.key.whole?.bind (EcKey.ofPoint? curve))

/-- The Ed25519 key of a description, which has no parameters. -/
def ed25519Key (info : PublicInfo) : Result Ed25519Key :=
  Result.ofOption (infoError .keyMalformed) <|
    if info.algorithm.parameters.isSome then none
    else (info.key.whole?.bind (Octets.ofBytes? 32)).bind Ed25519Key.ofPoint?

/-- Reads a key from a description. -/
def decode (bs : Bytes) : Result Key := do
  let info ← Result.ofOption (infoError .notDer) (readDocument? readInfo bs)
  let oid := info.algorithm.oid
  if oid = rsaEncryption then return .rsa (← rsaKey info)
  else if oid = ecPublicKey then return .ecdsa (← ecKey info)
  else if oid = ed25519 then return .ed25519 (← ed25519Key info)
  else throw (.malformed (.der (.publicAlgorithm oid)))

/-- Reads an elliptic curve key from a description. -/
def decodeEc (bs : Bytes) : Result Key := do
  let key ← decode bs
  key.expect .ecdsa
  return key

/-- The octets of a description. -/
def infoBytes (algorithm : AlgorithmId) (key : Bytes) : Bytes :=
  sequenceBytes [algorithm.encode, bitStringBytes key]

/-- The description of the public half of a key. -/
def publicBytes : Key → Bytes
  | .rsa k => infoBytes .rsa (Pkcs1.publicBytes k)
  | .ecdsa k => infoBytes (.ec k.curve) k.pointBytes
  | .ed25519 k => infoBytes ⟨ed25519, none⟩ k.point.bytes

/-- The description of the public half of a key as a document. -/
def encode (k : Key) : Result Bytes :=
  Result.ofOption (.failure (.publicEncoding .notDer)) (document? (publicBytes k))

end KeySmith.Der.Spki

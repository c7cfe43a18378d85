import KeySmith.Key.Basic
import KeySmith.Ssh.Wire

/-!
# SSH public keys

A public key blob is the name of the key type and the public numbers in the wire format. The name of
an elliptic curve key type ends in the identifier of its curve, which the blob repeats.
-/

namespace KeySmith.Ssh

/-- The type name of Ed25519 keys. -/
def ed25519Name : String :=
  "ssh-ed25519"

/-- The type name of RSA keys. -/
def rsaName : String :=
  "ssh-rsa"

/-- The type name of keys on a curve. -/
def curveName : Curve → String
  | .p256 => "ecdsa-sha2-nistp256"
  | .p384 => "ecdsa-sha2-nistp384"
  | .p521 => "ecdsa-sha2-nistp521"

/-- The curve whose keys have the given type name. -/
def curveOfName? (name : String) : Option Curve :=
  Curve.all.find? (curveName · == name)

/-- The type name of a key. -/
def typeName : Key → String
  | .rsa _ => rsaName
  | .ecdsa k => curveName k.curve
  | .ed25519 _ => ed25519Name

/-- The blob of the public half of a key. -/
def publicBlob (k : Key) : Bytes :=
  textBytes (typeName k) ++ match k with
    | .rsa k => naturalBytes k.e ++ naturalBytes k.n
    | .ecdsa k => textBytes k.curve.sshId ++ stringBytes k.pointBytes
    | .ed25519 k => stringBytes k.point.bytes

/-- The error of a fault of wire data. -/
def wireError (fault : WireFault) : Error :=
  .malformed (.wire fault)

/-- The error of a fault of a blob. -/
def blobError (fault : BlobFault) : Error :=
  .malformed (.blob fault)

/-- Takes fields from the front of an octet string and builds a key from them. -/
abbrev KeyReader (α : Type) : Type :=
  StateT Bytes (Except Error) α

/-- Reads fields on the way to a key. -/
def fields {α : Type} (r : Reader α) : KeyReader α :=
  fun bs => Result.of wireError (r bs)

/-- Builds a part of a key from the fields read. -/
def built {α : Type} (r : Result α) : KeyReader α :=
  fun bs => r.map (·, bs)

/-- Reads the point of a key on a curve, behind the identifier of the curve. -/
def readPoint (c : Curve) : KeyReader Bytes := do
  let id ← fields Reader.text
  if id = c.sshId then fields Reader.string
  else built (.error (blobError (.curveMismatch id (curveName c))))

/-- Reads the public key that follows a type name. -/
def readPublic (name : String) : KeyReader Key := do
  if name = ed25519Name then
    let bs ← fields Reader.string
    let point ← built (Result.ofOption (blobError .ed25519Length) (Octets.ofBytes? 32 bs))
    return .ed25519 (← built (Result.ofOption .pointNotOnCurve (Ed25519Key.ofPoint? point)))
  else if name = rsaName then
    let e ← fields Reader.natural
    let n ← fields Reader.natural
    return .rsa (← built (Result.of (fun fault => blobError (.rsa fault)) (RsaKey.ofPublic n e)))
  else
    let curve ← built (Result.ofOption (blobError (.unsupportedType name)) (curveOfName? name))
    let point ← readPoint curve
    return .ecdsa (← built (EcKey.ofParts curve point none))

/-- Reads a public key from its blob. -/
def decodeBlob (blob : Bytes) : Result Key :=
  Prod.fst <$> StateT.run (do
    let name ← fields Reader.text
    let key ← readPublic name
    fields Reader.finish
    return key : KeyReader Key) blob

/-- What the type names start with. -/
def nameOpenings : List (List Char) :=
  ["ssh-".toList, "ecdsa-".toList]

/-- Whether a text starts as a type name does. -/
def startsAsName (text : List Char) : Bool :=
  nameOpenings.any (·.isPrefixOf text)

/-- Whether octets start as a public key blob does, with a type name. -/
def looksLikeBlob (bs : Bytes) : Bool :=
  match Reader.text bs with
  | .ok (name, _) => startsAsName name.toList
  | .error _ => false

end KeySmith.Ssh

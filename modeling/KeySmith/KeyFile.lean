import KeySmith.Der.Encrypted
import KeySmith.Pem
import KeySmith.Ssh.AuthorizedLine
import KeySmith.Ssh.Container

/-!
# Key files

A key file is an armored block, whose label tells how to read the contents, or an authorized key
line. Each key has a canonical form: PKCS#1 for private RSA keys, SEC1 for private curve keys, an
OpenSSH container for private Ed25519 keys, and a public key description for public keys. Other
forms are written on request.
-/

namespace KeySmith.KeyFile

/-! ### Labels -/

/-- The contents that a key file may have, told by its label. -/
inductive Form where
  | rsaPrivate
  | ecPrivate
  | opensshPrivate
  | privateInfo
  | rsaPublic
  | ecPublic
  | publicInfo
  | opensshPublic
deriving DecidableEq, Repr

namespace Form

/-- The forms. -/
def all : List Form :=
  [rsaPrivate, ecPrivate, opensshPrivate, privateInfo, rsaPublic, ecPublic, publicInfo,
    opensshPublic]

/-- The label of a form. -/
def label : Form → String
  | rsaPrivate => "RSA PRIVATE KEY"
  | ecPrivate => "EC PRIVATE KEY"
  | opensshPrivate => "OPENSSH PRIVATE KEY"
  | privateInfo => "PRIVATE KEY"
  | rsaPublic => "RSA PUBLIC KEY"
  | ecPublic => "EC PUBLIC KEY"
  | publicInfo => "PUBLIC KEY"
  | opensshPublic => "OPENSSH PUBLIC KEY"

/-- The class of a form. -/
def keyClass : Form → KeyClass
  | rsaPrivate | ecPrivate | opensshPrivate | privateInfo => .privateKey
  | rsaPublic | ecPublic | publicInfo | opensshPublic => .publicKey

/-- The form with the given label. -/
def ofLabel? (s : String) : Option Form :=
  all.find? (·.label == s)

/-- Reads contents of a form. A public SSH key may also be a public key description. -/
def parse : Form → Bytes → Result Key
  | rsaPrivate, bs => .rsa <$> Der.Pkcs1.decodePrivate bs
  | ecPrivate, bs => .ecdsa <$> Der.Sec1.decode bs
  | opensshPrivate, bs => Ssh.Container.key <$> Ssh.Container.decode bs
  | privateInfo, bs => Der.Pkcs8.decode bs
  | rsaPublic, bs => .rsa <$> Der.Pkcs1.decodePublic bs
  | ecPublic, bs => Der.Spki.decodeEc bs
  | publicInfo, bs => Der.Spki.decode bs
  | opensshPublic, bs => if Ssh.looksLikeBlob bs then Ssh.decodeBlob bs else Der.Spki.decode bs

end Form

/-- The label of a private key under a passphrase. -/
def encryptedLabel : String :=
  "ENCRYPTED PRIVATE KEY"

/-- The class of the key behind a label. -/
def labelClass? (label : String) : Option KeyClass :=
  (Form.ofLabel? label).map Form.keyClass

/-! ### Reading -/

/-- The error of a fault of a label. -/
def labelError (f : LabelFault) : Error :=
  .malformed (.label f)

/-- The text of an authorized key line, if a file is one. -/
def line? (bs : Bytes) : Option String :=
  (Text.ofBytes? bs).filter fun text => Ssh.AuthorizedLine.isLine text.toList

/-- Reads the first armored block of a file. -/
def block (bs : Bytes) : Result Pem.Block :=
  Result.of (fun f => .malformed (.pem f)) (Pem.decode bs)

/-- Reads the key of a block. If a class is required, the label has to be of that class. -/
def ofBlock (required : Option KeyClass) (b : Pem.Block) : Result Key := do
  if b.label = encryptedLabel then throw (labelError .encrypted)
  let form ← Result.ofOption (labelError (.unknown b.label)) (Form.ofLabel? b.label)
  if let some c := required then
    if form.keyClass ≠ c then throw (labelError (.wrongClass c form.label))
  form.parse b.contents

/-- Reads a key file. If a class is required, the file has to be of that class. -/
def decodeClass (required : Option KeyClass) (bs : Bytes) : Result Key :=
  match (if Pem.occurs bs then none else line? bs) with
  | some line =>
    if required = some .privateKey then .error (labelError .publicLine)
    else Prod.fst <$> Ssh.AuthorizedLine.decode line
  | none => block bs >>= ofBlock required

/-- Reads a key file. -/
def decode (bs : Bytes) : Result Key :=
  decodeClass none bs

/-- Reads a private key file. -/
def decodePrivate (bs : Bytes) : Result Key :=
  decodeClass (some .privateKey) bs

/-- Reads a public key file. -/
def decodePublic (bs : Bytes) : Result Key :=
  decodeClass (some .publicKey) bs

/-- The protected contents of a file with a key under a passphrase. -/
def encrypted? (bs : Bytes) : Option Bytes :=
  if Pem.occurs bs then
    match Pem.decode bs with
    | .ok b => if b.label = encryptedLabel then some b.contents else none
    | .error _ => none
  else none

/-- Whether a file holds a key under a passphrase. -/
def isEncrypted (bs : Bytes) : Bool :=
  (encrypted? bs).isSome

/-- Reads a key file, with the passphrase if there is one on the key. -/
def decodeWith (passphrase : Bytes) (bs : Bytes) : Result Key :=
  match encrypted? bs with
  | some contents => Der.Encrypted.decode contents passphrase
  | none => decode bs

/-! ### Writing -/

/-- A file of the given form. -/
def armor (form : Form) (contents : Bytes) : String :=
  Pem.Block.encode ⟨form.label, contents⟩

/-- A private RSA key by itself. -/
def encodeRsaPrivate (k : Key) : Result String := do
  return armor .rsaPrivate (← Der.Pkcs1.encodePrivate (← k.toRsa))

/-- A private key with its algorithm. -/
def encodePrivateInfo (k : Key) : Result String := do
  return armor .privateInfo (← Der.Pkcs8.encode k)

/-- A private RSA key with its algorithm. -/
def encodeRsaPrivateInfo (k : Key) : Result String := do
  k.expect .rsa
  encodePrivateInfo k

/-- A private key under a passphrase, which may not be empty. -/
def encodeEncrypted (salt iv : Octets 16) (passphrase : Bytes) (k : Key) : Result String := do
  if passphrase.isEmpty then throw (.failure .emptyPassphrase)
  let info ← Der.Pkcs8.encode k
  let contents ← Der.Encrypted.encryptInfo salt iv passphrase info
  return Pem.Block.encode ⟨encryptedLabel, contents⟩

/-- A private curve key by itself. -/
def encodeEcPrivate (k : Key) : Result String := do
  return armor .ecPrivate (← Der.Sec1.encode (← k.toEcdsa))

/-- A private key in an OpenSSH container. -/
def encodeOpensshPrivate (check : UInt32) (comment : String) (k : Key) : Result String := do
  return armor .opensshPrivate (← Ssh.Container.encode ⟨k, comment, check⟩)

/-- A public key with its algorithm. -/
def encodePublic (k : Key) : Result String := do
  return armor .publicInfo (← Der.Spki.encode k)

/-- A public RSA key by itself. -/
def encodeRsaPublic (k : Key) : Result String := do
  return armor .rsaPublic (← Der.Pkcs1.encodePublic (← k.toRsa))

/-- A public curve key with its algorithm, under a label of its own. -/
def encodeEcPublic (k : Key) : Result String := do
  k.expect .ecdsa
  return armor .ecPublic (← Der.Spki.encode k)

/-- A public key as an SSH blob. -/
def encodeOpensshPublic (k : Key) : String :=
  armor .opensshPublic (Ssh.publicBlob k)

/-- The canonical file of a private key. -/
def encodePrivate (check : UInt32) (k : Key) : Result String :=
  match k with
  | .rsa _ => encodeRsaPrivate k
  | .ecdsa _ => encodeEcPrivate k
  | .ed25519 _ => encodeOpensshPrivate check "" k

/-- The canonical file of a key. -/
def encode (check : UInt32) (k : Key) : Result String :=
  if k.isPrivate then encodePrivate check k else encodePublic k

/-- The canonical file of a private key, with a comment where it has room for one. -/
def encodeCommented (check : UInt32) (comment : String) (k : Key) : Result String :=
  match k with
  | .ed25519 _ => encodeOpensshPrivate check comment k
  | _ => encodePrivate check k

end KeySmith.KeyFile

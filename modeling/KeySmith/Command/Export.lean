import KeySmith.Jwk
import KeySmith.KeyFile

/-!
# Export formats

A key is exported in one of seven formats. Where a format has a form for private keys, a private key
takes it; a passphrase is possible in one format only.
-/

namespace KeySmith

/-- The formats of exported keys. -/
inductive ExportFormat where
  /-- A public key with its algorithm. -/
  | pkix
  /-- An RSA key by itself. -/
  | pkcs1
  /-- A private key with its algorithm. -/
  | pkcs8
  /-- A curve key. -/
  | sec1
  /-- An OpenSSH container, or an SSH blob for public keys. -/
  | openssh
  /-- An authorized key line. -/
  | authorized
  /-- A JSON Web Key. -/
  | jwk
deriving DecidableEq, Repr

namespace ExportFormat

/-- The formats. -/
def all : List ExportFormat :=
  [pkix, pkcs1, pkcs8, sec1, openssh, authorized, jwk]

/-- The name of a format. -/
def name : ExportFormat → String
  | pkix => "pkix"
  | pkcs1 => "pkcs1"
  | pkcs8 => "pkcs8"
  | sec1 => "sec1"
  | openssh => "openssh"
  | authorized => "authorized"
  | jwk => "jwk"

/-- The name of a format in messages. -/
def title : ExportFormat → String
  | pkix => "Pkix"
  | pkcs1 => "Pkcs1"
  | pkcs8 => "Pkcs8"
  | sec1 => "Sec1"
  | openssh => "Openssh"
  | authorized => "Authorized"
  | jwk => "Jwk"

/-- The format with the given name. -/
def ofName? (s : String) : Option ExportFormat :=
  all.find? (·.name == s)

/-- The text of a key in a format. Lines and JSON texts end in a line break. -/
def encode (check : UInt32) (comment : String) (format : ExportFormat) (k : Key) : Result String :=
  match format, k.isPrivate with
  | pkix, _ => KeyFile.encodePublic k
  | pkcs1, true => KeyFile.encodeRsaPrivate k
  | pkcs1, false => KeyFile.encodeRsaPublic k
  | pkcs8, _ => KeyFile.encodePrivateInfo k
  | sec1, true => KeyFile.encodeEcPrivate k
  | sec1, false => KeyFile.encodeEcPublic k
  | openssh, true => KeyFile.encodeOpensshPrivate check comment k
  | openssh, false => .ok (KeyFile.encodeOpensshPublic k)
  | authorized, _ => .ok (Ssh.AuthorizedLine.encode k comment ++ "\n")
  | jwk, _ => (Jwk.ofKey k none).map fun j => j.pretty ++ "\n"

/-- The text of a key in a format, under a passphrase. -/
def encodeEncrypted (salt iv : Octets 16) (passphrase : Bytes) (format : ExportFormat) (k : Key) :
    Result String :=
  if format = pkcs8 then KeyFile.encodeEncrypted salt iv passphrase k
  else .error (.malformed (.unprotected format.title))

end ExportFormat

end KeySmith

import KeySmith.Base64
import KeySmith.Hex
import KeySmith.Curve.Named
import KeySmith.Der.ObjectId
import KeySmith.Json.Value

/-!
# Errors

An error is told by its cause. The causes are grouped by the format or the operation that they come
from, and every group has one function for the wording. `Error.message` is what a person reads.
-/

namespace KeySmith

/-- The public-key algorithms. -/
inductive Algorithm where
  | rsa
  | ecdsa
  | ed25519
deriving DecidableEq, Repr

/-- The name of an algorithm. -/
def Algorithm.name : Algorithm → String
  | rsa => "rsa"
  | ecdsa => "ecdsa"
  | ed25519 => "ed25519"

/-- Whether a key format holds a secret. -/
inductive KeyClass where
  | privateKey
  | publicKey
deriving DecidableEq, Repr

/-- The word for a class of formats. -/
def KeyClass.name : KeyClass → String
  | privateKey => "private"
  | publicKey => "public"

/-! ### Causes -/

/-- What is wrong with the numbers of an RSA key, or with an RSA operation. -/
inductive RsaFault where
  | modulusTooLarge
  | invalidModulus
  | invalidExponent
  | exponentTooSmall
  | exponentTooLarge
  | invalidPrime
  | invalidCoefficient
  | messageTooLong
  | decryption
  /-- The result of a private operation does not lead back to its input. -/
  | inconsistent
deriving DecidableEq

/-- The wording of an RSA fault. -/
def RsaFault.message : RsaFault → String
  | modulusTooLarge => "modulus too large"
  | invalidModulus => "invalid modulus"
  | invalidExponent => "invalid exponent"
  | exponentTooSmall => "public exponent too small"
  | exponentTooLarge => "public exponent too large"
  | invalidPrime => "invalid prime value"
  | invalidCoefficient => "invalid coefficient"
  | messageTooLong => "message too long"
  | decryption => "decryption error"
  | inconsistent => "internal error"

/-- What is wrong with an armored block. -/
inductive PemFault where
  | notUtf8
  | noBlock
  | unterminatedHeader
  | invalidLabel
  | missingFooter (label : String)
  /-- A header line, as only encrypted blocks have them. -/
  | headerLine
  | body (fault : Base64.Fault)
deriving DecidableEq

/-- The wording of a fault of an armored block. -/
def PemFault.message : PemFault → String
  | notUtf8 => "PEM data is not valid UTF-8"
  | noBlock => "No PEM block found"
  | unterminatedHeader => "Unterminated PEM header"
  | invalidLabel => "Invalid PEM label"
  | missingFooter label => s!"Missing PEM footer for '{label}'"
  | headerLine => "Encrypted PEM blocks are not supported"
  | body fault => "Invalid PEM body: " ++ fault.message

/-- Why a block is not read although it is well formed. -/
inductive LabelFault where
  | encrypted
  | unknown (label : String)
  | wrongClass (expected : KeyClass) (label : String)
  /-- An authorized key line stands where a private key has to be. -/
  | publicLine
deriving DecidableEq

/-- The wording of a fault of a label. -/
def LabelFault.message : LabelFault → String
  | encrypted => "Key is encrypted, a passphrase is required"
  | unknown label => s!"Unknown PEM label '{label}'"
  | wrongClass expected label => s!"Expected a {expected.name} key, found '{label}'"
  | publicLine => "Expected a private key, found an authorized key line"

/-- What is wrong with data in the SSH wire format. -/
inductive WireFault where
  | truncated
  | notUtf8
  | negative
  | trailing (count : Nat)
deriving DecidableEq

/-- The wording of a fault of wire data. -/
def WireFault.message : WireFault → String
  | truncated => "Truncated SSH data"
  | notUtf8 => "SSH string is not valid UTF-8"
  | negative => "Negative mpint"
  | trailing count => s!"{count} trailing bytes after SSH data"

/-- What is wrong with a private key container. -/
inductive ContainerFault where
  | missingMagic
  | encrypted (cipher kdf : String)
  | keyCount (count : Nat)
  | unpadded
  | checkMismatch
  | ed25519Lengths
  | ed25519Mismatch
  | rsa (fault : RsaFault)
  | scalarTooLong
  | unsupportedType (name : String)
  | padding
  | publicMismatch
deriving DecidableEq

/-- The wording of a fault of a private key container. -/
def ContainerFault.message : ContainerFault → String
  | missingMagic => "Missing openssh-key-v1 magic"
  | encrypted cipher kdf =>
    s!"Encrypted OpenSSH keys are not supported (cipher '{cipher}', kdf '{kdf}')"
  | keyCount count => s!"Expected exactly one key in container, found {count}"
  | unpadded => "Private key block is not padded to the block size"
  | checkMismatch => "OpenSSH check integers differ"
  | ed25519Lengths => "Invalid Ed25519 key lengths"
  | ed25519Mismatch => "Ed25519 public key does not match the seed"
  | rsa fault => "Invalid RSA key in OpenSSH container: " ++ fault.message
  | scalarTooLong => "EC scalar too long"
  | unsupportedType name => s!"Unsupported OpenSSH key type '{name}'"
  | padding => "Invalid private key block padding"
  | publicMismatch => "Public key blob does not match the private key"

/-- What is wrong with an SSH public key. -/
inductive BlobFault where
  | ed25519Length
  | rsa (fault : RsaFault)
  | unsupportedType (name : String)
  | curveMismatch (id name : String)
deriving DecidableEq

/-- The wording of a fault of an SSH public key. -/
def BlobFault.message : BlobFault → String
  | ed25519Length => "Invalid Ed25519 public key length"
  | rsa fault => "Invalid RSA public key: " ++ fault.message
  | unsupportedType name => s!"Unsupported SSH key type '{name}'"
  | curveMismatch id name => s!"Curve '{id}' does not match key type {name}"

/-- What is wrong with an authorized key line. -/
inductive LineFault where
  | empty
  | noKeyData
  | keyData (fault : Base64.Fault)
deriving DecidableEq

/-- The wording of a fault of an authorized key line. -/
def LineFault.message : LineFault → String
  | empty => "Empty authorized key line"
  | noKeyData => "Authorized key line has no key data"
  | keyData fault => "Invalid authorized key data: " ++ fault.message

/-- What is wrong with the description of a public key in DER. -/
inductive PublicInfoFault where
  | notDer
  | parametersMissing
  | keyMalformed
deriving DecidableEq

/-- The wording of a fault of a public key description. -/
def PublicInfoFault.message : PublicInfoFault → String
  | notDer => "ASN.1 error"
  | parametersMissing => "AlgorithmIdentifier parameters missing"
  | keyMalformed => "SPKI cryptographic key data malformed"

/-- What is wrong with the description of a private key in DER. -/
inductive PrivateInfoFault where
  | notDer
  | parametersMalformed
  | keyMalformed
  | algorithm (fault : PublicInfoFault)
deriving DecidableEq

/-- The wording of a fault of a private key description. -/
def PrivateInfoFault.message : PrivateInfoFault → String
  | notDer => "PKCS#8 ASN.1 error"
  | parametersMalformed => "PKCS#8 algorithm parameters malformed"
  | keyMalformed => "PKCS#8 cryptographic key data malformed"
  | algorithm fault => "public key error: " ++ fault.message

/-- What is wrong with a key body in DER. -/
inductive DerFault where
  | rsaPrivate (fault : PrivateInfoFault)
  | rsaPublic (fault : PublicInfoFault)
  | ecStructure
  /-- The scalar is out of range or does not lead to the point. -/
  | ecValue
  | ecCurveMissing
  | privateInfo (fault : PrivateInfoFault)
  | privateAlgorithm (oid : Der.ObjectId)
  | publicInfo (fault : PublicInfoFault)
  | publicAlgorithm (oid : Der.ObjectId)
  | noNamedCurve (fault : PublicInfoFault)
  | unsupportedCurve (oid : Der.ObjectId)
  | encryptedStructure
deriving DecidableEq

/-- The wording of a fault of a key body in DER. -/
def DerFault.message : DerFault → String
  | rsaPrivate fault => "Invalid PKCS#1 private key: " ++ fault.message
  | rsaPublic fault => "Invalid PKCS#1 public key: public key error: " ++ fault.message
  | ecStructure => "Invalid SEC1 private key: SEC1 ASN.1 error"
  | ecValue => "Invalid SEC1 private key: crypto error"
  | ecCurveMissing => "SEC1 key does not name its curve"
  | privateInfo fault => "Invalid PKCS#8 private key: " ++ fault.message
  | privateAlgorithm oid =>
    s!"Not an RSA / ECDSA / Ed25519 private key (algorithm {oid.dotted})"
  | publicInfo fault => "Invalid public key: " ++ fault.message
  | publicAlgorithm oid => s!"Not an RSA / ECDSA / Ed25519 public key (algorithm {oid.dotted})"
  | noNamedCurve fault => "EC key has no named curve: " ++ fault.message
  | unsupportedCurve oid => s!"Unsupported curve OID {oid.dotted}"
  | encryptedStructure => "Invalid encrypted PKCS#8 key: PKCS#8 ASN.1 error"

/-- What is wrong with a JSON Web Key. -/
inductive JwkFault where
  | missing (name : String)
  | notBase64 (name : String) (fault : Base64.Fault)
  | rsa (fault : RsaFault)
  | coordinateLength (curve : Curve)
  | scalarLength (curve : Curve)
  | unsupportedType (name : String)
deriving DecidableEq

/-- The wording of a fault of a JSON Web Key. -/
def JwkFault.message : JwkFault → String
  | missing name => s!"JWK is missing '{name}'"
  | notBase64 name fault => s!"JWK member '{name}' is not base64url: " ++ fault.message
  | rsa fault => "Invalid RSA JWK: " ++ fault.message
  | coordinateLength curve => s!"JWK coordinates must be {curve.size} bytes for {curve.name}"
  | scalarLength curve => s!"JWK private scalar must be {curve.size} bytes for {curve.name}"
  | unsupportedType name => s!"Unsupported JWK key type '{name}'"

/-- What is wrong with a ciphertext or a plaintext. -/
inductive TextFault where
  | notBase64 (fault : Base64.Fault)
  | plaintextNotUtf8
  | hybridEmpty
  | hybridTruncated
  | hybridTooShort (count : Nat)
  | noEphemeralKey
  | noVector
deriving DecidableEq

/-- The wording of a fault of a ciphertext or a plaintext. -/
def TextFault.message : TextFault → String
  | notBase64 fault => "Ciphertext is not valid base64: " ++ fault.message
  | plaintextNotUtf8 => "Plaintext is not valid UTF-8"
  | hybridEmpty => "Empty ECIES ciphertext"
  | hybridTruncated => "Truncated ECIES ephemeral point"
  | hybridTooShort count =>
    s!"ECIES ciphertext too short: {count} bytes after the ephemeral point"
  | noEphemeralKey => "Ciphertext shorter than the 32-byte ephemeral key"
  | noVector => "Ciphertext shorter than the 16-byte IV"

/-- The causes of malformed data. -/
inductive Malformed where
  | unknownCurve (name : String)
  | curveBits (bits : Nat)
  | scalar
  | scalarMismatch
  | pem (fault : PemFault)
  | label (fault : LabelFault)
  | wire (fault : WireFault)
  | container (fault : ContainerFault)
  | blob (fault : BlobFault)
  | line (fault : LineFault)
  | der (fault : DerFault)
  | jwk (fault : JwkFault)
  | text (fault : TextFault)
  | keyFile (fault : Hex.Fault)
  | settingsBits (bits : Nat)
  /-- A passphrase was asked for with an export format that has no protected form. -/
  | unprotected (format : String)
deriving DecidableEq

/-- The wording of a cause of malformed data. -/
def Malformed.message : Malformed → String
  | unknownCurve name => "Unknown curve: " ++ name
  | curveBits bits => s!"Unsupported curve size: {bits} bits"
  | scalar => "Invalid EC secret scalar"
  | scalarMismatch => "EC public point does not match the secret scalar"
  | pem fault => fault.message
  | label fault => fault.message
  | wire fault => fault.message
  | container fault => fault.message
  | blob fault => fault.message
  | line fault => fault.message
  | der fault => fault.message
  | jwk fault => fault.message
  | text fault => fault.message
  | keyFile fault => "Key file is not valid hex: " ++ fault.message
  | settingsBits bits => s!"rsa_bits must be a multiple of 8 and at least 1024, got {bits}"
  | unprotected format => s!"Шифрование паролем доступно только для pkcs8, не для {format}"

/-- The causes of a failed operation. -/
inductive Failure where
  | rsaKeySize (bits : Nat)
  /-- No prime turned up in the candidates that were drawn. -/
  | rsaGeneration
  | rsaPrecomputation (fault : RsaFault)
  | rsaEncryption (fault : RsaFault)
  | rsaDecryption (fault : RsaFault)
  | rsaCiphertextLength (expected found : Nat)
  | multiPrimeContainer
  | multiPrimeJwk
  | rsaEncoding (fault : PrivateInfoFault)
  | privateEncoding (fault : PrivateInfoFault)
  | publicEncoding (fault : PublicInfoFault)
  | emptyPassphrase
  | wrongPassphrase
  | passphraseRequired
  | aesKeyLength (count : Nat)
  | chainPadding
deriving DecidableEq

/-- The wording of a cause of a failed operation. -/
def Failure.message : Failure → String
  | rsaKeySize bits => s!"Invalid RSA key size: {bits} bits"
  | rsaGeneration => "RSA key generation failed: no primes found"
  | rsaPrecomputation fault => "RSA precomputation failed: " ++ fault.message
  | rsaEncryption fault => "RSA encryption failed: " ++ fault.message
  | rsaDecryption fault => "RSA decryption failed: " ++ fault.message
  | rsaCiphertextLength expected found => s!"RSA ciphertext must be {expected} bytes, got {found}"
  | multiPrimeContainer => "Multi-prime RSA keys cannot be stored in OpenSSH format"
  | multiPrimeJwk => "Multi-prime RSA keys have no JWK mapping"
  | rsaEncoding fault => "PKCS#1 encoding failed: " ++ fault.message
  | privateEncoding fault => "PKCS#8 encoding failed: " ++ fault.message
  | publicEncoding fault => "Public key encoding failed: " ++ fault.message
  | emptyPassphrase => "Empty passphrase"
  | wrongPassphrase => "Wrong passphrase or corrupted key"
  | passphraseRequired => "Passphrase required"
  | aesKeyLength count => s!"AES key must be 16, 24 or 32 bytes, got {count}"
  | chainPadding => "Invalid CBC padding"

/-- Why a file could not be read or written. -/
inductive FileFault where
  | notFound
  | notPermitted
  | isDirectory
  | notDirectory
  | nameTooLong
  /-- The access bits of a file that belongs to someone else were to be changed. -/
  | notOwner
  | noSpace
  /-- What was stored could not be brought to the disk. -/
  | notSynced
  /-- There is no terminal to ask for a passphrase. -/
  | noTerminal
  | notUtf8
  /-- The path is taken and overwriting was not asked for. -/
  | taken (path : String)
deriving DecidableEq

/-- The wording of a fault of a file. -/
def FileFault.message : FileFault → String
  | notFound => "No such file or directory (os error 2)"
  | notPermitted => "Permission denied (os error 13)"
  | isDirectory => "Is a directory (os error 21)"
  | notDirectory => "Not a directory (os error 20)"
  | nameTooLong => "File name too long (os error 36)"
  | notOwner => "Operation not permitted (os error 1)"
  | noSpace => "No space left on device (os error 28)"
  | notSynced => "Input/output error (os error 5)"
  | noTerminal => "No such device or address (os error 6)"
  | notUtf8 => "stream did not contain valid UTF-8"
  | taken path => s!"{path} уже существует (используйте --force)"

/-! ### Errors -/

/-- An error, by its kind and cause. -/
inductive Error where
  | malformed (cause : Malformed)
  | algorithmMismatch (expected found : String)
  | failure (cause : Failure)
  /-- The authentication tag is wrong; nothing is decrypted. -/
  | tagMismatch
  | inputTooLarge (length limit : Nat)
  | pointNotOnCurve
  /-- A secret is needed and the key is public. -/
  | missingPrivate
  | file (cause : FileFault)
  | json (fault : Json.Fault)
deriving DecidableEq

/-- What a person reads about an error. -/
def Error.message : Error → String
  | malformed cause => "Malformed key data: " ++ cause.message
  | algorithmMismatch expected found =>
    s!"Algorithm mismatch: expected {expected}, found {found}"
  | failure cause => "Cryptographic operation failed: " ++ cause.message
  | tagMismatch => "Authentication tag mismatch"
  | inputTooLarge length limit =>
    s!"Input too large: {length} bytes exceeds the limit of {limit} bytes"
  | pointNotOnCurve => "Point is not on the curve"
  | missingPrivate => "Missing private key component"
  | file cause => "I/O error: " ++ cause.message
  | json fault => "JSON error: " ++ fault.message

/-- The results of operations that may fail. -/
abbrev Result (α : Type) : Type :=
  Except Error α

/-- The outcome of an operation with errors of one group, as a result. -/
def Result.of {ε α : Type} (error : ε → Error) : Except ε α → Result α
  | .ok a => .ok a
  | .error e => .error (error e)

/-- The value, or the error that its absence stands for. -/
def Result.ofOption {α : Type} (error : Error) : Option α → Result α
  | some a => .ok a
  | none => .error error

end KeySmith

import KeySmith.Aes.Modes
import KeySmith.Der.Pkcs8
import KeySmith.Hash.Scrypt
import KeySmith.Hash.Sha1

/-!
# Private keys under a passphrase

A protected key is a private key description, encrypted by AES with chaining under a key that is
derived from a passphrase. The derivation is PBKDF2 with a hash function of choice, or scrypt. New
keys use PBKDF2 with SHA-256 and AES-256. Two older families are recognised but not supported:
derivations by SHA-1, and the schemes that came before the separate derivation.
-/

namespace KeySmith.Der.Encrypted

/-- The hash function of a PBKDF2 derivation. -/
inductive Prf where
  | sha1
  | sha224
  | sha256
  | sha384
  | sha512
deriving DecidableEq

namespace Prf

/-- The hash functions. -/
def all : List Prf :=
  [sha1, sha224, sha256, sha384, sha512]

/-- The object identifier of HMAC with a hash function. -/
def objectId : Prf → ObjectId
  | sha1 => .ofArcs [1, 2, 840, 113549, 2, 7]
  | sha224 => .ofArcs [1, 2, 840, 113549, 2, 8]
  | sha256 => .ofArcs [1, 2, 840, 113549, 2, 9]
  | sha384 => .ofArcs [1, 2, 840, 113549, 2, 10]
  | sha512 => .ofArcs [1, 2, 840, 113549, 2, 11]

/-- The function, if it is supported for derivations. -/
def function? : Prf → Option Hash.Function
  | sha1 => none
  | sha224 => some Hash.sha224
  | sha256 => some Hash.sha256
  | sha384 => some Hash.sha384
  | sha512 => some Hash.sha512

/-- The hash function that an algorithm names. Its parameters are the null value. -/
def ofAlgorithm? (a : AlgorithmId) : Option Prf :=
  if a.parameters = some nullElement then all.find? (·.objectId == a.oid) else none

end Prf

/-- How the cipher key is derived. -/
inductive Derivation where
  | pbkdf2 (salt : Bytes) (iterations : Nat) (keyLength : Option Nat) (prf : Prf)
  | scrypt (salt : Bytes) (cost : Hash.Scrypt.Cost) (keyLength : Option Nat)

/-- The identifier of PBKDF2. -/
def pbkdf2Id : ObjectId :=
  .ofArcs [1, 2, 840, 113549, 1, 5, 12]

/-- The identifier of scrypt. -/
def scryptId : ObjectId :=
  .ofArcs [1, 3, 6, 1, 4, 1, 11591, 4, 11]

/-- The identifier of encryption with a separate derivation. -/
def pbes2Id : ObjectId :=
  .ofArcs [1, 2, 840, 113549, 1, 5, 13]

/-- The identifiers of the older schemes. -/
def pbes1Ids : List ObjectId :=
  [1, 3, 4, 6, 10, 11].map fun n => .ofArcs [1, 2, 840, 113549, 1, 5, n]

/-- AES with chaining: the octets of its key, and the initialisation vector. -/
structure Cipher where
  keySize : Nat
  iv : Octets 16

/-- The sizes of cipher keys with the last arc of their identifiers. -/
def cipherArcs : List (Nat × Nat) :=
  [(16, 2), (24, 22), (32, 42)]

/-- The identifier of AES with chaining under a key of the given size. -/
def cipherId (arc : Nat) : ObjectId :=
  .ofArcs [2, 16, 840, 1, 101, 3, 4, 1, arc]

/-- How a key is protected. -/
inductive Scheme where
  | pbes2 (derivation : Derivation) (cipher : Cipher)
  /-- An older scheme, which is not supported. -/
  | pbes1

/-- A protected key. -/
structure ProtectedKey where
  scheme : Scheme
  ciphertext : Bytes

/-! ### Reading -/

/-- Reads the content of an element that has to be a sequence. -/
def ofSequence? {α : Type} (r : Reader α) (e : Element) : Option α :=
  if e.tag = sequenceTag then r.run? e.content else none

/-- Reads the hash function of a derivation, SHA-1 if none is named. -/
def readPrf : Reader Prf := do
  if (← peek) = some sequenceTag then
    let a ← AlgorithmId.read
    Reader.ofOption (Prf.ofAlgorithm? a)
  else return .sha1

/-- Reads the parameters of PBKDF2. -/
def readPbkdf2 : Reader Derivation := do
  let salt ← octetString
  let iterations ← naturalBelow (twoTo 32)
  let keyLength ← naturalBelow? (twoTo 16)
  return .pbkdf2 salt iterations keyLength (← readPrf)

/-- Reads the parameters of scrypt. -/
def readScrypt : Reader Derivation := do
  let salt ← octetString
  let entries ← naturalBelow (twoTo 64)
  let blockSize ← naturalBelow (twoTo 16)
  let lanes ← naturalBelow (twoTo 16)
  let keyLength ← naturalBelow? (twoTo 16)
  return .scrypt salt ⟨entries, blockSize, lanes⟩ keyLength

/-- The derivation that an algorithm describes. -/
def derivation? (a : AlgorithmId) : Option Derivation := do
  let e ← a.parameters
  if a.oid = pbkdf2Id then ofSequence? readPbkdf2 e
  else if a.oid = scryptId then ofSequence? readScrypt e
  else none

/-- The cipher that an algorithm describes. -/
def cipher? (a : AlgorithmId) : Option Cipher := do
  let e ← a.parameters
  if e.tag ≠ octetStringTag then none
  else
    let iv ← Octets.ofBytes? 16 e.content
    let (keySize, _) ← cipherArcs.find? fun (_, arc) => cipherId arc == a.oid
    return ⟨keySize, iv⟩

/-- Reads a derivation and a cipher. -/
def readPbes2 : Reader Scheme := do
  let derivation ← AlgorithmId.read
  let cipher ← AlgorithmId.read
  match derivation? derivation, cipher? cipher with
  | some d, some c => return .pbes2 d c
  | _, _ => Reader.fail

/-- Reads the parameters of an older scheme: a salt of eight octets and an iteration count. -/
def readPbes1 : Reader Scheme := do
  let salt ← octetString
  let _ ← naturalBelow (twoTo 16)
  if salt.length = 8 then return .pbes1 else Reader.fail

/-- The scheme that an algorithm describes. -/
def scheme? (a : AlgorithmId) : Option Scheme := do
  let e ← a.parameters
  if a.oid = pbes2Id then ofSequence? readPbes2 e
  else if pbes1Ids.contains a.oid then ofSequence? readPbes1 e
  else none

/-- Reads a protected key. -/
def readProtected : Reader ProtectedKey :=
  sequence do
    let a ← AlgorithmId.read
    let scheme ← Reader.ofOption (scheme? a)
    return ⟨scheme, ← octetString⟩

/-- Reads a protected key from a document. -/
def ProtectedKey.decode (bs : Bytes) : Result ProtectedKey :=
  Result.ofOption (.malformed (.der .encryptedStructure)) (readDocument? readProtected bs)

/-! ### Writing -/

/-- The algorithm that describes a derivation. -/
def Derivation.algorithm : Derivation → AlgorithmId
  | .pbkdf2 salt iterations keyLength prf =>
    ⟨pbkdf2Id, some ⟨sequenceTag, octetStringBytes salt ++ naturalBytes iterations
      ++ (keyLength.map naturalBytes).getD []
      ++ (AlgorithmId.encode ⟨prf.objectId, some nullElement⟩)⟩⟩
  | .scrypt salt cost keyLength =>
    ⟨scryptId, some ⟨sequenceTag, octetStringBytes salt ++ naturalBytes cost.entries
      ++ naturalBytes cost.blockSize ++ naturalBytes cost.lanes
      ++ (keyLength.map naturalBytes).getD []⟩⟩

/-- The algorithm that describes a cipher. -/
def Cipher.algorithm (c : Cipher) : AlgorithmId :=
  let arc := ((cipherArcs.find? fun (size, _) => size == c.keySize).map (·.2)).getD 42
  ⟨cipherId arc, some ⟨octetStringTag, c.iv.bytes⟩⟩

/-- The octets of a key that is protected by a derivation and a cipher. -/
def protectedBytes (d : Derivation) (c : Cipher) (ciphertext : Bytes) : Bytes :=
  sequenceBytes [
    AlgorithmId.encode ⟨pbes2Id, some ⟨sequenceTag, d.algorithm.encode ++ c.algorithm.encode⟩⟩,
    octetStringBytes ciphertext]

/-! ### Encryption -/

/-- The octets of the cipher key. A key length that is given has to be the one of the cipher. -/
def cipherKey? (d : Derivation) (keySize : Nat) (passphrase : Bytes) : Option Bytes :=
  match d with
  | .pbkdf2 salt iterations keyLength prf =>
    match prf.function? with
    | none => none
    | some h =>
      if keyLength.all (· == keySize) then
        some (Hash.pbkdf2 h passphrase salt iterations keySize).bytes
      else none
  | .scrypt salt cost keyLength =>
    if keyLength.all (· == keySize) ∧ cost.isValid then
      some (Hash.Scrypt.derive cost passphrase salt keySize).bytes
    else none

/-- What a protected key holds, as far as the passphrase opens it. -/
def ProtectedKey.decrypt? (k : ProtectedKey) (passphrase : Bytes) : Option Bytes :=
  match k.scheme with
  | .pbes1 => none
  | .pbes2 d c => do
    let key ← cipherKey? d c.keySize passphrase
    Aes.decryptChained? key c.iv k.ciphertext

/-- The iterations for new keys. -/
def newIterations : Nat :=
  100000

/-- Protects octets under a passphrase. -/
def protect (salt iv : Octets 16) (passphrase content : Bytes) : Bytes :=
  let d := Derivation.pbkdf2 salt.bytes newIterations none .sha256
  let key := Hash.pbkdf2 Hash.sha256 passphrase salt.bytes newIterations 32
  protectedBytes d ⟨32, iv⟩ (Aes.encryptChained key.bytes iv content)

/-- Protects a private key description under a passphrase. Extensions of the description are
dropped. -/
def encryptInfo (salt iv : Octets 16) (passphrase bs : Bytes) : Result Bytes := do
  let info ← Pkcs8.PrivateInfo.decode bs
  Result.ofOption (.failure (.privateEncoding .notDer))
    (document? (protect salt iv passphrase info.encode))

/-- Reads a protected key. Once its parameters are well formed, all that can be wrong is worded
alike, since a wrong passphrase shows at any step. -/
def decode (bs passphrase : Bytes) : Result Key := do
  let k ← ProtectedKey.decode bs
  match k.decrypt? passphrase with
  | none => throw (.failure .wrongPassphrase)
  | some content => Result.of (fun _ => .failure .wrongPassphrase) (Pkcs8.decode content)

end KeySmith.Der.Encrypted

import KeySmith.Command.Export
import KeySmith.Command.Passphrase
import KeySmith.Key.Id
import KeySmith.Settings

/-!
# Commands on key files

New key pairs, descriptions of keys and exports. A new pair is two files: the private key, which only
its owner may read, and beside it the public key.
-/

namespace KeySmith

/-- Reads a key file with the passphrase given, or without one. -/
def KeyFile.decodeOptional (passphrase : Option Bytes) (content : Bytes) : Result Key :=
  match passphrase with
  | some p => KeyFile.decodeWith p content
  | none => KeyFile.decode content

/-- Reads the key in a file with the passphrase given, or without one. -/
def KeyFile.readWith (files : FileSystem) (path : String) (passphrase : Option Bytes) : Result Key := do
  decodeOptional passphrase (← files.read path)

namespace Command

/-- Reads a key file, with a passphrase if there is one on the key. -/
def readKey (path : String) : Program Key := do
  let content ← Program.readFile path
  if KeyFile.isEncrypted content then
    let p ← Passphrase.forOld
    KeyFile.decodeWith (Text.toBytes p) content
  else KeyFile.decode content

/-! ### New key pairs -/

/-- What a new key pair is to be. -/
structure NewPair where
  algorithm : Algorithm
  /-- The size of an RSA key, if not as in the settings. -/
  bits : Option Nat
  /-- The curve of a curve key, if not as in the settings. -/
  curve : Option Curve
  /-- The file of the private key. -/
  out : String
  /-- The comment, if not as in the settings. -/
  comment : Option String
  /-- Whether files may be overwritten. -/
  force : Bool
  /-- Whether the private key is put under a passphrase. -/
  protect : Bool

namespace NewPair

/-- The kind of key to make: the settings fill in what is left open. -/
def spec (settings : Settings) (pair : NewPair) : KeySpec :=
  match pair.algorithm with
  | .rsa => .rsa (pair.bits.getD settings.rsaBits)
  | .ecdsa => .ecdsa (pair.curve.getD settings.curve)
  | .ed25519 => .ed25519

/-- The file of the public key. -/
def publicOut (pair : NewPair) : String :=
  pair.out ++ ".pub"

/-- What is chosen at random for a key pair. -/
structure Choices where
  /-- The key, if one could be made. -/
  key : Result Key
  /-- The salt and the vector of a key under a passphrase. -/
  (salt iv : Octets 16)
  /-- The check number of a container. -/
  check : UInt32

/-- Draws what is chosen at random for a key of the given kind. -/
def Choices.draw (spec : KeySpec) : Draw Choices := do
  let key ← Key.generate spec
  let salt ← Draw.octets 16
  let iv ← Draw.octets 16
  let check ← Draw.uint32
  return ⟨key, salt, iv, check⟩

/-- The text of the private key file. -/
def privateText (settings : Settings) (pair : NewPair) (passphrase : Option Bytes) (choices : Choices)
    (k : Key) : Result String :=
  match pair.protect, passphrase with
  | true, some p => KeyFile.encodeEncrypted choices.salt choices.iv p k
  | true, none => .error (.failure .passphraseRequired)
  | false, _ => KeyFile.encodeCommented choices.check (pair.comment.getD settings.comment) k

/-- Looks whether the files may be written and says what is to be made. -/
def announce (settings : Settings) (pair : NewPair) : Program Unit := do
  if !pair.force then
    Program.refuseTaken pair.out
    Program.refuseTaken pair.publicOut
  Program.printLine s!"Генерация ключа {(pair.spec settings).describe}..."

/-- Writes the files of a key pair with the choices given. -/
def finish (settings : Settings) (pair : NewPair) (passphrase : Option Bytes) (choices : Choices) :
    Program Unit := do
  let k ← choices.key
  Program.writeSecret pair.out (← privateText settings pair passphrase choices k)
  Program.writeOpen pair.publicOut (← KeyFile.encodePublic k)
  Program.printLine s!"✓ Приватный ключ: {pair.out}"
  Program.printLine s!"✓ Публичный ключ: {pair.publicOut}"
  Program.printLine s!"  Идентификатор: {← k.id}"

/-- Makes a key pair with the choices given. -/
def runWith (settings : Settings) (pair : NewPair) (passphrase : Option Bytes) (choices : Choices) :
    Program Unit := do
  announce settings pair
  finish settings pair passphrase choices

/-- Makes a key pair. -/
def run (settings : Settings) (pair : NewPair) (passphrase : Option Bytes) : Program Unit := do
  announce settings pair
  finish settings pair passphrase (← Program.draw (Choices.draw (pair.spec settings)))

end NewPair

/-! ### Descriptions -/

/-- A line across the page. -/
def rule : String :=
  String.ofList (List.replicate 60 '─')

/-- Prints what a key is. -/
def inspect (path : String) : Program Unit := do
  let k ← readKey path
  Program.printLine ""
  Program.printLine path
  Program.printLine rule
  Program.printLine s!"  Алгоритм:        {k.algorithm.name}"
  Program.printLine s!"  Размер:          {k.sizeText}"
  let privateText := if k.isPrivate then "да" else "нет"
  Program.printLine s!"  Приватный ключ:  {privateText}"
  Program.printLine s!"  Идентификатор:   {← k.id}"
  Program.printLine rule
  Program.printLine ""

/-! ### Exports -/

/-- What is to be exported. -/
structure Export where
  path : String
  format : ExportFormat
  /-- Whether the secret is left out. -/
  publicOnly : Bool
  /-- The comment, if not as in the settings. -/
  comment : Option String
  /-- Whether the text is put under a passphrase. -/
  protect : Bool

/-- Prints a key in another format. -/
def Export.run (settings : Settings) (x : Export) (passphrase : Option Bytes) : Program Unit := do
  let found ← readKey x.path
  let k := if x.publicOnly then found.toPublic else found
  match passphrase with
  | some p => do
    let salt ← Program.draw (Draw.octets 16)
    let iv ← Program.draw (Draw.octets 16)
    Program.print (← x.format.encodeEncrypted salt iv p k)
  | none => do
    let check ← Program.draw Draw.uint32
    Program.print (← x.format.encode check (x.comment.getD settings.comment) k)

end Command

end KeySmith

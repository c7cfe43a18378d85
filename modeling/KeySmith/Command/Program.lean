import KeySmith.Entropy
import KeySmith.FileSystem

/-!
# Programs

A command is a program over a world: the files, a source of random octets, a passphrase from the
environment, the answers of a person at a terminal, and what has been printed. A program that fails
keeps what it did before, so the files that it wrote and the lines that it printed stay.
-/

namespace KeySmith

/-- What a command works on. -/
structure World where
  files : FileSystem
  entropy : Entropy
  /-- The passphrase that the environment gives. -/
  passphrase : Option String
  /-- What a person will type at the prompts, the next answer first. -/
  answers : List String
  /-- What has been printed. -/
  output : String

/-- A program that may fail. -/
abbrev Program (α : Type) : Type :=
  ExceptT Error (StateM World) α

namespace Program

/-- The access bits of files with secrets. -/
def secretMode : Nat :=
  0o600

/-- The access bits of new files without secrets. -/
def openMode : Nat :=
  0o644

/-- Makes random choices. -/
def draw {α : Type} (d : Draw α) : Program α := do
  let w ← get
  let (a, entropy) := d w.entropy
  set { w with entropy }
  return a

/-- Prints text. -/
def print (text : String) : Program Unit :=
  modify fun w => { w with output := w.output ++ text }

/-- Prints a line. -/
def printLine (line : String) : Program Unit :=
  print (line ++ "\n")

/-- Whether anything stands at a path. -/
def taken (path : String) : Program Bool := do
  return (← get).files.contains path

/-- Fails if anything stands at a path. -/
def refuseTaken (path : String) : Program Unit := do
  if ← taken path then throw (.file (.taken path))

/-- Reads a file. -/
def readFile (path : String) : Program Bytes := do
  (← get).files.read path

/-- Keeps the files that a write leaves, also where it fails. -/
def keepFiles (write : FileSystem → Result Unit × FileSystem) : Program Unit := do
  let w ← get
  let (result, files) := write w.files
  set { w with files }
  result

/-- Writes a file with secrets. Its access bits are narrowed even if it was there before. -/
def writeSecret (path text : String) : Program Unit :=
  keepFiles (·.putAs path (Text.toBytes text) secretMode)

/-- Writes a file without secrets. -/
def writeOpen (path text : String) : Program Unit :=
  keepFiles (·.put path (Text.toBytes text) openMode)

end Program

end KeySmith

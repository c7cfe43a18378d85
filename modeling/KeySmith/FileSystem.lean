import KeySmith.Error

/-!
# Files

The commands work on a file system that is a value: files and directories, with the access bits of the
files. Reading and writing fail as they do on a disk. Any path may refuse to be written, and a write that
has been begun may break off and leave what it has stored.

Two things of a disk are left out. There are no links, so paths with different parts never name the same
file, and a path from the root never leads into the working directory. And `..` is a name like any other,
which does not lead back to the directory above.
-/

namespace KeySmith

/-- A path as its parts: `/` in front of an absolute path, and a single point at the end of a path that
can only name a directory. -/
abbrev Path : Type :=
  List String

namespace Path

/-- The pieces of a written path between its slashes. -/
def pieces (cs : List Char) : List String :=
  go cs []
where
  go : List Char → (piece : List Char) → List String
    | [], piece => [String.ofList piece.reverse]
    | '/' :: rest, piece => String.ofList piece.reverse :: go rest []
    | c :: rest, piece => go rest (c :: piece)

/-- Whether a piece says nothing about where a path leads. -/
def isIdle (piece : String) : Bool :=
  piece == "" || piece == "."

/-- The parts of a written path. -/
def ofString (s : String) : Path :=
  let ps := pieces s.toList
  let named := ps.filter (!isIdle ·)
  let root := if s.toList.head? = some '/' then ["/"] else []
  let last := if !named.isEmpty && (ps.getLast?.map isIdle).getD false then ["."] else []
  root ++ named ++ last

/-- The octets that a part of a path may have at most. -/
def partLimit : Nat :=
  255

/-- Whether the last part of a path is longer than the name of any file. -/
def isLong (p : Path) : Bool :=
  (p.getLast?.map fun part => decide (partLimit < part.utf8ByteSize)).getD false

end Path

/-- What stands at a path. -/
inductive Entry where
  | file (content : Bytes) (mode : Nat)
  | directory
deriving DecidableEq

/-- Whether a file stands at a path. -/
def Entry.isFile : Option Entry → Bool
  | some (.file _ _) => true
  | _ => false

/-- How a write that has been begun breaks off. -/
inductive Break where
  /-- The access bits of the file may not be changed. -/
  | notOwner
  /-- There is room for so many octets only. -/
  | noSpace (room : Nat)
  /-- What has been stored cannot be brought to the disk. -/
  | notSynced
deriving DecidableEq

/-- A file system. -/
structure FileSystem where
  /-- What stands at which path. The working directory itself is not listed. -/
  entries : List (Path × Entry)
  /-- The paths that may not be written. -/
  refused : List Path
  /-- The paths that cannot be written to the end. -/
  broken : List (Path × Break)
deriving DecidableEq

namespace FileSystem

/-- A file system without files. -/
def empty : FileSystem :=
  ⟨[], [], []⟩

/-- What is listed at a path, or the directory that is always there. -/
def listed? (fs : FileSystem) (p : Path) : Option Entry :=
  if p = [] ∨ p = ["/"] then some .directory else (fs.entries.find? (·.1 == p)).map (·.2)

/-- What stands at a path. -/
def find? (fs : FileSystem) (p : Path) : Option Entry :=
  if p.getLast? = some "." then (fs.listed? p.dropLast).filter (· == .directory) else fs.listed? p

/-- Whether anything stands at a path. -/
def contains (fs : FileSystem) (name : String) : Bool :=
  name != "" && (fs.find? (.ofString name)).isSome

/-- Puts an entry at a path. -/
def insert (fs : FileSystem) (p : Path) (e : Entry) : FileSystem :=
  { fs with entries := (p, e) :: fs.entries.filter (·.1 != p) }

/-- Puts a file at a path, and directories at the paths that lead to it. -/
def insertFile (fs : FileSystem) (name : String) (content : Bytes) (mode : Nat) : FileSystem :=
  let p := Path.ofString name
  let parents := ((List.range p.length).drop 1).map p.take
  (parents.foldl (·.insert · .directory) fs).insert p (.file content mode)

/-- Why there is nothing at a path. The first place on the way where nothing stands is below a file, or
has a name that is too long, or is missing. -/
def absence (fs : FileSystem) (p : Path) : FileFault :=
  let places := (List.range p.length).map fun n => p.take (n + 1)
  match places.find? fun q => (fs.find? q).isNone with
  | none => .notFound
  | some q =>
    if Entry.isFile (fs.find? q.dropLast) then .notDirectory
    else if q.isLong then .nameTooLong
    else .notFound

/-- The content of a file. -/
def read (fs : FileSystem) (name : String) : Result Bytes :=
  let p := Path.ofString name
  if name = "" then .error (.file .notFound)
  else match fs.find? p with
    | some (.file content _) => .ok content
    | some .directory => .error (.file .isDirectory)
    | none => .error (.file (fs.absence p))

/-- The text in a file. -/
def readText (fs : FileSystem) (name : String) : Result String := do
  Result.ofOption (.file .notUtf8) (Text.ofBytes? (← fs.read name))

/-! ### Writing -/

/-- Opens a file to be written, and tells its access bits. A file that is not there is made, with the
access bits given. -/
def openFor (fs : FileSystem) (name : String) (newMode : Nat) : Except FileFault Nat :=
  let p := Path.ofString name
  if name = "" then .error .notFound
  else if fs.refused.contains p then .error .notPermitted
  else match fs.find? p with
    | some .directory => .error .isDirectory
    | some (.file _ mode) => .ok mode
    | none =>
      if fs.find? p.dropLast = some .directory ∧ ¬ p.isLong then .ok newMode
      else .error (fs.absence p)

/-- Where a write of a path breaks off, if it does. -/
def break? (fs : FileSystem) (p : Path) : Option Break :=
  (fs.broken.find? (·.1 == p)).map (·.2)

/-- Stores octets in a file that has been opened, as far as there is room. -/
def store (fs : FileSystem) (p : Path) (content : Bytes) (mode : Nat) : Result Unit × FileSystem :=
  match fs.break? p with
  | some (.noSpace room) =>
    if room < content.length then
      (.error (.file .noSpace), fs.insert p (.file (content.take room) mode))
    else (.ok (), fs.insert p (.file content mode))
  | _ => (.ok (), fs.insert p (.file content mode))

/-- Replaces the content of a file, or makes a file with the access bits given. A file that is there
keeps its access bits. -/
def put (fs : FileSystem) (name : String) (content : Bytes) (newMode : Nat) :
    Result Unit × FileSystem :=
  match fs.openFor name newMode with
  | .error f => (.error (.file f), fs)
  | .ok mode => fs.store (.ofString name) content mode

/-- Replaces the content of a file and its access bits, or makes such a file, and brings it to the
disk. The access bits are changed when the file is empty. -/
def putAs (fs : FileSystem) (name : String) (content : Bytes) (mode : Nat) :
    Result Unit × FileSystem :=
  let p := Path.ofString name
  match fs.openFor name mode with
  | .error f => (.error (.file f), fs)
  | .ok found =>
    if fs.break? p = some .notOwner then (.error (.file .notOwner), fs.insert p (.file [] found))
    else if fs.break? p = some .notSynced then
      (.error (.file .notSynced), fs.insert p (.file content mode))
    else fs.store p content mode

/-- The files after a write that did not fail. -/
def written (outcome : Result Unit × FileSystem) : Result FileSystem :=
  outcome.1.map fun _ => outcome.2

/-- The files after the content of a file has been replaced, or a file made. -/
def write (fs : FileSystem) (name : String) (content : Bytes) (newMode : Nat) : Result FileSystem :=
  written (fs.put name content newMode)

/-- The files after the content of a file and its access bits have been replaced, or a file made. -/
def writeAs (fs : FileSystem) (name : String) (content : Bytes) (mode : Nat) : Result FileSystem :=
  written (fs.putAs name content mode)

end FileSystem

end KeySmith

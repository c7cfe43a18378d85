import KeySmith.Command.Run

/-!
# The program

The outer layer: it looks up the files that a command line names, runs the tool on them and carries out
on the disk what the tool did. There is no terminal behind it, so passphrases come from the environment.
-/

namespace KeySmith.Main

/-- What stands at a path on the disk. Access bits are nominal. -/
def look (name : String) : IO (Option Entry) := do
  try
    let place ← IO.FS.realPath name
    if ← place.isDir then return some .directory
    else return some (.file (← IO.FS.readBinFile name).toList Program.openMode)
  catch _ => return none

/-- The directories that a path goes through, as written paths. -/
def passages (p : Path) : List String :=
  ((List.range p.length).drop 1).map fun n => "/".intercalate (p.take n)

/-- The part of the disk around the given paths. -/
def load (names : List String) : IO FileSystem :=
  (names.flatMap fun name => passages (.ofString name) ++ [name]).foldlM
    (fun files name => do
      match ← look name with
      | some entry => return files.insert (.ofString name) entry
      | none => return files)
    .empty

/-- Brings a file on the disk to what a run left. A secret is written after the access bits are
narrowed. -/
def store (before after : FileSystem) (name : String) : IO Unit := do
  match after.find? (.ofString name) with
  | some (.file content mode) =>
    if before.find? (.ofString name) ≠ some (.file content mode) then
      if mode = Program.secretMode then
        IO.FS.writeFile name ""
        IO.setAccessRights name ⟨⟨true, true, false⟩, ⟨false, false, false⟩, ⟨false, false, false⟩⟩
      IO.FS.writeBinFile name ⟨content.toArray⟩
  | _ => return

/-- The paths that a command line names. -/
def pathsOf (args : List String) : List String :=
  match CommandLine.Invocation.parse args with
  | .ok invocation => invocation.paths
  | .error _ => []

end KeySmith.Main

/-- Runs the tool. -/
def main (args : List String) : IO UInt32 := do
  let paths := KeySmith.Main.pathsOf args
  let files ← KeySmith.Main.load paths
  let world : KeySmith.World := {
    files
    entropy := ⟨(← IO.getRandomBytes 64).toList, 0⟩
    passphrase := ← IO.getEnv "KEYCRYPT_PASSPHRASE"
    answers := []
    output := "" }
  let outcome := KeySmith.CommandLine.run world args
  paths.forM (KeySmith.Main.store files outcome.files)
  let out ← IO.getStdout
  out.putStr outcome.output
  out.flush
  (← IO.getStderr).putStr outcome.complaint
  return outcome.code.toUInt32

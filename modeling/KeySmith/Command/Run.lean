import KeySmith.Command.Invocation

/-!
# Running the tool

A run reads the command line, loads the settings and carries out the action. It prints text, may
complain, and ends with a code: 0, or 1 after an error, or 2 if the command line is wrong.
-/

namespace KeySmith

/-- The settings in a file, or those that hold without one. -/
def Settings.load (files : FileSystem) : (path : Option String) → Result Settings
  | none => .ok {}
  | some path => files.read path >>= Settings.decode

/-- Writes settings to a file. Nothing is written if they are not valid. -/
def Settings.put (files : FileSystem) (path : String) (s : Settings) : Result Unit × FileSystem :=
  match s.encode with
  | .error e => (.error e, files)
  | .ok text => files.put path (Text.toBytes text) Program.openMode

/-- The files after settings have been written to one. -/
def Settings.save (files : FileSystem) (path : String) (s : Settings) : Result FileSystem :=
  FileSystem.written (s.put files path)

namespace CommandLine

/-- The passphrase for what a command writes, if one is wanted. -/
def newPassphrase (wanted : Bool) : Program (Option Bytes) := do
  if wanted then return some (Text.toBytes (← Passphrase.forNew)) else return none

namespace Action

/-- Carries out an action. -/
def run (settings : Settings) : Action → Program Unit
  | generate pair => do pair.run settings (← newPassphrase pair.protect)
  | inspect path => Command.inspect path
  | exportKey x => do x.run settings (← newPassphrase x.protect)
  | encrypt path message => Command.encrypt path message
  | decrypt path ciphertext => Command.decrypt path ciphertext
  | newSharedKey path bits force => Command.newSharedKey path bits force
  | sharedEncrypt path message => Command.sharedEncrypt path message
  | sharedDecrypt path ciphertext => Command.sharedDecrypt path ciphertext

/-- The files that an action may read or write. -/
def paths : Action → List String
  | generate pair => [pair.out, pair.publicOut]
  | inspect path => [path]
  | exportKey x => [x.path]
  | encrypt path _ => [path]
  | decrypt path _ => [path]
  | newSharedKey path _ _ => [path]
  | sharedEncrypt path _ => [path]
  | sharedDecrypt path _ => [path]

end Action

namespace Invocation

/-- Loads the settings and carries out the action. -/
def run (i : Invocation) : Program Unit := do
  let settings ← Settings.load (← get).files i.settings
  i.action.run settings

/-- The files that an invocation may read or write. -/
def paths (i : Invocation) : List String :=
  i.settings.toList ++ i.action.paths

end Invocation

/-- What a run leaves behind. -/
structure Outcome where
  code : Nat
  /-- What has been printed. -/
  output : String
  /-- The line of complaint, empty if there is none. -/
  complaint : String
  files : FileSystem
  entropy : Entropy

/-- The version of the tool. -/
def versionText : String :=
  "keycrypt 0.1.0\n"

/-- How the tool is used. -/
def helpText : String :=
  "Usage: keycrypt [--config <CONFIG>] <COMMAND>\n\nCommands: "
    ++ ", ".intercalate (commands.map (·.name) ++ [helpName]) ++ "\n"

/-- The complaint about an error. -/
def complaint (e : Error) : String :=
  "Ошибка: " ++ e.message ++ "\n"

/-- Runs the tool on the words of a command line. -/
def run (w : World) (args : List String) : Outcome :=
  match Invocation.parse args with
  | .error .help => ⟨0, helpText, "", w.files, w.entropy⟩
  | .error .version => ⟨0, versionText, "", w.files, w.entropy⟩
  | .error .usage => ⟨2, "", helpText, w.files, w.entropy⟩
  | .ok i =>
    match i.run.run w with
    | (.ok (), w) => ⟨0, w.output, "", w.files, w.entropy⟩
    | (.error e, w) => ⟨1, w.output, complaint e, w.files, w.entropy⟩

end CommandLine

end KeySmith

import KeySmith.Command.Line
import KeySmith.Command.Message

/-!
# Invocations

An invocation is what a command line asks for: one action, with the file of settings if one is named.
Each command has a grammar for its words and a function that makes an action of what they say.
-/

namespace KeySmith

/-- The algorithms. -/
def Algorithm.all : List Algorithm :=
  [rsa, ecdsa, ed25519]

/-- The algorithm with the given name. -/
def Algorithm.ofName? (s : String) : Option Algorithm :=
  all.find? (·.name == s)

namespace CommandLine

/-- What can be asked for. -/
inductive Action where
  | generate (pair : Command.NewPair)
  | inspect (path : String)
  | exportKey (x : Command.Export)
  | encrypt (path message : String)
  | decrypt (path ciphertext : String)
  | newSharedKey (path : String) (bits : Nat) (force : Bool)
  | sharedEncrypt (path message : String)
  | sharedDecrypt (path ciphertext : String)

/-- An action and the file of settings. -/
structure Invocation where
  settings : Option String
  action : Action

/-! ### Words -/

/-- Any word will do. -/
def isText (_ : String) : Bool :=
  true

/-- A path is not empty. -/
def isPath (s : String) : Bool :=
  s != ""

/-- The size that a word gives: digits, behind a plus sign or not, below 2⁶⁴. -/
def size? (s : String) : Option Nat :=
  let digits := match s.toList with
    | '+' :: cs => cs
    | cs => cs
  if digits ≠ [] ∧ digits.all Char.isDigit then
    some (Json.Value.digitsValue digits) |>.filter (· < twoTo 64)
  else none

/-! ### Options -/

/-- The option of the file of settings. -/
def configRule : OptionRule :=
  ⟨"config", none, .value isPath⟩

/-- The option that asks for help. -/
def helpRule : OptionRule :=
  ⟨"help", some 'h', .help⟩

/-- The option that asks for the version. -/
def versionRule : OptionRule :=
  ⟨"version", some 'V', .version⟩

/-- The option of the file of a new key. -/
def outRule : OptionRule :=
  ⟨"out", some 'o', .value isPath⟩

/-- The option of the file of a key. -/
def keyRule : OptionRule :=
  ⟨"key", some 'k', .value isPath⟩

/-- The option of a size. -/
def bitsRule : OptionRule :=
  ⟨"bits", none, .value fun s => (size? s).isSome⟩

/-- The option of a comment. -/
def commentRule : OptionRule :=
  ⟨"comment", none, .value isText⟩

/-- A flag. -/
def flagRule (name : String) : OptionRule :=
  ⟨name, none, .flag⟩

/-- The words in front of the name of a command. -/
def opening : Grammar :=
  ⟨[configRule, helpRule, versionRule], [], true⟩

/-- The words of a command. -/
def wordsOf (options : List OptionRule) (operands : List (String → Bool)) : Grammar :=
  ⟨options ++ [configRule, helpRule], operands, false⟩

/-! ### Commands -/

/-- A command: its name, its words and what they ask for. There is no action if something that the
command needs is missing. -/
structure CommandRule where
  name : String
  words : Grammar
  action? : Found → Option Action

/-- A command with the file of a key and a text. -/
def textCommand (name : String) (action : String → String → Action) : CommandRule where
  name
  words := wordsOf [keyRule] [isText]
  action? f := do
    let path ← f.value? "key"
    let text ← f.operands[0]?
    return action path text

/-- The command that makes a key pair. -/
def generateCommand : CommandRule where
  name := "generate"
  words := wordsOf [
    ⟨"algorithm", some 'a', .value fun s => (Algorithm.ofName? s).isSome⟩,
    bitsRule,
    ⟨"curve", none, .value fun s => (Curve.ofSpelling? s).isSome⟩,
    outRule, commentRule, flagRule "force", flagRule "passphrase"] []
  action? f := do
    let out ← f.value? "out"
    return .generate {
      algorithm := (f.value? "algorithm" >>= Algorithm.ofName?).getD .ed25519
      bits := f.value? "bits" >>= size?
      curve := f.value? "curve" >>= Curve.ofSpelling?
      out
      comment := f.value? "comment"
      force := f.has "force"
      protect := f.has "passphrase" }

/-- The command that describes a key. -/
def inspectCommand : CommandRule where
  name := "inspect"
  words := wordsOf [] [isPath]
  action? f := do
    let path ← f.operands[0]?
    return .inspect path

/-- The command that prints a key in another format. -/
def exportCommand : CommandRule where
  name := "export"
  words := wordsOf [
    ⟨"format", some 'f', .value fun s => (ExportFormat.ofName? s).isSome⟩,
    flagRule "public", commentRule, flagRule "passphrase"] [isPath]
  action? f := do
    let path ← f.operands[0]?
    let format ← f.value? "format" >>= ExportFormat.ofName?
    return .exportKey {
      path
      format
      publicOnly := f.has "public"
      comment := f.value? "comment"
      protect := f.has "passphrase" }

/-- The size of a shared key, if none is asked for. -/
def sharedKeyBits : Nat :=
  256

/-- The command that makes a shared key. -/
def newSharedKeyCommand : CommandRule where
  name := "common-keygen"
  words := wordsOf [outRule, bitsRule, flagRule "force"] []
  action? f := do
    let out ← f.value? "out"
    return .newSharedKey out ((f.value? "bits" >>= size?).getD sharedKeyBits) (f.has "force")

/-- The commands. -/
def commands : List CommandRule :=
  [generateCommand, inspectCommand, exportCommand,
    textCommand "encrypt" .encrypt, textCommand "decrypt" .decrypt, newSharedKeyCommand,
    textCommand "common-encrypt" .sharedEncrypt, textCommand "common-decrypt" .sharedDecrypt]

/-- The command with the given name. -/
def command? (name : String) : Option CommandRule :=
  commands.find? (·.name == name)

/-- The name of the command that explains commands. -/
def helpName : String :=
  "help"

/-- The answer to a request for help on a command, or on the whole tool. -/
def helpOn : List String → Halt
  | [] => .help
  | [name] => if name = helpName ∨ (command? name).isSome then .help else .usage
  | _ => .usage

/-- Reads a command line. A file of settings named behind the command wins over one in front of it. -/
def Invocation.parse (args : List String) : Except Halt Invocation := do
  let front ← opening.read {} none args
  match front.operands with
  | [] => throw .usage
  | name :: _ =>
    if name = helpName then throw (helpOn front.rest)
    match command? name with
    | none => throw .usage
    | some command => do
      let found ← command.words.read {} none front.rest
      match command.action? found with
      | none => throw .usage
      | some action =>
        return ⟨(found.value? "config").or (front.value? "config"), action⟩

end CommandLine

end KeySmith

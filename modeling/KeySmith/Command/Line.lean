import KeySmith.Text.Search

/-!
# Command lines

A command line is read from left to right against a grammar. Options have long names (`--name`) and
may have a letter (`-n`); their values stand in the next word or are attached, as in `--name=value`,
`-n=value` or `-nvalue`. The word `--` ends the options, and all other words are operands. The first
word that does not fit decides the outcome, as does the first one that asks for help.
-/

namespace KeySmith.CommandLine

/-- Why a command line does not lead to a command. -/
inductive Halt where
  | usage
  | help
  | version
deriving DecidableEq, Repr

/-- What an option is for. -/
inductive OptionUse where
  | flag
  | value (accepts : String → Bool)
  | help
  | version

/-- An option. -/
structure OptionRule where
  name : String
  letter? : Option Char
  use : OptionUse

/-- What may stand on a command line. -/
structure Grammar where
  options : List OptionRule
  /-- What each operand has to be. -/
  operands : List (String → Bool)
  /-- Whether the first operand is the name of a command, which the words behind it are for. -/
  leads : Bool

/-- What stands on a command line. -/
structure Found where
  /-- The options with their values; the value of a flag is empty. -/
  options : List (String × String) := []
  operands : List String := []
  /-- The words behind the name of a command. -/
  rest : List String := []

namespace Found

/-- The value of an option, if it is there. -/
def value? (f : Found) (name : String) : Option String :=
  (f.options.find? (·.1 == name)).map (·.2)

/-- Whether a flag is there. -/
def has (f : Found) (name : String) : Bool :=
  (f.value? name).isSome

/-- Adds an option, which may not be there twice. -/
def put (f : Found) (name value : String) : Except Halt Found :=
  if f.has name then .error .usage else .ok { f with options := (name, value) :: f.options }

/-- Adds the value of an option. -/
def take (f : Found) (rule : OptionRule) (value : String) : Except Halt Found :=
  match rule.use with
  | .value accepts => if accepts value then f.put rule.name value else .error .usage
  | _ => .error .usage

end Found

/-- The kinds of words. -/
inductive Word where
  /-- The end of the options. -/
  | separator
  | long (name : String) (attached? : Option String)
  | letters (cs : List Char)
  | operand
deriving DecidableEq, Repr

/-- The kind of a word. A single dash is an operand. -/
def Word.ofString (s : String) : Word :=
  match s.toList with
  | ['-', '-'] => separator
  | '-' :: '-' :: cs =>
    match Text.cut? ['='] cs with
    | some (name, value) => long (String.ofList name) (some (String.ofList value))
    | none => long (String.ofList cs) none
  | '-' :: c :: cs => letters (c :: cs)
  | _ => operand

namespace Grammar

/-- Adds an operand. -/
def place (g : Grammar) (f : Found) (operand : String) : Except Halt Found :=
  match g.operands[f.operands.length]? with
  | some accepts =>
    if accepts operand then .ok { f with operands := f.operands ++ [operand] } else .error .usage
  | none => .error .usage

/-- Reads letters of options. Also tells the option that waits for its value in the next word. -/
def readLetters (g : Grammar) : (f : Found) → List Char → Except Halt (Found × Option OptionRule)
  | f, [] => .ok (f, none)
  | f, c :: cs =>
    match g.options.find? (·.letter? == some c) with
    | none => .error .usage
    | some rule =>
      match rule.use with
      | .help => .error .help
      | .version => .error .version
      | .flag => do
        let f ← f.put rule.name ""
        g.readLetters f cs
      | .value _ =>
        match cs with
        | [] => .ok (f, some rule)
        | '=' :: value => (f.take rule (String.ofList value)).map (·, none)
        | value => (f.take rule (String.ofList value)).map (·, none)

/-- Reads a long option. Also tells whether it waits for its value in the next word. -/
def readLong (g : Grammar) (f : Found) (name : String) (attached? : Option String) :
    Except Halt (Found × Option OptionRule) :=
  match g.options.find? (·.name == name) with
  | none => .error .usage
  | some rule =>
    match rule.use, attached? with
    | .value _, some value => (f.take rule value).map (·, none)
    | .value _, none => .ok (f, some rule)
    | _, some _ => .error .usage
    | .flag, none => (f.put rule.name "").map (·, none)
    | .help, none => .error .help
    | .version, none => .error .version

/-- Reads the words of a command line after what was found so far. -/
def read (g : Grammar) : (f : Found) → (waiting? : Option OptionRule) → List String →
    Except Halt Found
  | f, none, [] => .ok f
  | _, some _, [] => .error .usage
  | f, some rule, word :: rest =>
    match Word.ofString word with
    | .operand => do
      let f ← f.take rule word
      g.read f none rest
    | _ => .error .usage
  | f, none, word :: rest =>
    match Word.ofString word with
    | .separator => rest.foldlM g.place f
    | .long name attached? => do
      let (f, waiting?) ← g.readLong f name attached?
      g.read f waiting? rest
    | .letters cs => do
      let (f, waiting?) ← g.readLetters f cs
      g.read f waiting? rest
    | .operand =>
      if g.leads then .ok { f with operands := [word], rest }
      else do
        let f ← g.place f word
        g.read f none rest

end Grammar

end KeySmith.CommandLine

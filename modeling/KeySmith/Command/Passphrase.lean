import KeySmith.Command.Program

/-!
# Passphrases

A passphrase comes from the environment, or else a person is asked for it. A new passphrase has to
be typed twice and to be long enough; the question is put again until it is.
-/

namespace KeySmith.Passphrase

/-- The fewest characters of a new passphrase that is typed. -/
def shortest : Nat :=
  8

/-- The passphrase of the environment, unless it is empty. -/
def given? : Program (Option String) := do
  return (← get).passphrase.filter (· != "")

/-- What a person is told before choosing a passphrase. -/
def introduction : String :=
  s!"Защита ключа паролем\nМинимальная длина: {shortest} символов\n"

/-- What a person is told about a passphrase that is too short. -/
def tooShort : String :=
  s!"Ошибка: Пароль должен содержать минимум {shortest} символов"

/-- What a person is told when the second answer differs from the first. -/
def different : String :=
  "Ошибка: Пароли не совпадают"

/-- Takes answers until one is long enough and is repeated by the next. There is no terminal behind
the last answer. -/
def choose : (answers : List String) → Program String
  | [] => throw (.file .noTerminal)
  | first :: rest => do
    modify fun w => { w with answers := rest }
    if first.length < shortest then
      Program.printLine tooShort
      choose rest
    else match rest with
      | [] => throw (.file .noTerminal)
      | second :: rest => do
        modify fun w => { w with answers := rest }
        if first = second then return first
        else
          Program.printLine different
          choose rest

/-- The passphrase for a new key. -/
def forNew : Program String := do
  match ← given? with
  | some p => return p
  | none => do
    Program.printLine introduction
    choose (← get).answers

/-- The passphrase of a key that is there. -/
def forOld : Program String := do
  match ← given? with
  | some p => return p
  | none => do
    match (← get).answers with
    | [] => throw (.file .noTerminal)
    | answer :: rest => do
      modify fun w => { w with answers := rest }
      return answer

end KeySmith.Passphrase

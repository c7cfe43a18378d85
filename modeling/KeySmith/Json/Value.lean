import KeySmith.Text.Utf8

/-!
# JSON values

Numbers are kept as they are written, since what they may look like depends on the member they stand
for. A string may spell half of a surrogate pair, which is no character; such a string has no text.
-/

namespace KeySmith.Json

/-- A JSON value. -/
inductive Value where
  | null
  | bool (b : Bool)
  | number (literal : List Char)
  | string (text? : Option (List Char))
  | array (elements : List Value)
  | object (members : List (Option (List Char) × Value))

namespace Value

/-- The text of a string. -/
def text? : Value → Option String
  | string (some cs) => some (String.ofList cs)
  | _ => none

/-- The number that decimal digits stand for. -/
def digitsValue (cs : List Char) : Nat :=
  cs.foldl (fun n c => 10 * n + (c.toNat - 48)) 0

/-- The value of a number that is written with digits alone. -/
def natural? : Value → Option Nat
  | number literal => if literal.all Char.isDigit then some (digitsValue literal) else none
  | _ => none

end Value

/-- What is wrong with a JSON text, or with the values in it. -/
inductive Fault where
  /-- The text is not JSON. -/
  | malformed
  /-- The value is neither an object nor an array of members. -/
  | notAnObject
  /-- A member has a name that is not text. -/
  | badName
  | missing (name : String)
  | repeated (name : String)
  | mistyped (name : String)
  /-- An array has more elements than there are members. -/
  | tooMany
deriving DecidableEq

/-- What is said of a fault. -/
def Fault.message : Fault → String
  | malformed => "the text is not JSON"
  | notAnObject => "the value is not an object"
  | badName => "a member name is not text"
  | missing name => "missing member " ++ name
  | repeated name => "repeated member " ++ name
  | mistyped name => "member " ++ name ++ " has the wrong type"
  | tooMany => "too many elements"

/-! ### Members by name -/

/-- The values of an object for a list of names, `none` where a name does not occur. Other members
are passed over, and a name may occur once only. -/
def collect (names : List String) : List (Option (List Char) × Value) →
    Except Fault (List (String × Value))
  | [] => .ok []
  | (none, _) :: _ => .error .badName
  | (some cs, v) :: rest => do
    let name := String.ofList cs
    let more ← collect names rest
    if names.contains name then
      if more.any (·.1 == name) then throw (.repeated name)
      return (name, v) :: more
    else return more

/-- The named members of a value. An array stands for an object when it lists the members in their
order; it may stop early. -/
def members (names : List String) : Value → Except Fault (List (String × Value))
  | .object ms => collect names ms
  | .array vs => if vs.length ≤ names.length then .ok (names.zip vs) else .error .tooMany
  | _ => .error .notAnObject

/-- The value of the member with a name. -/
def lookup? (name : String) (ms : List (String × Value)) : Option Value :=
  (ms.find? (·.1 == name)).map (·.2)

end KeySmith.Json

import KeySmith.Json.Printer
import KeySmith.Json.Reader
import KeySmith.Key.Generate

/-!
# Settings

Settings are defaults for new keys and for exports. They are kept in a JSON file that may leave any
of them out.
-/

namespace KeySmith

/-- The settings of the tool. -/
structure Settings where
  /-- The size of the modulus of new RSA keys. -/
  rsaBits : Nat := 2048
  /-- The curve of new elliptic curve keys. -/
  curve : Curve := .p256
  /-- The comment of containers and authorized key lines. -/
  comment : String := ""
  /-- Which log messages are wanted. -/
  logFilter : String := "warn"
deriving DecidableEq

namespace Settings

/-- The settings, if new keys may have the size that they say. -/
def validate (s : Settings) : Result Settings :=
  if isRsaSize s.rsaBits then .ok s else .error (.malformed (.settingsBits s.rsaBits))

/-! ### Writing -/

/-- The names of the settings in their order. -/
def names : List String :=
  ["rsa_bits", "ecdsa_curve", "comment", "log_filter"]

/-- The text of a settings file. -/
def text (s : Settings) : String :=
  Json.pretty [("rsa_bits", .natural s.rsaBits), ("ecdsa_curve", .text s.curve.name),
    ("comment", .text s.comment), ("log_filter", .text s.logFilter)]

/-- The text of a settings file, if the settings are valid. -/
def encode (s : Settings) : Result String :=
  s.validate.map text

/-! ### Reading -/

/-- The bound of sizes. -/
def sizeBound : Nat :=
  twoTo 64

/-- The size that a value gives. -/
def bitsOf? (v : Json.Value) : Option Nat :=
  v.natural?.filter (· < sizeBound)

/-- The curve with the given name. -/
def curveOfName? (name : String) : Option Curve :=
  Curve.all.find? (·.name == name)

/-- The curve that a value gives: its name, or an object with the name for its only member and no
value for it. -/
def curveOf? : Json.Value → Option Curve
  | .object [(some name, .null)] => curveOfName? (String.ofList name)
  | v => v.text?.bind curveOfName?

/-- A setting that may be left out. -/
def optional {α : Type} (ms : List (String × Json.Value)) (name : String)
    (read? : Json.Value → Option α) (default : α) : Except Json.Fault α :=
  match Json.lookup? name ms with
  | none => .ok default
  | some v =>
    match read? v with
    | some a => .ok a
    | none => .error (.mistyped name)

/-- The settings that a value describes. -/
def ofValue (v : Json.Value) : Except Json.Fault Settings := do
  let ms ← Json.members names v
  let base : Settings := {}
  return {
    rsaBits := ← optional ms "rsa_bits" bitsOf? base.rsaBits
    curve := ← optional ms "ecdsa_curve" curveOf? base.curve
    comment := ← optional ms "comment" Json.Value.text? base.comment
    logFilter := ← optional ms "log_filter" Json.Value.text? base.logFilter }

/-- Reads settings from the text of a file. -/
def decodeText (s : String) : Result Settings := do
  let settings ← Result.of .json (Json.parse s >>= ofValue)
  settings.validate

/-- Reads settings from a file. -/
def decode (bs : Bytes) : Result Settings := do
  decodeText (← Result.ofOption (.file .notUtf8) (Text.ofBytes? bs))

end Settings

end KeySmith

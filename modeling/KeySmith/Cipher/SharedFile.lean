import KeySmith.Cipher.Shared

/-!
# Files of shared keys

A shared key is kept in a file as one line of hexadecimal digits. White space around the digits does
not matter.
-/

namespace KeySmith.SharedKey

/-- The text of a key file. -/
def encodeFile (k : SharedKey) : String :=
  Hex.encode k.bytes ++ "\n"

/-- Reads the text of a key file. -/
def decodeFileText (text : String) : Result SharedKey := do
  let digits := String.ofList (Text.trim text.toList)
  ofBytes (← Result.of (fun f => .malformed (.keyFile f)) (Hex.decodeText digits))

/-- Reads a key file. -/
def decodeFile (content : Bytes) : Result SharedKey :=
  Result.ofOption (.file .notUtf8) (Text.ofBytes? content) >>= decodeFileText

end KeySmith.SharedKey

import KeySmith.Base64
import KeySmith.Ssh.PublicKey
import KeySmith.Text.Search

/-!
# Authorized key lines

A line of a list of authorized keys: the type name, the public key blob in Base64, and a comment,
separated by white space. The type name has to be the one of the blob.
-/

namespace KeySmith.Ssh.AuthorizedLine

/-- The error of a fault of a line. -/
def fault (f : LineFault) : Error :=
  .malformed (.line f)

/-- The line of a key with a comment, without white space at its end. -/
def encode (k : Key) (comment : String) : String :=
  String.ofList <| Text.trimEnd <|
    (typeName k).toList ++ ' ' :: (Base64.encodeChars Base64.standard (publicBlob k)
      ++ ' ' :: comment.toList)

/-- Reads a line and returns the key and the comment. -/
def decode (line : String) : Result (Key × String) := do
  let (name, behindName) := Text.splitBlank (Text.trim line.toList)
  if name.isEmpty then throw (fault .empty)
  let some rest := behindName | throw (fault .noKeyData)
  let (encoded, behindKey) := Text.splitBlank rest
  let comment := Text.trim (behindKey.getD [])
  let blob ← Result.of (fun f => fault (.keyData f))
    (Base64.decodeText Base64.standard (String.ofList encoded))
  let key ← decodeBlob blob
  if typeName key ≠ String.ofList name then
    throw (.algorithmMismatch (String.ofList name) (typeName key))
  return (key, String.ofList comment)

/-- Whether a text starts as a line does. -/
def isLine (text : List Char) : Bool :=
  startsAsName (Text.trimStart text)

end KeySmith.Ssh.AuthorizedLine

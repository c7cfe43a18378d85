import KeySmith.Cipher.PublicKey
import KeySmith.Cipher.SharedFile
import KeySmith.Command.KeyPair
import KeySmith.SecretBytes

/-!
# Commands on messages

Messages are encrypted to a key file or under a shared key file; ciphertexts are in Base64. A message
has to be text to be printed.
-/

namespace KeySmith.Command

/-- Prints a decrypted message. -/
def printMessage (message : Bytes) : Program Unit := do
  Program.printLine (← SecretBytes.toText ⟨message⟩)

/-- Encrypts a message to a key. -/
def encrypt (path message : String) : Program Unit := do
  let k ← readKey path
  let ciphertext ← Program.draw (Cipher.encryptBase64 k (Text.toBytes message))
  Program.printLine (← ciphertext)

/-- Decrypts a ciphertext with a private key. -/
def decrypt (path ciphertext : String) : Program Unit := do
  let k ← readKey path
  printMessage (← Cipher.decryptBase64 k ciphertext)

/-- Reads the file of a shared key. -/
def readSharedKey (path : String) : Program SharedKey := do
  SharedKey.decodeFile (← Program.readFile path)

/-- Makes a shared key and writes it to a file. Of the size, whole octets count. -/
def newSharedKey (path : String) (bits : Nat) (force : Bool) : Program Unit := do
  if !force then Program.refuseTaken path
  let k ← (← Program.draw (SharedKey.generate (bits / 8)))
  Program.writeSecret path k.encodeFile
  Program.printLine s!"✓ Общий ключ AES-{bits}: {path}"

/-- Encrypts a message under a shared key. -/
def sharedEncrypt (path message : String) : Program Unit := do
  let k ← readSharedKey path
  let ciphertext ← Program.draw (k.encrypt (Text.toBytes message))
  Program.printLine (Cipher.toBase64 ciphertext)

/-- Decrypts a ciphertext under a shared key. -/
def sharedDecrypt (path ciphertext : String) : Program Unit := do
  let k ← readSharedKey path
  let octets ← Cipher.ofBase64 ciphertext
  printMessage (← k.decrypt octets)

end KeySmith.Command

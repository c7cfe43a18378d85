import KeySmith.Aes.Block

/-!
# Block chaining, padding and the keystream mode

Chaining adds each ciphertext block to the next plaintext block before encryption, so it needs whole
blocks: a message is padded by as many octets as are missing, each holding their number, and by a
whole block when none is missing. Output feedback encrypts the initialisation vector again and again
and adds the results to the message, of any length.
-/

namespace KeySmith.Aes

/-! ### Padding -/

/-- The message with its padding to whole blocks. -/
def pad (message : Bytes) : Bytes :=
  let missing := 16 - message.length % 16
  message ++ List.replicate missing missing.toUInt8

/-- The message without its padding, if the padding is well formed. -/
def unpad? (padded : Bytes) : Option Bytes :=
  match padded.getLast? with
  | none => none
  | some last =>
    let count := last.toNat
    if 0 < count ∧ count ≤ 16 ∧ count ≤ padded.length ∧
        (padded.drop (padded.length - count)).all (· == last) then
      some (padded.take (padded.length - count))
    else none

/-! ### Chaining -/

/-- The blocks of octets; those that do not fill a block are left out. -/
def wholeBlocks : Bytes → List Block
  | a :: b :: c :: d :: e :: f :: g :: h :: i :: j :: k :: l :: m :: n :: o :: p :: rest =>
    ⟨⟨a, b, c, d⟩, ⟨e, f, g, h⟩, ⟨i, j, k, l⟩, ⟨m, n, o, p⟩⟩ :: wholeBlocks rest
  | _ => []

/-- Encrypts blocks, each added to the ciphertext before it. -/
def chain (k : RoundKeys) : (last : Block) → List Block → List Block
  | _, [] => []
  | last, x :: rest =>
    let y := encryptBlock k (x.xor last)
    y :: chain k y rest

/-- Decrypts blocks that were chained. -/
def unchain (k : RoundKeys) : (last : Block) → List Block → List Block
  | _, [] => []
  | last, y :: rest => (decryptBlock k y).xor last :: unchain k y rest

/-- Pads and encrypts a message by chaining, under a key of 16, 24 or 32 octets. -/
def encryptChained (key : Bytes) (iv : Octets 16) (message : Bytes) : Bytes :=
  (chain (.ofKey key) (.ofOctets iv) (wholeBlocks (pad message))).flatMap Block.toBytes

/-- Decrypts a chained message, if it consists of whole blocks and is padded. -/
def decryptChained? (key : Bytes) (iv : Octets 16) (ciphertext : Bytes) : Option Bytes :=
  if ciphertext.length % 16 = 0 then
    unpad? ((unchain (.ofKey key) (.ofOctets iv) (wholeBlocks ciphertext)).flatMap Block.toBytes)
  else none

/-! ### Output feedback -/

/-- The first `count` blocks of the keystream that starts from a block. -/
def feedback (k : RoundKeys) : (count : Nat) → (last : Block) → List Block
  | 0, _ => []
  | count + 1, last =>
    let next := encryptBlock k last
    next :: feedback k count next

/-- The message with the keystream of the initialisation vector added to it. A second application
gives the message back. -/
def applyKeystream (key : Bytes) (iv : Octets 16) (message : Bytes) : Bytes :=
  Bytes.xor message
    ((feedback (.ofKey key) ((message.length + 15) / 16) (.ofOctets iv)).flatMap Block.toBytes)

end KeySmith.Aes

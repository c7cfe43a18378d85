import KeySmith.Entropy
import KeySmith.Key.Rsa

/-!
# RSA encryption of one block

A message is put behind random filler into a block as long as the modulus: the octets 0 and 2, at
least eight nonzero octets, a zero octet and the message. Decryption goes by the primes and encrypts
its result again as a check.
-/

namespace KeySmith.Cipher.Rsa

/-- The octets of a block that no message can use. -/
def overhead : Nat :=
  11

/-- The longest message for a key. -/
def messageLimit (k : RsaKey) : Nat :=
  k.size - overhead

/-- The filler that a message needs. -/
def fillerLength (k : RsaKey) (message : Bytes) : Nat :=
  k.size - 3 - message.length

/-- A block from its filler and its message. -/
def blockOf (filler message : Bytes) : Bytes :=
  0 :: 2 :: (filler ++ 0 :: message)

/-- The message of a block. -/
def messageOf? : Bytes → Option Bytes
  | 0 :: 2 :: rest =>
    match rest.dropWhile (· != 0) with
    | [] => none
    | _ :: message =>
      if 8 ≤ (rest.takeWhile (· != 0)).length then some message else none
  | _ => none

/-- Encrypts a message with the given filler, nonzero octets of the length that it needs. -/
def encryptWith (k : RsaKey) (filler message : Bytes) : Result Bytes :=
  if messageLimit k < message.length then
    .error (.inputTooLarge message.length (messageLimit k))
  else if k.size < message.length + overhead then
    .error (.failure (.rsaEncryption .messageTooLong))
  else
    let m := BigEndian.toNat (blockOf filler message)
    .ok (BigEndian.fixed k.size (Modular.pow k.n m k.e))

/-- Encrypts a message. -/
def encrypt (k : RsaKey) (message : Bytes) : Draw (Result Bytes) := do
  return encryptWith k (← Draw.nonzero (fillerLength k message)) message

/-- Extends a solution modulo the primes before to one that is also right modulo further primes. -/
def extend (c : Nat) : List RsaResidue → (m : Nat) → Nat
  | [], m => m
  | r :: rest, m =>
    let t := Modular.sub r.prime (Modular.pow r.prime c r.exponent) (m % r.prime)
    extend c rest (m + t * r.coefficient % r.prime * r.product)

/-- The private operation, by the Chinese remainder theorem. -/
def privatePower (crt : RsaCrt) (c : Nat) : Nat :=
  let m₁ := Modular.pow crt.p c crt.dp
  let m₂ := Modular.pow crt.q c crt.dq
  let h := Modular.sub crt.p m₁ (m₂ % crt.p) * crt.qi % crt.p
  extend c crt.more (h * crt.q + m₂)

/-- The block that a number stands for as a ciphertext. -/
def decryptBlock (k : RsaKey) (crt : RsaCrt) (c : Nat) : Except RsaFault Bytes :=
  if k.n ≤ c then .error .decryption
  else
    let m := privatePower crt c
    if Modular.pow k.n m k.e = c then .ok (BigEndian.fixed k.size m) else .error .inconsistent

/-- Decrypts a ciphertext, which has to be as long as the modulus. -/
def decrypt (k : RsaKey) (ciphertext : Bytes) : Result Bytes := do
  let crt ← Result.ofOption .missingPrivate k.crt?
  if ciphertext.length ≠ k.size then
    throw (.failure (.rsaCiphertextLength k.size ciphertext.length))
  let block ← Result.of (fun f => .failure (.rsaDecryption f))
    (decryptBlock k crt (BigEndian.toNat ciphertext))
  if k.size < overhead then throw (.failure (.rsaDecryption .decryption))
  Result.ofOption (.failure (.rsaDecryption .decryption)) (messageOf? block)

end KeySmith.Cipher.Rsa

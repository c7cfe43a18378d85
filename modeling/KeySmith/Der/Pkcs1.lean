import KeySmith.Der.AlgorithmId
import KeySmith.Key.Rsa

/-!
# RSA key bodies

A public body is the modulus and the exponent. A private body adds a version and the secret numbers
of a key with two primes. What a private body says about the Chinese remainder theorem is read over
and computed again. Bodies with more primes are recognised and refused.
-/

namespace KeySmith.Der.Pkcs1

/-- Reads the modulus and the exponent. -/
def readPublic : Reader (Nat × Nat) :=
  sequence do
    let n ← natural
    let e ← natural
    return (n, e)

/-- The RSA key of a public body. -/
def parsePublic (error : PublicInfoFault → Error) (body : Bytes) : Result RsaKey :=
  match readDocument? readPublic body with
  | none => .error (error .notDer)
  | some (n, e) => Result.of (fun _ => error .keyMalformed) (RsaKey.ofPublic n e)

/-- The numbers of a private body. -/
structure PrivateBody where
  (n e d p q dp dq qi : Nat)
  /-- Whether the body lists further primes. -/
  hasMore : Bool

/-- Reads the description of one further prime. -/
def readFurtherPrime : Reader Unit :=
  sequence do
    let _ ← natural
    let _ ← natural
    let _ ← natural
    return ()

/-- Reads descriptions of further primes to the end. -/
def readFurtherPrimes : (fuel : Nat) → Reader Unit
  | _, [] => some ((), [])
  | 0, _ => none
  | fuel + 1, bs =>
    match readFurtherPrime bs with
    | none => none
    | some ((), rest) => readFurtherPrimes fuel rest

/-- Reads the list of further primes if there is one. -/
def readMore : Reader Bool := do
  if (← peek) = some sequenceTag then
    sequence fun bs => readFurtherPrimes bs.length bs
    return true
  else return false

/-- Reads a private body. Its version is 1 if it lists further primes and 0 otherwise. -/
def readPrivate : Reader PrivateBody :=
  sequence do
    let version ← naturalBelow 2
    let n ← natural
    let e ← natural
    let d ← natural
    let p ← natural
    let q ← natural
    let dp ← natural
    let dq ← natural
    let qi ← natural
    let hasMore ← readMore
    if (version == 1) = hasMore then return ⟨n, e, d, p, q, dp, dq, qi, hasMore⟩
    else Reader.fail

/-- The RSA key of a private body. -/
def parsePrivate (error : PrivateInfoFault → Error) (body : Bytes) : Result RsaKey :=
  match readDocument? readPrivate body with
  | none => .error (error .notDer)
  | some b =>
    if b.hasMore then .error (error .keyMalformed)
    else RsaKey.ofSecret (fun _ => error .keyMalformed) b.n b.e ⟨b.d, [b.p, b.q]⟩

/-- The public body of a key. -/
def publicBytes (k : RsaKey) : Bytes :=
  sequenceBytes [naturalBytes k.n, naturalBytes k.e]

/-- The private body of a key with two primes. -/
def privateBytes (k : RsaKey) : Except PrivateInfoFault Bytes :=
  match k.crt?, k.secret with
  | some c, some s =>
    if c.more.isEmpty then
      .ok (sequenceBytes [naturalBytes 0, naturalBytes k.n, naturalBytes k.e, naturalBytes s.d,
        naturalBytes c.p, naturalBytes c.q, naturalBytes c.dp, naturalBytes c.dq,
        naturalBytes c.qi])
    else .error .keyMalformed
  | _, _ => .error .keyMalformed

/-- Reads a key from a private body. -/
def decodePrivate (body : Bytes) : Result RsaKey :=
  parsePrivate (fun fault => .malformed (.der (.rsaPrivate fault))) body

/-- Reads a key from a public body. -/
def decodePublic (body : Bytes) : Result RsaKey :=
  parsePublic (fun fault => .malformed (.der (.rsaPublic fault))) body

/-- The private body of a key as a document. -/
def encodePrivate (k : RsaKey) : Result Bytes := do
  if k.secret.isNone then throw .missingPrivate
  let body ← Result.of (fun fault => .failure (.rsaEncoding fault)) (privateBytes k)
  Result.ofOption (.failure (.rsaEncoding .notDer)) (document? body)

/-- The public body of a key as a document. -/
def encodePublic (k : RsaKey) : Result Bytes :=
  Result.ofOption (.failure (.rsaEncoding (.algorithm .notDer))) (document? (publicBytes k))

end KeySmith.Der.Pkcs1

import KeySmith.Json.Printer
import KeySmith.Json.Reader
import KeySmith.Key.Id

/-!
# JSON Web Keys

RSA keys and elliptic curve keys have a form in JSON. Its members hold numbers in Base64 for URLs:
those of RSA in their shortest big-endian form, coordinates and scalars of a curve in full width. A
key is private when the member `d` is there. What a private RSA key says about the Chinese remainder
theorem is not used.
-/

namespace KeySmith

/-- The members of a JSON Web Key that have a meaning here. -/
structure Jwk where
  kty : String
  kid : Option String := none
  alg : Option String := none
  crv : Option String := none
  x : Option String := none
  y : Option String := none
  n : Option String := none
  e : Option String := none
  d : Option String := none
  p : Option String := none
  q : Option String := none
  dp : Option String := none
  dq : Option String := none
  qi : Option String := none
deriving DecidableEq

namespace Jwk

/-- The key type of RSA keys. -/
def rsaType : String :=
  "RSA"

/-- The key type of curve keys. -/
def curveType : String :=
  "EC"

/-- The key type of Ed25519 keys, which are recognised but not supported. -/
def octetType : String :=
  "OKP"

/-- The algorithm that is written for RSA keys. -/
def rsaAlgorithm : String :=
  "RS256"

/-- Whether a key is private. -/
def isPrivate (j : Jwk) : Bool :=
  j.d.isSome

/-- The key without its private members. -/
def toPublic (j : Jwk) : Jwk :=
  { kty := j.kty, kid := j.kid, alg := j.alg, crv := j.crv, x := j.x, y := j.y, n := j.n, e := j.e }

/-! ### Text -/

/-- The names of the members in their order. -/
def names : List String :=
  ["kty", "kid", "alg", "crv", "x", "y", "n", "e", "d", "p", "q", "dp", "dq", "qi"]

/-- The optional members in the order of `names`. -/
def optional (j : Jwk) : List (Option String) :=
  [j.kid, j.alg, j.crv, j.x, j.y, j.n, j.e, j.d, j.p, j.q, j.dp, j.dq, j.qi]

/-- The members that are there, with their names. -/
def members (j : Jwk) : List (String × Json.Scalar) :=
  (names.zip (some j.kty :: j.optional)).filterMap fun (name, value) =>
    value.map fun s => (name, .text s)

/-- The text of a key on one line. -/
def compact (j : Jwk) : String :=
  Json.compact j.members

/-- The text of a key with a line for each member. -/
def pretty (j : Jwk) : String :=
  Json.pretty j.members

/-- The text of a member that may be missing or null. -/
def optionalText (ms : List (String × Json.Value)) (name : String) :
    Except Json.Fault (Option String) :=
  match Json.lookup? name ms with
  | none => .ok none
  | some .null => .ok none
  | some v =>
    match v.text? with
    | some s => .ok (some s)
    | none => .error (.mistyped name)

/-- The text of a member that has to be there. -/
def requiredText (ms : List (String × Json.Value)) (name : String) : Except Json.Fault String :=
  match Json.lookup? name ms with
  | none => .error (.missing name)
  | some v =>
    match v.text? with
    | some s => .ok s
    | none => .error (.mistyped name)

/-- The key that a value describes. -/
def ofValue (v : Json.Value) : Except Json.Fault Jwk := do
  let ms ← Json.members names v
  return {
    kty := ← requiredText ms "kty"
    kid := ← optionalText ms "kid"
    alg := ← optionalText ms "alg"
    crv := ← optionalText ms "crv"
    x := ← optionalText ms "x"
    y := ← optionalText ms "y"
    n := ← optionalText ms "n"
    e := ← optionalText ms "e"
    d := ← optionalText ms "d"
    p := ← optionalText ms "p"
    q := ← optionalText ms "q"
    dp := ← optionalText ms "dp"
    dq := ← optionalText ms "dq"
    qi := ← optionalText ms "qi" }

/-- Reads a key from its text. -/
def parse (s : String) : Result Jwk :=
  Result.of .json (Json.parse s >>= ofValue)

/-- An optional text in a description. -/
def describeOptional : Option String → String
  | none => "None"
  | some s => "Some(" ++ Text.quoted s ++ ")"

/-- A description of a key for logs. It shows no private member. -/
def describe (j : Jwk) : String :=
  "Jwk \x7b kty: " ++ Text.quoted j.kty ++ ", kid: " ++ describeOptional j.kid ++ ", alg: "
    ++ describeOptional j.alg ++ ", crv: " ++ describeOptional j.crv ++ ", private: "
    ++ Key.secretMark j.isPrivate ++ " \x7d"

/-! ### From keys -/

/-- Octets as a member. -/
def octets (bs : Bytes) : Option String :=
  some (Base64.encode Base64.url bs)

/-- A number as a member. -/
def number (n : Nat) : Option String :=
  octets (BigEndian.minimal n)

/-- The form of an RSA key with at most two primes. -/
def ofRsa (k : RsaKey) : Result Jwk := do
  let j : Jwk := { kty := rsaType, alg := some rsaAlgorithm, n := number k.n, e := number k.e }
  match k.secret with
  | none => return j
  | some s =>
    let c ← Result.of (fun f => .failure (.rsaPrecomputation f)) s.crt
    if c.more.isEmpty then
      return { j with
        d := number s.d, p := number c.p, q := number c.q
        dp := number c.dp, dq := number c.dq, qi := number c.qi }
    else throw (.failure .multiPrimeJwk)

/-- The form of a curve key. -/
def ofEc (k : EcKey) : Jwk :=
  { kty := curveType
    alg := some k.curve.signatureName
    crv := some k.curve.name
    x := octets (BigEndian.fixed k.curve.size k.point.x)
    y := octets (BigEndian.fixed k.curve.size k.point.y)
    d := k.scalarBytes?.bind octets }

/-- The error for a key that has no form here. -/
def unsupported : Error :=
  .algorithmMismatch "RSA or EC" Algorithm.ed25519.name

/-- The form of a key. Its identifier serves as the `kid` unless another one is given. -/
def ofKey (k : Key) (kid? : Option String) : Result Jwk := do
  let kid ← match kid? with
    | some kid => pure kid
    | none => k.id
  let j ← match k with
    | .rsa k => ofRsa k
    | .ecdsa k => pure (ofEc k)
    | .ed25519 _ => throw unsupported
  return { j with kid := some kid }

/-! ### To keys -/

/-- The error of a fault of a form. -/
def fault (f : JwkFault) : Error :=
  .malformed (.jwk f)

/-- The value of a member that has to be there. -/
def required (name : String) (value : Option String) : Result String :=
  Result.ofOption (fault (.missing name)) value

/-- The octets of a member. -/
def memberOctets (name : String) (value : Option String) : Result Bytes := do
  let s ← required name value
  Result.of (fun f => fault (.notBase64 name f)) (Base64.decodeText Base64.url s)

/-- The number of a member. -/
def memberNumber (name : String) (value : Option String) : Result Nat := do
  return BigEndian.toNat (← memberOctets name value)

/-- The RSA key of a form. -/
def rsaKey (j : Jwk) : Result RsaKey := do
  let n ← memberNumber "n" j.n
  let e ← memberNumber "e" j.e
  if !j.isPrivate then Result.of (fun f => fault (.rsa f)) (RsaKey.ofPublic n e)
  else
    let d ← memberNumber "d" j.d
    let p ← memberNumber "p" j.p
    let q ← memberNumber "q" j.q
    RsaKey.ofSecret (fun f => fault (.rsa f)) n e ⟨d, [p, q]⟩

/-- The scalar of a form, if it is private. -/
def scalar? (j : Jwk) (c : Curve) : Result (Option Bytes) :=
  match j.d with
  | none => .ok none
  | some _ => do
    let d ← memberOctets "d" j.d
    if d.length ≠ c.size then throw (fault (.scalarLength c)) else return some d

/-- The curve key of a form. -/
def ecKey (j : Jwk) : Result EcKey := do
  let name ← required "crv" j.crv
  let curve ← Result.ofOption (.malformed (.unknownCurve name)) (Curve.ofSpelling? name)
  let x ← memberOctets "x" j.x
  let y ← memberOctets "y" j.y
  if x.length ≠ curve.size ∨ y.length ≠ curve.size then throw (fault (.coordinateLength curve))
  let d ← scalar? j curve
  EcKey.ofParts curve (4 :: (x ++ y)) d

/-- The key of a form. -/
def toKey (j : Jwk) : Result Key := do
  if j.kty = rsaType then return .rsa (← rsaKey j)
  else if j.kty = curveType then return .ecdsa (← ecKey j)
  else if j.kty = octetType then throw unsupported
  else throw (fault (.unsupportedType j.kty))

end Jwk

end KeySmith

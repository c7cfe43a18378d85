import KeySmith.Proofs.Ssh.PublicKey
import KeySmith.Proofs.Strict.Key
import KeySmith.Ssh.AuthorizedLine
import KeySmith.Ssh.Container

/-!
# Reading SSH formats in bounds

A reader splits octets off only when there are enough of them, and what is done with a field relies
on what the reader before has made sure of: the four octets of a number, the lengths of the two
fields of an Ed25519 key, a scalar that is not longer than a coordinate.  `ReaderAgrees.bind` hands
on what a successful reader has returned, so each of these facts is used where it is needed.
-/

namespace KeySmith.Strict

variable {ε α β : Type}

/-- Takes what it needs from the front of an octet string, and has no outcome when something that it
reaches for is out of bounds. -/
abbrev RunReader (ε α : Type) : Type :=
  StateT Bytes (Run ε) α

/-- The reader stays in bounds on every octet string and reads the same. -/
def ReaderAgrees (m : RunReader ε α) (r : StateT Bytes (Except ε) α) : Prop :=
  ∀ bs, Agrees (m bs) (r bs)

/-- A value that a reader returns for some octets. -/
def Returns (r : StateT Bytes (Except ε) α) (a : α) : Prop :=
  ∃ bs rest, r bs = .ok (a, rest)

namespace ReaderAgrees

variable {m m' : RunReader ε α} {r r' : StateT Bytes (Except ε) α} {f : α → RunReader ε β}
  {g : α → StateT Bytes (Except ε) β}

theorem pure (a : α) : ReaderAgrees (Pure.pure a : RunReader ε α) (Pure.pure a) :=
  fun bs => .pure (a, bs)

/-- Two readers in a row agree. The second one is looked at only for what the first one returns. -/
theorem bind (h : ReaderAgrees m r) (hf : ∀ a, Returns r a → ReaderAgrees (f a) (g a)) :
    ReaderAgrees (m >>= f) (r >>= g) :=
  fun bs => Agrees.bind (h bs) fun p hp => hf p.1 ⟨bs, p.2, hp⟩ p.2

/-- A step in bounds that reads nothing is followed by the others. -/
theorem step {x : Option α} {a : α} {r : StateT Bytes (Except ε) β} (h : x = some a)
    (hf : ReaderAgrees (f a) r) : ReaderAgrees (liftM x >>= f) r := by
  intro bs
  subst h
  exact hf bs

theorem ite {c : Prop} [Decidable c] (h : c → ReaderAgrees m r) (h' : ¬ c → ReaderAgrees m' r') :
    ReaderAgrees (if c then m else m') (if c then r else r') := by
  split
  · exact h ‹_›
  · exact h' ‹_›

end ReaderAgrees

namespace Ssh

open KeySmith.Ssh

/-! ### The wire format -/

/-- Reads `count` octets. -/
def take (count : Nat) : RunReader WireFault Bytes :=
  fun bs => if bs.length < count then throw .truncated else splitAt? count bs

/-- Reads a number of four octets, each of which is read at its place. -/
def uint32 : RunReader WireFault UInt32 := do
  let bs ← take 4
  return (BigEndian.toNat [← bs[0]?, ← bs[1]?, ← bs[2]?, ← bs[3]?]).toUInt32

/-- Reads an octet string. -/
def string : RunReader WireFault Bytes := do
  take (← uint32).toNat

/-- Reads a text. -/
def text : RunReader WireFault String := do
  match Text.ofBytes? (← string) with
  | some s => return s
  | none => throw .notUtf8

/-- Reads a non-negative integer, as its digits from the first nonzero one on. -/
def magnitude : RunReader WireFault Bytes := do
  let bs ← string
  if Reader.isNegative bs then throw .negative else from? (bs.findIdx (· != 0)) bs

/-- Reads a non-negative integer. -/
def natural : RunReader WireFault Nat := do
  return BigEndian.toNat (← magnitude)

/-- Fails if anything is left. -/
def finish : RunReader WireFault Unit :=
  fun bs => if bs.isEmpty then pure ((), bs) else throw (.trailing bs.length)

theorem take_agrees (count : Nat) : ReaderAgrees (take count) (Reader.take count) := by
  intro bs
  refine .ite (fun _ => .throw _) fun hle => ?_
  exact .some (splitAt?_of_le (Nat.not_lt.mp hle))

theorem uint32_agrees : ReaderAgrees uint32 Reader.uint32 := by
  refine .bind (take_agrees 4) ?_
  rintro a ⟨bs, rest, hread⟩
  obtain ⟨-, hlength⟩ := Reader.take_eq_ok_iff.mp hread
  obtain ⟨b, c, d, e, rfl⟩ := List.length_eq_four.mp hlength
  exact .pure _

theorem string_agrees : ReaderAgrees string Reader.string :=
  .bind uint32_agrees fun _ _ => take_agrees _

theorem text_agrees : ReaderAgrees text Reader.text := by
  refine .bind string_agrees fun bs _ => ?_
  cases Text.ofBytes? bs with
  | none => exact fun _ => .throw _
  | some s => exact .pure s

theorem magnitude_agrees : ReaderAgrees magnitude Reader.magnitude := by
  refine .bind string_agrees fun bs _ => .ite (fun _ _ => .throw _) fun _ rest => ?_
  change Agrees (liftM (from? (bs.findIdx (· != 0)) bs) >>= fun a => pure (a, rest)) _
  exact .step (from?_findIdx bs) (.pure _)

theorem natural_agrees : ReaderAgrees natural Reader.natural :=
  .bind magnitude_agrees fun _ _ => .pure _

theorem finish_agrees : ReaderAgrees finish Reader.finish :=
  fun _ => .ite (fun _ => .pure _) fun _ => .throw _

/-! ### Public keys -/

/-- A non-negative integer, given by its digits, of which those from the first nonzero one on are
written. -/
def magnitudeBytes (digits : Bytes) : Option Bytes := do
  let short ← from? (digits.findIdx (· != 0)) digits
  return stringBytes (if Reader.isNegative short then 0 :: short else short)

/-- A non-negative integer. -/
def naturalBytes (n : Nat) : Option Bytes :=
  magnitudeBytes (BigEndian.minimal n)

/-- The blob of the public half of a key. -/
def publicBlob (k : Key) : Option Bytes := do
  let numbers ← match k with
    | .rsa k => pure ((← naturalBytes k.e) ++ (← naturalBytes k.n))
    | .ecdsa k => pure (textBytes k.curve.sshId ++ stringBytes k.pointBytes)
    | .ed25519 k => pure (stringBytes k.point.bytes)
  return textBytes (typeName k) ++ numbers

/-- Reads fields on the way to a key. -/
def fields (r : RunReader WireFault α) : RunReader Error α :=
  fun bs => ExceptT.mk ((r bs).run.map (Result.of wireError))

/-- Builds a part of a key from the fields read. -/
def built (m : Run Error α) : RunReader Error α :=
  liftM m

/-- Reads the point of a key on a curve, behind the identifier of the curve. -/
def readPoint (c : Curve) : RunReader Error Bytes := do
  let id ← fields text
  if id = c.sshId then fields string
  else throw (blobError (.curveMismatch id (curveName c)))

/-- Reads the public key that follows a type name. -/
def readPublic (name : String) : RunReader Error Key := do
  if name = ed25519Name then
    let bs ← fields string
    let point ← built (Result.ofOption (blobError .ed25519Length) (Octets.ofBytes? 32 bs))
    return .ed25519 (← built (Result.ofOption .pointNotOnCurve (Ed25519Key.ofPoint? point)))
  else if name = rsaName then
    let e ← fields natural
    let n ← fields natural
    return .rsa (← built (Result.of (fun fault => blobError (.rsa fault)) (RsaKey.ofPublic n e)))
  else
    let curve ← built (Result.ofOption (blobError (.unsupportedType name)) (curveOfName? name))
    let point ← readPoint curve
    return .ecdsa (← built (ofParts curve point none))

/-- Reads a public key from its blob. -/
def decodeBlob (blob : Bytes) : Run Error Key :=
  Prod.fst <$> StateT.run (do
    let name ← fields text
    let key ← readPublic name
    fields finish
    return key : RunReader Error Key) blob

theorem magnitudeBytes_eq (digits : Bytes) :
    magnitudeBytes digits = some (KeySmith.Ssh.magnitudeBytes digits) := by
  rw [magnitudeBytes, from?_findIdx]
  rfl

theorem publicBlob_eq (k : Key) : publicBlob k = some (KeySmith.Ssh.publicBlob k) := by
  cases k with
  | rsa k =>
    simp only [publicBlob, naturalBytes, magnitudeBytes_eq]
    rfl
  | ecdsa k => rfl
  | ed25519 k => rfl

theorem fields_agrees {m : RunReader WireFault α} {r : Reader α} (h : ReaderAgrees m r) :
    ReaderAgrees (fields m) (KeySmith.Ssh.fields r) := by
  intro bs
  have hrun : (m bs).run = some (r bs) := h bs
  simp only [Agrees, fields, hrun]
  rfl

theorem built_agrees {m : Run Error α} {r : Result α} (h : Agrees m r) :
    ReaderAgrees (built m) (KeySmith.Ssh.built r) := by
  intro bs
  cases r with
  | error e => exact .error h
  | ok a => exact .value h (.pure _)

/-- A field is read in bounds, and what follows agrees for every content of it. -/
theorem fields_bind {m : RunReader WireFault α} {r : Reader α} {f : α → RunReader Error β}
    {g : α → KeyReader β} (h : ReaderAgrees m r) (hf : ∀ a, ReaderAgrees (f a) (g a)) :
    ReaderAgrees (fields m >>= f) (KeySmith.Ssh.fields r >>= g) :=
  .bind (fields_agrees h) fun a _ => hf a

/-- A part is built in bounds, and what follows agrees for every value of it. -/
theorem built_bind {m : Run Error α} {r : Result α} {f : α → RunReader Error β}
    {g : α → KeyReader β} (h : Agrees m r) (hf : ∀ a, ReaderAgrees (f a) (g a)) :
    ReaderAgrees (built m >>= f) (KeySmith.Ssh.built r >>= g) :=
  .bind (built_agrees h) fun a _ => hf a

theorem throw_agrees (e : Error) :
    ReaderAgrees (throw e : RunReader Error α) (KeySmith.Ssh.built (.error e)) :=
  fun _ => .throw e

theorem readPoint_agrees (c : Curve) : ReaderAgrees (readPoint c) (KeySmith.Ssh.readPoint c) := by
  refine fields_bind text_agrees fun id => .ite (fun _ => ?_) fun _ => ?_
  · exact fields_agrees string_agrees
  · exact throw_agrees _

theorem readPublic_agrees (name : String) :
    ReaderAgrees (readPublic name) (KeySmith.Ssh.readPublic name) := by
  refine .ite (fun _ => ?_) fun _ => .ite (fun _ => ?_) fun _ => ?_
  · refine fields_bind string_agrees fun bs => ?_
    refine built_bind (.lift _) fun point => ?_
    exact built_bind (.lift _) fun k => .pure _
  · refine fields_bind natural_agrees fun e => ?_
    refine fields_bind natural_agrees fun n => ?_
    exact built_bind (.lift _) fun k => .pure _
  · refine built_bind (.lift _) fun curve => ?_
    refine .bind (readPoint_agrees curve) fun point _ => ?_
    exact built_bind (ofParts_agrees curve point none) fun k => .pure _

theorem decodeBlob_agrees (blob : Bytes) :
    Agrees (decodeBlob blob) (KeySmith.Ssh.decodeBlob blob) := by
  refine .map Prod.fst (ReaderAgrees.bind (fields_agrees text_agrees) (fun name _ => ?_) blob)
  refine .bind (readPublic_agrees name) fun key _ => ?_
  exact fields_bind finish_agrees fun _ => .pure key

/-- Reads an authorized key line and returns the key and the comment. -/
def decodeLine (line : String) : Run Error (Key × String) := do
  let (name, behindName) := Text.splitBlank (Text.trim line.toList)
  if name.isEmpty then throw (AuthorizedLine.fault .empty)
  let some rest := behindName | throw (AuthorizedLine.fault .noKeyData)
  let (encoded, behindKey) := Text.splitBlank rest
  let comment := Text.trim (behindKey.getD [])
  let blob ← Result.of (fun f => AuthorizedLine.fault (.keyData f))
    (Base64.decodeText Base64.standard (String.ofList encoded))
  let key ← decodeBlob blob
  if typeName key ≠ String.ofList name then
    throw (.algorithmMismatch (String.ofList name) (typeName key))
  return (key, String.ofList comment)

theorem decodeLine_agrees (line : String) :
    Agrees (decodeLine line) (AuthorizedLine.decode line) := by
  unfold decodeLine AuthorizedLine.decode
  cases Text.splitBlank (Text.trim line.toList) with
  | mk name behindName =>
    refine .guard fun _ => ?_
    cases behindName with
    | none => exact .throw _
    | some rest =>
      refine .bind (.lift _) fun blob _ => .bind (decodeBlob_agrees blob) fun key _ => ?_
      exact .guard fun _ => .pure _

/-! ### Containers -/

open Container (magic noCipher blockSize isPadding fault)

/-- Reads an Ed25519 key. The pair is cut behind the seed, which is copied. -/
def readEd25519 : RunReader Error Key := do
  let point ← fields string
  let pair ← fields string
  if point.length ≠ 32 ∨ pair.length ≠ 64 then throw (fault .ed25519Lengths)
  else
    let seed ← Octets.ofBytes? 32 (← upTo? 32 pair)
    match Ed25519Key.ofSeed? seed with
    | none => throw .pointNotOnCurve
    | some k =>
      let second ← from? 32 pair
      if k.point.bytes = second ∧ k.point.bytes = point then return .ed25519 k
      else throw (fault .ed25519Mismatch)

/-- Reads an RSA key. -/
def readRsa : RunReader Error Key := do
  let n ← fields natural
  let e ← fields natural
  let d ← fields natural
  let _ ← fields natural
  let p ← fields natural
  let q ← fields natural
  return .rsa (← built (RsaKey.ofSecret (fun f => fault (.rsa f)) n e ⟨d, [p, q]⟩))

/-- Reads a key on a curve. The scalar is copied to the end of as many zeros as a coordinate has
octets. -/
def readEcdsa (curve : Curve) : RunReader Error Key := do
  let point ← readPoint curve
  let scalar ← fields magnitude
  if curve.size < scalar.length then throw (fault .scalarTooLong)
  else
    let missing ← difference? curve.size scalar.length
    let padded ← replaceFrom? missing scalar (List.replicate curve.size 0)
    return .ecdsa (← built (ofParts curve point (some padded)))

/-- Reads the private key that follows a type name. -/
def readPrivate (name : String) : RunReader Error Key := do
  if name = ed25519Name then readEd25519
  else if name = rsaName then readRsa
  else
    let curve ← built (Result.ofOption (fault (.unsupportedType name)) (curveOfName? name))
    readEcdsa curve

/-- Reads the private block up to its padding. -/
def readBlock : RunReader Error Container := do
  let check ← fields uint32
  if (← fields uint32) ≠ check then throw (fault .checkMismatch)
  else
    let name ← fields text
    let key ← readPrivate name
    let comment ← fields text
    return ⟨key, comment, check⟩

/-- Reads the public key blob and the private block of a container. -/
def readOuter : RunReader Error (Bytes × Bytes) := do
  let cipher ← fields text
  let kdf ← fields text
  let _ ← fields string
  if cipher ≠ noCipher ∨ kdf ≠ noCipher then throw (fault (.encrypted cipher kdf))
  else
    let count ← fields uint32
    if count ≠ 1 then throw (fault (.keyCount count.toNat))
    else
      let blob ← fields string
      let block ← fields string
      fields finish
      return (blob, block)

/-- Reads a container. -/
def decodeContainer (bs : Bytes) : Run Error Container := do
  if !magic.isPrefixOf bs then throw (fault .missingMagic)
  let ((blob, block), _) ← readOuter (← from? magic.length bs)
  if block.length % blockSize ≠ 0 then throw (fault .unpadded)
  let (c, rest) ← readBlock block
  if !isPadding rest then throw (fault .padding)
  if (← publicBlob c.key) ≠ blob then throw (fault .publicMismatch)
  return c

/-- The length of the pair lets the seed be copied and the rest be cut off. -/
theorem readEd25519_agrees : ReaderAgrees readEd25519 Container.readEd25519 := by
  refine fields_bind string_agrees fun point => ?_
  refine fields_bind string_agrees fun pair => ?_
  refine .ite (fun _ => throw_agrees _) fun hlengths => ?_
  have hpair : 32 ≤ pair.length := by omega
  refine .step (upTo?_of_le hpair) (.step (ofBytes?_take hpair) ?_)
  cases Ed25519Key.ofSeed? (.firstOf 32 pair) with
  | none => exact throw_agrees _
  | some k =>
    exact .step (from?_of_le hpair) (.ite (fun _ => .pure _) fun _ => throw_agrees _)

theorem readRsa_agrees : ReaderAgrees readRsa Container.readRsa := by
  refine fields_bind natural_agrees fun n => ?_
  refine fields_bind natural_agrees fun e => ?_
  refine fields_bind natural_agrees fun d => ?_
  refine fields_bind natural_agrees fun _ => ?_
  refine fields_bind natural_agrees fun p => ?_
  refine fields_bind natural_agrees fun q => ?_
  exact built_bind (.lift _) fun k => .pure _

/-- A scalar that is not too long fits behind the zeros. -/
theorem readEcdsa_agrees (curve : Curve) :
    ReaderAgrees (readEcdsa curve) (Container.readEcdsa curve) := by
  refine .bind (readPoint_agrees curve) fun point _ => ?_
  refine fields_bind magnitude_agrees fun scalar => ?_
  refine .ite (fun _ => throw_agrees _) fun hle => ?_
  have hscalar : scalar.length ≤ curve.size := Nat.not_lt.mp hle
  have hpadded : replaceFrom? (curve.size - scalar.length) scalar
      (List.replicate curve.size 0) =
        some (List.replicate (curve.size - scalar.length) 0 ++ scalar) := by
    rw [replaceFrom?_of_length (by rw [List.length_replicate]; omega), List.take_replicate,
      Nat.min_eq_left (Nat.sub_le _ _)]
  refine .step (difference?_of_le hscalar) (.step hpadded ?_)
  exact built_bind (ofParts_agrees curve point _) fun k => .pure _

theorem readPrivate_agrees (name : String) :
    ReaderAgrees (readPrivate name) (Container.readPrivate name) := by
  refine .ite (fun _ => readEd25519_agrees) fun _ => .ite (fun _ => readRsa_agrees) fun _ => ?_
  exact built_bind (.lift _) fun curve => readEcdsa_agrees curve

theorem readBlock_agrees : ReaderAgrees readBlock Container.readBlock := by
  refine fields_bind uint32_agrees fun check => ?_
  refine fields_bind uint32_agrees fun again => ?_
  refine .ite (fun _ => throw_agrees _) fun _ => ?_
  refine fields_bind text_agrees fun name => ?_
  refine .bind (readPrivate_agrees name) fun key _ => ?_
  exact fields_bind text_agrees fun comment => .pure _

theorem readOuter_agrees : ReaderAgrees readOuter Container.readOuter := by
  refine fields_bind text_agrees fun cipher => ?_
  refine fields_bind text_agrees fun kdf => ?_
  refine fields_bind string_agrees fun _ => ?_
  refine .ite (fun _ => throw_agrees _) fun _ => ?_
  refine fields_bind uint32_agrees fun count => ?_
  refine .ite (fun _ => throw_agrees _) fun _ => ?_
  refine fields_bind string_agrees fun blob => ?_
  refine fields_bind string_agrees fun block => ?_
  exact fields_bind finish_agrees fun _ => .pure _

theorem decodeContainer_agrees (bs : Bytes) :
    Agrees (decodeContainer bs) (Container.decode bs) := by
  unfold decodeContainer Container.decode
  refine .guard fun hmagic => ?_
  have hlength : magic.length ≤ bs.length := by
    rw [Bool.not_eq_true, Bool.not_eq_false', List.isPrefixOf_iff_prefix] at hmagic
    exact hmagic.length_le
  refine .step (from?_of_le hlength) (.bind (readOuter_agrees _) fun outer _ => ?_)
  refine .guard fun _ => .bind (readBlock_agrees _) fun inner _ => .guard fun _ => ?_
  exact .step (publicBlob_eq inner.1.key) (.guard fun _ => .pure _)

end Ssh

end KeySmith.Strict

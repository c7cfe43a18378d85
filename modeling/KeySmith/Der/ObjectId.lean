import KeySmith.Bytes

/-!
# Object identifiers

An object identifier is a path of numbers, called arcs. Its octet form holds the first two arcs in
one octet and each further arc to base 128, all octets of an arc but the last with the top bit set.
-/

namespace KeySmith.Der

/-- An object identifier, by its octet form. -/
structure ObjectId where
  bytes : Bytes
deriving DecidableEq

namespace ObjectId

/-- Reads one arc: its value so far, the number of octets it has had, and the octets that follow.
An arc has at most five octets, and a fifth one only with a value below sixteen. -/
def readArc? : (value count : Nat) → Bytes → Option (Nat × Bytes)
  | _, _, [] => none
  | value, count, b :: rest =>
    if 4 ≤ count ∧ 16 ≤ b then none
    else
      let value := (value * 128 + (b.toNat % 128)) % twoTo 32
      if b < 128 then some (value, rest) else readArc? value (count + 1) rest

theorem length_of_readArc? {value count n : Nat} {bs rest : Bytes}
    (h : readArc? value count bs = some (n, rest)) : rest.length < bs.length := by
  induction bs generalizing value count with
  | nil => simp [readArc?] at h
  | cons b bs ih =>
    simp only [readArc?] at h
    split at h
    · simp at h
    · split at h
      · simp only [Option.some.injEq, Prod.mk.injEq] at h
        simp [h.2]
      · have := ih h
        simp only [List.length_cons]
        omega

/-- The arcs behind the first two. -/
def readArcs? (bs : Bytes) : Option (List Nat) :=
  if bs.isEmpty then some []
  else
    match h : readArc? 0 0 bs with
    | none => none
    | some (n, rest) =>
      have := length_of_readArc? h
      (readArcs? rest).map (n :: ·)
termination_by bs.length

/-- The arcs of an octet form of three to 39 octets. -/
def arcs? : Bytes → Option (List Nat)
  | [] => none
  | b :: rest =>
    if 2 ≤ rest.length ∧ rest.length ≤ 38 ∧ b < 120 then
      (readArcs? rest).map fun more => b.toNat / 40 :: b.toNat % 40 :: more
    else none

/-- The object identifier with an octet form. -/
def ofBytes? (bs : Bytes) : Option ObjectId :=
  (arcs? bs).map fun _ => ⟨bs⟩

/-- The arcs, joined by points. -/
def dotted (o : ObjectId) : String :=
  ".".intercalate (((arcs? o.bytes).getD []).map toString)

/-- The octets of an arc. -/
def arcBytes (n : Nat) : Bytes :=
  go (n / 128) [(n % 128).toUInt8]
where
  go (n : Nat) (low : Bytes) : Bytes :=
    if n = 0 then low else go (n / 128) ((128 + n % 128).toUInt8 :: low)
  termination_by n
  decreasing_by omega

/-- The object identifier with the given arcs. -/
def ofArcs : List Nat → ObjectId
  | first :: second :: more => ⟨(40 * first + second).toUInt8 :: more.flatMap arcBytes⟩
  | _ => ⟨[]⟩

end ObjectId

end KeySmith.Der

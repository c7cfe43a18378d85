import KeySmith.Proofs.Ssh.PublicKey

/-!
# Integers of the wire format

The contents for a number differ in the zero octets at their front and in nothing else, so the
shortest content is a suffix of all of them (`Denotes.exists_eq_replicate_append`), and it is the one
that is written.  Digits with leading zeros are therefore written like those without, and the octets
that are written determine the number and nothing more.

The length field holds four octets.  Digits of fewer than `2 ^ 31` octets leave room in it for the
zero octet that keeps a set top bit from being a sign.
-/

namespace KeySmith.Ssh

/-! ### Contents for a number -/

/-- Octets are the digits that are left without leading zeros, behind these zeros. -/
theorem exists_eq_replicate_append_stripZeros (bs : Bytes) :
    ∃ count, bs = List.replicate count 0 ++ Bytes.stripZeros bs := by
  refine ⟨(bs.takeWhile (· == 0)).length, ?_⟩
  have hzeros : bs.takeWhile (· == 0) =
      List.replicate (bs.takeWhile (· == 0)).length 0 :=
    List.eq_replicate_iff.mpr ⟨rfl, fun b hb => by simpa using List.mem_takeWhile_imp hb⟩
  rw [← hzeros]
  exact List.takeWhile_append_dropWhile.symm

/-- Every content for a number is the shortest one behind zero octets. -/
theorem Denotes.exists_eq_replicate_append {raw : Bytes} {n : Nat} (h : Denotes raw n) :
    ∃ count, raw = List.replicate count 0 ++ integerContent n := by
  obtain ⟨hraw, rfl⟩ := h
  obtain ⟨count, hcount⟩ := exists_eq_replicate_append_stripZeros raw
  rw [integerContent, ← BigEndian.stripZeros_eq_fixed, signed]
  split
  · rename_i hneg
    -- without a zero octet in front the digits would give the content a sign
    cases count with
    | zero =>
      rw [List.replicate_zero, List.nil_append] at hcount
      rw [← hcount, hraw] at hneg
      cases hneg
    | succ count =>
      refine ⟨count, hcount.trans ?_⟩
      rw [List.replicate_succ', List.append_assoc, List.singleton_append]
  · exact ⟨count, hcount⟩

/-- The shortest content is empty for zero only. -/
theorem integerContent_eq_nil_iff (n : Nat) : integerContent n = [] ↔ n = 0 := by
  constructor
  · intro h
    have hn := toNat_integerContent n
    rw [h] at hn
    exact hn.symm
  · rintro rfl
    rfl

/-- The shortest content for digits takes at most one octet more than they do. -/
theorem length_integerContent_toNat_le (digits : Bytes) :
    (integerContent (BigEndian.toNat digits)).length ≤ digits.length + 1 := by
  have hcontent := length_integerContent_le (BigEndian.toNat digits)
  have hsize : BigEndian.size (BigEndian.toNat digits) ≤ digits.length :=
    (BigEndian.size_le_iff _ _).mpr (BigEndian.toNat_lt digits)
  omega

/-! ### Written integers -/

/-- An octet string that is not too long for its length field stands behind its length. -/
theorem stringBytes_eq {s : Bytes} (h : s.length < 2 ^ 32) :
    stringBytes s = BigEndian.fixed 4 s.length ++ s := by
  have hlength : s.length.toUInt32.toNat = s.length := UInt32.toNat_ofNat_of_lt h
  rw [stringBytes, uint32Bytes, hlength]

/-- What is written of an octet string determines it, whatever its length. -/
theorem stringBytes_injective : Function.Injective stringBytes := by
  intro s t h
  have hlength : (uint32Bytes s.length.toUInt32).length = (uint32Bytes t.length.toUInt32).length := by
    rw [length_uint32Bytes, length_uint32Bytes]
  exact (List.append_inj h hlength).2

/-- Digits are written alike exactly when they are digits of the same number. -/
theorem magnitudeBytes_eq_iff {digits other : Bytes} :
    magnitudeBytes other = magnitudeBytes digits ↔
      BigEndian.toNat other = BigEndian.toNat digits := by
  rw [magnitudeBytes_eq, magnitudeBytes_eq, stringBytes_injective.eq_iff]
  constructor
  · intro h
    rw [← toNat_integerContent (BigEndian.toNat other), h, toNat_integerContent]
  · intro h
    rw [h]

/-- An integer of fewer than `2 ^ 31` octets is read back without its leading zeros, and what follows
it is left.  The octets that are written are the length and a content for the number: one without a
sign, empty for zero only, as short as can be and thus a suffix of every other content for the
number.  Digits are written alike exactly when they are digits of the same number. -/
theorem magnitude_magnitudeBytes {digits : Bytes} (hlength : digits.length < 2 ^ 31)
    (rest : Bytes) :
    Reader.magnitude (magnitudeBytes digits ++ rest) = .ok (Bytes.stripZeros digits, rest) ∧
      (∃ content, magnitudeBytes digits = BigEndian.fixed 4 content.length ++ content ∧
        content.length < 2 ^ 32 ∧ Denotes content (BigEndian.toNat digits) ∧
        IsShortest content ∧ (content = [] ↔ BigEndian.toNat digits = 0) ∧
        ∀ raw, Denotes raw (BigEndian.toNat digits) →
          ∃ count, raw = List.replicate count 0 ++ content) ∧
      ∀ other, magnitudeBytes other = magnitudeBytes digits ↔
        BigEndian.toNat other = BigEndian.toNat digits := by
  have hlimit : (integerContent (BigEndian.toNat digits)).length < 2 ^ 32 := by
    have hle := length_integerContent_toNat_le digits
    omega
  refine ⟨?_, ⟨integerContent (BigEndian.toNat digits), ?_, hlimit, denotes_integerContent _,
    isShortest_integerContent _, integerContent_eq_nil_iff _,
    fun raw hraw => hraw.exists_eq_replicate_append⟩, fun other => magnitudeBytes_eq_iff⟩
  · rw [magnitudeBytes_eq, Reader.magnitude_eq_ok_iff]
    refine ⟨_, hlimit, isNegative_integerContent _, ?_, rfl⟩
    rw [BigEndian.stripZeros_eq_fixed, BigEndian.stripZeros_eq_fixed, toNat_integerContent]
  · rw [magnitudeBytes_eq, stringBytes_eq hlimit]

/-- Digits with a leading zero and a set top bit are written with one zero octet in front of this
bit, like those with two zeros, and they are read back in front of another octet. -/
theorem magnitude_magnitudeBytes_signed :
    Reader.magnitude ([0, 0, 0, 3, 0, 128, 1] ++ [7]) = .ok ([128, 1], [7]) ∧
      magnitudeBytes [0, 128, 1] = [0, 0, 0, 3, 0, 128, 1] ∧
      magnitudeBytes [0, 0, 128, 1] = magnitudeBytes [0, 128, 1] := by
  have hwritten : magnitudeBytes [0, 128, 1] = [0, 0, 0, 3, 0, 128, 1] := by decide
  obtain ⟨hread, -, hsame⟩ := @magnitude_magnitudeBytes [0, 128, 1] (by decide) [7]
  refine ⟨?_, hwritten, (hsame [0, 0, 128, 1]).mpr (by decide)⟩
  rw [← hwritten]
  exact hread

end KeySmith.Ssh

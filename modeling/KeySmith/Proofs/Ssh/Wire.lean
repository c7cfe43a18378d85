import KeySmith.Proofs.BigEndian
import KeySmith.Proofs.Outcome
import KeySmith.Proofs.Text
import KeySmith.Ssh.Wire

/-!
# Fields of the SSH wire format

Each reader succeeds exactly on what the writer of the same kind of field produces, followed by any
octets, and leaves those.  Integers are the one exception: they may be written with more leading
zero octets than needed.  `integerContent` is the shortest content for a number, which is the one
that is written, and `IsShortest` tells it from the others.
-/

namespace KeySmith.Ssh

variable {bs rest : Bytes}

/-! ### Numbers and octet strings -/

@[simp] theorem length_uint32Bytes (n : UInt32) : (uint32Bytes n).length = 4 :=
  BigEndian.length_fixed 4 n.toNat

@[simp] theorem length_stringBytes (s : Bytes) : (stringBytes s).length = 4 + s.length := by
  simp [stringBytes]

namespace Reader

/-- Taking octets splits them off. -/
theorem take_eq_ok_iff {count : Nat} {a : Bytes} :
    take count bs = .ok (a, rest) ↔ bs = a ++ rest ∧ a.length = count := by
  unfold take
  split
  · rename_i hlt
    constructor
    · intro h
      cases h
    · rintro ⟨rfl, hlen⟩
      simp only [List.length_append] at hlt
      omega
  · rename_i hle
    constructor
    · intro h
      cases h
      exact ⟨(List.take_append_drop count bs).symm, by
        rw [List.length_take]
        omega⟩
    · rintro ⟨rfl, rfl⟩
      rw [List.take_left, List.drop_left]

/-- Reading a number of four octets undoes writing it. -/
theorem uint32_eq_ok_iff {n : UInt32} :
    uint32 bs = .ok (n, rest) ↔ bs = uint32Bytes n ++ rest := by
  unfold uint32
  rw [reader_bind_eq_ok_iff]
  simp only [take_eq_ok_iff, reader_pure_eq_ok_iff]
  constructor
  · rintro ⟨a, _, ⟨rfl, hlen⟩, rfl, rfl⟩
    have hlt : BigEndian.toNat a < 2 ^ 32 := by
      have := BigEndian.toNat_lt a
      rw [hlen] at this
      exact this
    have hnat : (BigEndian.toNat a).toUInt32.toNat = BigEndian.toNat a :=
      UInt32.toNat_ofNat_of_lt hlt
    rw [uint32Bytes, hnat, ← hlen, BigEndian.fixed_toNat]
  · rintro rfl
    refine ⟨uint32Bytes n, rest, ⟨rfl, length_uint32Bytes n⟩, ?_, rfl⟩
    rw [uint32Bytes, BigEndian.toNat_fixed n.toNat_lt]
    exact UInt32.ofNat_toNat

/-- Reading an octet string undoes writing one that is not too long for its length field. -/
theorem string_eq_ok_iff {s : Bytes} :
    string bs = .ok (s, rest) ↔ s.length < 2 ^ 32 ∧ bs = stringBytes s ++ rest := by
  unfold string
  rw [reader_bind_eq_ok_iff]
  simp only [uint32_eq_ok_iff, take_eq_ok_iff]
  constructor
  · rintro ⟨n, _, rfl, rfl, hlen⟩
    have hn : s.length.toUInt32 = n := by
      rw [hlen]
      exact UInt32.ofNat_toNat
    refine ⟨hlen ▸ n.toNat_lt, ?_⟩
    rw [stringBytes, hn, List.append_assoc]
  · rintro ⟨hlt, rfl⟩
    refine ⟨s.length.toUInt32, s ++ rest, ?_, rfl, ?_⟩
    · rw [stringBytes, List.append_assoc]
    · exact (UInt32.toNat_ofNat_of_lt hlt).symm

/-- Reading a text undoes writing one. -/
theorem text_eq_ok_iff {s : String} :
    text bs = .ok (s, rest) ↔ (Text.toBytes s).length < 2 ^ 32 ∧ bs = textBytes s ++ rest := by
  unfold text
  rw [reader_bind_eq_ok_iff]
  simp only [string_eq_ok_iff]
  constructor
  · rintro ⟨a, mid, ⟨hlt, rfl⟩, hread⟩
    cases ht : Text.ofBytes? a with
    | none =>
      rw [ht] at hread
      cases hread
    | some t =>
      rw [ht] at hread
      obtain ⟨rfl, rfl⟩ := reader_pure_eq_ok_iff.mp hread
      obtain rfl := Text.ofBytes?_eq_some_iff.mp ht
      exact ⟨hlt, rfl⟩
  · rintro ⟨hlt, rfl⟩
    refine ⟨Text.toBytes s, rest, ⟨hlt, rfl⟩, ?_⟩
    rw [Text.ofBytes?_toBytes]
    rfl

/-- Nothing is left exactly when the octets are used up. -/
theorem finish_eq_ok_iff {u : Unit} : finish bs = .ok (u, rest) ↔ bs = [] ∧ rest = [] := by
  unfold finish
  cases bs with
  | nil => simp [eq_comm]
  | cons b bs => simp

end Reader

/-- Fields of octet strings with the same octets in all agree one by one. -/
theorem stringBytes_append_inj {s t r q : Bytes} (hs : s.length < 2 ^ 32) (ht : t.length < 2 ^ 32)
    (h : stringBytes s ++ r = stringBytes t ++ q) : s = t ∧ r = q := by
  have hread : Reader.string (stringBytes s ++ r) = .ok (s, r) :=
    Reader.string_eq_ok_iff.mpr ⟨hs, rfl⟩
  rw [h, Reader.string_eq_ok_iff.mpr ⟨ht, rfl⟩] at hread
  cases hread
  exact ⟨rfl, rfl⟩

/-! ### Integers -/

/-- Digits behind a zero octet if the first one has the sign bit. -/
def signed (digits : Bytes) : Bytes :=
  if Reader.isNegative digits then 0 :: digits else digits

/-- The shortest content for a number. -/
def integerContent (n : Nat) : Bytes :=
  signed (BigEndian.fixed (BigEndian.size n) n)

/-- Whether the content of a non-negative integer is as short as can be: it has a leading zero octet
only in front of one with the sign bit. -/
def IsShortest : Bytes → Prop
  | [] => True
  | [b] => b ≠ 0
  | b :: c :: _ => b = 0 → 128 ≤ c

/-- An integer given by its digits is written with the shortest content. -/
theorem magnitudeBytes_eq (digits : Bytes) :
    magnitudeBytes digits = stringBytes (integerContent (BigEndian.toNat digits)) := by
  rw [magnitudeBytes, BigEndian.stripZeros_eq_fixed]
  rfl

/-- A number is written with the shortest content. -/
theorem naturalBytes_eq (n : Nat) : naturalBytes n = stringBytes (integerContent n) := by
  rw [naturalBytes, magnitudeBytes_eq, BigEndian.toNat_minimal]

/-- Whether the content of an integer is one for a number: it has no sign bit, and its octets are
those of the number behind any zeros. -/
def Denotes (raw : Bytes) (n : Nat) : Prop :=
  Reader.isNegative raw = false ∧ BigEndian.toNat raw = n

instance (raw : Bytes) (n : Nat) : Decidable (Denotes raw n) :=
  inferInstanceAs (Decidable (_ ∧ _))

/-- The shortest content has no sign bit. -/
theorem isNegative_integerContent (n : Nat) : Reader.isNegative (integerContent n) = false := by
  unfold integerContent signed
  split
  · rfl
  · simp_all

/-- The shortest content has the number as its octets. -/
@[simp] theorem toNat_integerContent (n : Nat) : BigEndian.toNat (integerContent n) = n := by
  unfold integerContent signed
  split
  · rw [BigEndian.toNat_zero_cons, BigEndian.toNat_fixed_size]
  · exact BigEndian.toNat_fixed_size n

/-- The shortest content is one for the number. -/
theorem denotes_integerContent (n : Nat) : Denotes (integerContent n) n :=
  ⟨isNegative_integerContent n, toNat_integerContent n⟩

/-- A leading octet other than zero is kept by stripping. -/
theorem stripZeros_cons_of_ne_zero {b : UInt8} (hb : b ≠ 0) (bs : Bytes) :
    Bytes.stripZeros (b :: bs) = b :: bs := by
  rw [Bytes.stripZeros, List.dropWhile_cons_of_neg (by simpa using hb)]

/-- The content of an integer is the one that is written exactly when it is shortest. -/
theorem Denotes.integerContent_eq_iff {raw : Bytes} {n : Nat} (h : Denotes raw n) :
    integerContent n = raw ↔ IsShortest raw := by
  obtain ⟨hraw, rfl⟩ := h
  rw [integerContent, ← BigEndian.stripZeros_eq_fixed, signed]
  cases raw with
  | nil => simp [Bytes.stripZeros, Reader.isNegative, IsShortest]
  | cons b tail =>
    by_cases hb : b = 0
    · subst hb
      cases tail with
      | nil => simp [Bytes.stripZeros, Reader.isNegative, IsShortest]
      | cons c more =>
        have hstrip : Bytes.stripZeros (0 :: c :: more) = Bytes.stripZeros (c :: more) := by
          rw [Bytes.stripZeros, List.dropWhile_cons_of_pos (by simp)]
          rfl
        rw [hstrip]
        by_cases hc : 128 ≤ c
        · have hne : c ≠ 0 := by
            rintro rfl
            exact absurd hc (by decide)
          simp [stripZeros_cons_of_ne_zero hne, Reader.isNegative, hc, IsShortest]
        · -- the leading zero is one too many: dropping it loses an octet that is not put back
          have hshort : ¬ IsShortest (0 :: c :: more) := fun h => hc (h rfl)
          simp only [hshort, iff_false]
          intro heq
          split at heq
          · rename_i hneg
            rw [List.cons.injEq] at heq
            rw [heq.2] at hneg
            simp [Reader.isNegative, hc] at hneg
          · have hlen := (List.dropWhile_suffix (l := c :: more) (· == 0)).length_le
            have := congrArg List.length heq
            rw [Bytes.stripZeros] at this
            simp only [List.length_cons] at this hlen
            omega
    · have hpos : ¬ Reader.isNegative (b :: tail) = true := by simp [hraw]
      rw [stripZeros_cons_of_ne_zero hb, if_neg hpos]
      cases tail <;> simp [IsShortest, hb]

/-- The shortest content for a number is the only one. -/
theorem denotes_and_isShortest_iff {raw : Bytes} {n : Nat} :
    Denotes raw n ∧ IsShortest raw ↔ raw = integerContent n := by
  constructor
  · rintro ⟨hraw, hshort⟩
    exact (hraw.integerContent_eq_iff.mpr hshort).symm
  · rintro rfl
    have hraw := denotes_integerContent n
    exact ⟨hraw, hraw.integerContent_eq_iff.mp rfl⟩

/-- The shortest content is as short as can be. -/
theorem isShortest_integerContent (n : Nat) : IsShortest (integerContent n) :=
  (denotes_and_isShortest_iff.mpr rfl).2

namespace Reader

/-- Reading an integer succeeds on any octet string without the sign bit, and strips it. -/
theorem magnitude_eq_ok_iff {m : Bytes} :
    magnitude bs = .ok (m, rest) ↔
      ∃ raw, raw.length < 2 ^ 32 ∧ isNegative raw = false ∧ m = Bytes.stripZeros raw ∧
        bs = stringBytes raw ++ rest := by
  unfold magnitude
  rw [reader_bind_eq_ok_iff]
  simp only [string_eq_ok_iff]
  constructor
  · rintro ⟨raw, mid, ⟨hlt, rfl⟩, hread⟩
    split at hread
    · cases hread
    · rename_i hneg
      obtain ⟨rfl, rfl⟩ := reader_pure_eq_ok_iff.mp hread
      exact ⟨raw, hlt, by simpa using hneg, rfl, rfl⟩
  · rintro ⟨raw, hlt, hneg, rfl, rfl⟩
    refine ⟨raw, rest, ⟨hlt, rfl⟩, ?_⟩
    rw [if_neg (by simp [hneg])]
    rfl

/-- Reading a number succeeds on any octet string without the sign bit. -/
theorem natural_eq_ok_iff {n : Nat} :
    natural bs = .ok (n, rest) ↔
      ∃ raw, raw.length < 2 ^ 32 ∧ Denotes raw n ∧ bs = stringBytes raw ++ rest := by
  unfold natural
  rw [reader_bind_eq_ok_iff]
  simp only [magnitude_eq_ok_iff, reader_pure_eq_ok_iff]
  constructor
  · rintro ⟨m, mid, ⟨raw, hlt, hneg, rfl, rfl⟩, rfl, rfl⟩
    exact ⟨raw, hlt, ⟨hneg, (BigEndian.toNat_stripZeros raw).symm⟩, rfl⟩
  · rintro ⟨raw, hlt, ⟨hneg, rfl⟩, rfl⟩
    exact ⟨Bytes.stripZeros raw, rest, ⟨raw, hlt, hneg, rfl, rfl⟩,
      BigEndian.toNat_stripZeros raw, rfl⟩

end Reader

end KeySmith.Ssh

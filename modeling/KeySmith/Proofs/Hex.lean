import Mathlib.Tactic
import KeySmith.Hex
import KeySmith.Proofs.Outcome
import KeySmith.Proofs.Text

/-!
# Reading hexadecimal text back

Each octet is put together again from its two digits, since every digit is read as the number it is
written for.  Digits are characters of one octet and no white space, so that a text of them survives
trimming.
-/

namespace KeySmith.Hex

/-! ### Digits -/

/-- What makes the digit of a number one that is read back. -/
def IsDigitOf (c : Char) (n : UInt8) : Prop :=
  value? (Text.asciiByte c) = some n ∧ c.toNat < 128 ∧ Text.isBlank c = false

instance (c : Char) (n : UInt8) : Decidable (IsDigitOf c n) :=
  inferInstanceAs (Decidable (_ ∧ _ ∧ _))

theorem isDigitOf_digit_ofNat :
    ∀ n : Fin 16, IsDigitOf (digit (UInt8.ofNat n)) (UInt8.ofNat n) := by
  decide

/-- The digit that is written for a number is one of the number. -/
theorem isDigitOf_digit {n : UInt8} (hn : n < 16) : IsDigitOf (digit n) n := by
  have hfin := isDigitOf_digit_ofNat ⟨n.toNat, UInt8.lt_iff_toNat_lt.mp hn⟩
  simpa only [UInt8.ofNat_toNat] using hfin

/-- The number of the first digit of an octet. -/
theorem shiftRight_lt (b : UInt8) : b >>> 4 < 16 := by
  rw [UInt8.lt_iff_toNat_lt, UInt8.toNat_shiftRight]
  have := b.toNat_lt
  simp only [Nat.shiftRight_eq_div_pow]
  change b.toNat / 2 ^ 4 < 16
  omega

/-- The number of the last digit of an octet. -/
theorem and_lt (b : UInt8) : b &&& 15 < 16 := by
  rw [UInt8.lt_iff_toNat_lt, UInt8.toNat_and]
  exact Nat.lt_succ_of_le Nat.and_le_right

/-- An octet is in its two digits. -/
theorem octet_digits (b : UInt8) : (b >>> 4) <<< 4 ||| (b &&& 15) = b := by
  rw [← UInt8.toBitVec_inj]
  simp only [UInt8.toBitVec_or, UInt8.toBitVec_and, UInt8.toBitVec_shiftLeft,
    UInt8.toBitVec_shiftRight]
  ext place hplace
  interval_cases place <;> simp

/-! ### Texts -/

/-- Every character that is written is a digit of a number. -/
theorem exists_isDigitOf {bs : Bytes} {c : Char} (hc : c ∈ encodeChars bs) :
    ∃ n, IsDigitOf c n := by
  obtain ⟨b, -, hc⟩ := List.mem_flatMap.mp hc
  simp only [List.mem_cons, List.not_mem_nil, or_false] at hc
  obtain rfl | rfl := hc
  · exact ⟨_, isDigitOf_digit (shiftRight_lt b)⟩
  · exact ⟨_, isDigitOf_digit (and_lt b)⟩

/-- What is written has no white space. -/
theorem isBlank_of_mem_encodeChars {bs : Bytes} {c : Char} (hc : c ∈ encodeChars bs) :
    Text.isBlank c = false := by
  obtain ⟨n, -, -, hblank⟩ := exists_isDigitOf hc
  exact hblank

/-- What is written takes one octet for each digit. -/
theorem toBytes_encode (bs : Bytes) :
    Text.toBytes (encode bs) = (encodeChars bs).map Text.asciiByte := by
  rw [encode, Text.toBytes_ofList]
  apply Text.flatMap_utf8EncodeChar_of_lt
  intro c hc
  obtain ⟨n, -, hlt, -⟩ := exists_isDigitOf hc
  exact hlt

/-- Octets are written in two digits each. -/
theorem length_encodeChars (bs : Bytes) : (encodeChars bs).length = 2 * bs.length := by
  induction bs with
  | nil => rfl
  | cons b bs ih =>
    rw [encodeChars] at ih
    rw [encodeChars, List.flatMap_cons, List.length_append, ih]
    simp only [List.length_cons, List.length_nil]
    omega

/-- The digit of a number is read as the number. -/
theorem valueAt_digit (place : Nat) {n : UInt8} (hn : n < 16) :
    valueAt place (Text.asciiByte (digit n)) = .ok n := by
  rw [valueAt, (isDigitOf_digit hn).1]

/-- Digits that are written are read back. -/
theorem decodeFrom_encodeChars (place : Nat) (bs : Bytes) :
    decodeFrom place ((encodeChars bs).map Text.asciiByte) = .ok bs := by
  induction bs generalizing place with
  | nil => rfl
  | cons b bs ih =>
    have ih := ih (place + 2)
    rw [encodeChars] at ih
    rw [encodeChars, List.flatMap_cons, List.map_append]
    simp only [List.map_cons, List.map_nil, List.cons_append, List.nil_append]
    rw [decodeFrom, valueAt_digit place (shiftRight_lt b), ok_bind,
      valueAt_digit (place + 1) (and_lt b), ok_bind, ih, ok_bind, octet_digits]
    rfl

/-- Octets that are written as text are read back. -/
theorem decodeText_encode (bs : Bytes) : decodeText (encode bs) = .ok bs := by
  rw [decodeText, toBytes_encode, decode, List.length_map, length_encodeChars, if_neg (by omega),
    decodeFrom_encodeChars]

end KeySmith.Hex

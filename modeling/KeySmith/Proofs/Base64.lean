import Mathlib.Tactic
import KeySmith.Base64
import KeySmith.Proofs.Outcome
import KeySmith.Proofs.Text

/-!
# Reading Base64 back

Six bits are what a symbol holds, so the octets of a group are put together again from the numbers
of its symbols, whatever the symbols are, as long as each of them stands for one number only
(`Variant.IsFaithful`).  The last group is the one that has to be looked at: it may be short, and
then the bits of its last symbol that no octet holds are zero.
-/

namespace KeySmith.Base64

/-! ### The bits of a group -/

/-- The first octet is in the first two symbols. -/
theorem octet_first (a b : UInt8) :
    (a >>> 2) <<< 2 ||| ((a &&& 3) <<< 4 ||| b >>> 4) >>> 4 = a := by
  rw [← UInt8.toBitVec_inj]
  simp only [UInt8.toBitVec_or, UInt8.toBitVec_and, UInt8.toBitVec_shiftLeft,
    UInt8.toBitVec_shiftRight]
  ext place hplace
  interval_cases place <;> simp

/-- The second octet is in the second and the third symbol. -/
theorem octet_second (a b c : UInt8) :
    ((a &&& 3) <<< 4 ||| b >>> 4) <<< 4 ||| ((b &&& 15) <<< 2 ||| c >>> 6) >>> 2 = b := by
  rw [← UInt8.toBitVec_inj]
  simp only [UInt8.toBitVec_or, UInt8.toBitVec_and, UInt8.toBitVec_shiftLeft,
    UInt8.toBitVec_shiftRight]
  ext place hplace
  interval_cases place <;> simp

/-- The third octet is in the last two symbols. -/
theorem octet_third (b c : UInt8) :
    ((b &&& 15) <<< 2 ||| c >>> 6) <<< 6 ||| (c &&& 63) = c := by
  rw [← UInt8.toBitVec_inj]
  simp only [UInt8.toBitVec_or, UInt8.toBitVec_and, UInt8.toBitVec_shiftLeft,
    UInt8.toBitVec_shiftRight]
  ext place hplace
  interval_cases place <;> simp

/-- A number that has no bits but the six lowest ones is below 64. -/
theorem lt_64_of_and_eq {n : UInt8} (h : n &&& 63 = n) : n < 64 := by
  rw [UInt8.lt_iff_toNat_lt, ← h, UInt8.toNat_and]
  exact Nat.lt_succ_of_le Nat.and_le_right

/-- The number of the first symbol of a group. -/
theorem sextet_first_lt (a : UInt8) : a >>> 2 < 64 := by
  apply lt_64_of_and_eq
  rw [← UInt8.toBitVec_inj]
  simp only [UInt8.toBitVec_and, UInt8.toBitVec_shiftRight]
  ext place hplace
  interval_cases place <;> simp

/-- The number of the second symbol of a group. -/
theorem sextet_second_lt (a b : UInt8) : (a &&& 3) <<< 4 ||| b >>> 4 < 64 := by
  apply lt_64_of_and_eq
  rw [← UInt8.toBitVec_inj]
  simp only [UInt8.toBitVec_or, UInt8.toBitVec_and, UInt8.toBitVec_shiftLeft,
    UInt8.toBitVec_shiftRight]
  ext place hplace
  interval_cases place <;> simp

/-- The number of the third symbol of a group. -/
theorem sextet_third_lt (b c : UInt8) : (b &&& 15) <<< 2 ||| c >>> 6 < 64 := by
  apply lt_64_of_and_eq
  rw [← UInt8.toBitVec_inj]
  simp only [UInt8.toBitVec_or, UInt8.toBitVec_and, UInt8.toBitVec_shiftLeft,
    UInt8.toBitVec_shiftRight]
  ext place hplace
  interval_cases place <;> simp

/-- The number of the last symbol of a group. -/
theorem sextet_last_lt (c : UInt8) : c &&& 63 < 64 := by
  apply lt_64_of_and_eq
  rw [UInt8.and_assoc, UInt8.and_self]

/-- The second symbol of a last group of one octet has no further bits. -/
theorem sextet_second_spare (a : UInt8) : (a &&& 3) <<< 4 &&& 15 = 0 := by
  rw [← UInt8.toBitVec_inj]
  simp only [UInt8.toBitVec_and, UInt8.toBitVec_shiftLeft]
  ext place hplace
  interval_cases place <;> simp

/-- The third symbol of a last group of two octets has no further bits. -/
theorem sextet_third_spare (b : UInt8) : (b &&& 15) <<< 2 &&& 3 = 0 := by
  rw [← UInt8.toBitVec_inj]
  simp only [UInt8.toBitVec_and, UInt8.toBitVec_shiftLeft]
  ext place hplace
  interval_cases place <;> simp

/-! ### Symbols -/

/-- Whether every symbol stands for its number, is not the filling and is a character of one
octet. -/
def Variant.IsFaithful (v : Variant) : Prop :=
  ∀ n : UInt8, n < 64 → value? v (symbol v n) = some n ∧ symbol v n ≠ pad ∧ symbol v n < 128

/-- The symbols of a variant are all right if those for the first 64 numbers are. -/
theorem isFaithful_of_fin {v : Variant} (h : ∀ n : Fin 64,
    value? v (symbol v (UInt8.ofNat n)) = some (UInt8.ofNat n) ∧
      symbol v (UInt8.ofNat n) ≠ pad ∧ symbol v (UInt8.ofNat n) < 128) : v.IsFaithful := by
  intro n hn
  have hfin := h ⟨n.toNat, UInt8.lt_iff_toNat_lt.mp hn⟩
  simpa only [UInt8.ofNat_toNat] using hfin

/-- The symbols of armored keys are faithful. -/
theorem standard_isFaithful : standard.IsFaithful :=
  isFaithful_of_fin (by decide)

/-- The symbols of JSON Web Keys are faithful. -/
theorem url_isFaithful : url.IsFaithful :=
  isFaithful_of_fin (by decide)

/-- What is written consists of symbols and filling. -/
theorem mem_encodeBytes {v : Variant} {bs : Bytes} {b : UInt8} (h : b ∈ encodeBytes v bs) :
    b = pad ∨ ∃ n : UInt8, n < 64 ∧ b = symbol v n := by
  have hfilling : ∀ count, b ∈ filling v count → b = pad := by
    intro count hb
    unfold filling at hb
    split at hb
    · exact (List.mem_replicate.mp hb).2
    · cases hb
  induction bs using encodeBytes.induct with
  | case1 a b' c rest ih =>
    simp only [encodeBytes, List.mem_cons] at h
    rcases h with h | h | h | h | h
    · exact Or.inr ⟨_, sextet_first_lt a, h⟩
    · exact Or.inr ⟨_, sextet_second_lt a b', h⟩
    · exact Or.inr ⟨_, sextet_third_lt b' c, h⟩
    · exact Or.inr ⟨_, sextet_last_lt c, h⟩
    · exact ih h
  | case2 a b' =>
    simp only [encodeBytes, List.mem_cons] at h
    rcases h with h | h | h | h
    · exact Or.inr ⟨_, sextet_first_lt a, h⟩
    · exact Or.inr ⟨_, sextet_second_lt a b', h⟩
    · exact Or.inr ⟨_, by simpa using sextet_third_lt b' 0, h⟩
    · exact Or.inl (hfilling 1 h)
  | case3 a =>
    simp only [encodeBytes, List.mem_cons] at h
    rcases h with h | h | h
    · exact Or.inr ⟨_, sextet_first_lt a, h⟩
    · exact Or.inr ⟨_, by simpa using sextet_second_lt a 0, h⟩
    · exact Or.inl (hfilling 2 h)
  | case4 => cases h

/-! ### Reading symbols -/

section Reading

variable {v : Variant} {offset place : Nat} {rest : Bytes}

/-- The symbol for a number is read as this number. -/
theorem valueAt_symbol (hv : v.IsFaithful) (offset : Nat) {n : UInt8} (hn : n < 64) :
    valueAt v offset (symbol v n) = .ok n := by
  rw [valueAt, (hv n hn).1]

/-- A symbol of the last group is collected with its number. -/
theorem scanTail_symbol (hv : v.IsFaithful) {n : UInt8} (hn : n < 64)
    (symbols : List (UInt8 × UInt8)) :
    scanTail v offset place ⟨symbols, 0⟩ (symbol v n :: rest) =
      scanTail v offset (place + 1) ⟨(symbol v n, n) :: symbols, 0⟩ rest := by
  rw [scanTail, if_neg (hv n hn).2.1, if_neg (by simp), valueAt_symbol hv _ hn, ok_bind]

/-- The filling behind at least two symbols is counted. -/
theorem scanTail_replicate_pad (hplace : 2 ≤ place) (t : Tail) (count : Nat) :
    scanTail v offset place t (List.replicate count pad) =
      .ok { t with fillings := t.fillings + count } := by
  induction count generalizing place t with
  | zero => rfl
  | succ count ih =>
    rw [List.replicate_succ, scanTail, if_pos rfl, if_neg (Nat.not_lt.mpr hplace),
      ih (Nat.le_succ_of_le hplace)]
    simp only [Nat.add_right_comm t.fillings 1 count, Nat.add_assoc]

/-- The filling that is written is the one that the number of symbols needs. -/
theorem scanTail_filling (hplace : 2 ≤ place) (symbols : List (UInt8 × UInt8)) (count : Nat) :
    scanTail v offset place ⟨symbols, 0⟩ (filling v count) =
      .ok ⟨symbols, if v.padded then count else 0⟩ := by
  unfold filling
  split
  · rw [scanTail_replicate_pad hplace, Nat.zero_add]
  · rfl

/-! ### Reading the last group -/

/-- A last group of four symbols gives three octets. -/
theorem decodeTail_four (hv : v.IsFaithful) {x y z u : UInt8} (hx : x < 64) (hy : y < 64)
    (hz : z < 64) (hu : u < 64) :
    decodeTail v offset [symbol v x, symbol v y, symbol v z, symbol v u] =
      .ok [x <<< 2 ||| y >>> 4, y <<< 4 ||| z >>> 2, z <<< 6 ||| u] := by
  unfold decodeTail
  rw [scanTail_symbol hv hx, scanTail_symbol hv hy, scanTail_symbol hv hz, scanTail_symbol hv hu,
    scanTail, ok_bind]
  cases hpadded : v.padded <;> simp [pure_eq_ok_iff]

/-- A last group of three symbols gives two octets. -/
theorem decodeTail_three (hv : v.IsFaithful) {x y z : UInt8} (hx : x < 64) (hy : y < 64)
    (hz : z < 64) (hspare : z &&& 3 = 0) :
    decodeTail v offset (symbol v x :: symbol v y :: symbol v z :: filling v 1) =
      .ok [x <<< 2 ||| y >>> 4, y <<< 4 ||| z >>> 2] := by
  unfold decodeTail
  rw [scanTail_symbol hv hx, scanTail_symbol hv hy, scanTail_symbol hv hz,
    scanTail_filling (by decide), ok_bind]
  cases hpadded : v.padded <;> simp [hspare, pure_eq_ok_iff]

/-- A last group of two symbols gives one octet. -/
theorem decodeTail_two (hv : v.IsFaithful) {x y : UInt8} (hx : x < 64) (hy : y < 64)
    (hspare : y &&& 15 = 0) :
    decodeTail v offset (symbol v x :: symbol v y :: filling v 2) =
      .ok [x <<< 2 ||| y >>> 4] := by
  unfold decodeTail
  rw [scanTail_symbol hv hx, scanTail_symbol hv hy, scanTail_filling (by decide), ok_bind]
  cases hpadded : v.padded <;> simp [hspare, pure_eq_ok_iff]

/-! ### Reading all groups -/

/-- There is no more filling than symbols that lack. -/
theorem length_filling_le (v : Variant) (count : Nat) : (filling v count).length ≤ count := by
  unfold filling
  split
  · exact (List.length_replicate ..).le
  · exact Nat.zero_le count

/-- A group with nothing behind it is read as the last one. -/
theorem decodeFrom_eq_decodeTail {group : Bytes} (hne : group ≠ []) (hlen : group.length < 5) :
    decodeFrom v offset group = decodeTail v offset group := by
  unfold decodeFrom
  split
  · simp only [List.length_cons] at hlen
    omega
  · exact absurd rfl hne
  · rfl

/-- Four symbols that are not the last ones give three octets in front of the others. -/
theorem decodeFrom_four (hv : v.IsFaithful) {x y z u : UInt8} (hx : x < 64) (hy : y < 64)
    (hz : z < 64) (hu : u < 64) (hrest : rest ≠ []) :
    decodeFrom v offset (symbol v x :: symbol v y :: symbol v z :: symbol v u :: rest) =
      (decodeFrom v (offset + 4) rest).map fun more =>
        (x <<< 2 ||| y >>> 4) :: (y <<< 4 ||| z >>> 2) :: (z <<< 6 ||| u) :: more := by
  cases rest with
  | nil => exact absurd rfl hrest
  | cons e rest =>
    rw [decodeFrom, valueAt_symbol hv _ hx, valueAt_symbol hv _ hy, valueAt_symbol hv _ hz,
      valueAt_symbol hv _ hu]
    rfl

/-- Groups that are written are read back. -/
theorem decodeFrom_encodeBytes (hv : v.IsFaithful) (offset : Nat) (bs : Bytes) :
    decodeFrom v offset (encodeBytes v bs) = .ok bs := by
  induction bs using encodeBytes.induct generalizing offset with
  | case1 a b c rest ih =>
    have hx := sextet_first_lt a
    have hy := sextet_second_lt a b
    have hz := sextet_third_lt b c
    have hu := sextet_last_lt c
    rw [encodeBytes]
    cases hrest : encodeBytes v rest with
    | nil =>
      have hnil := ih offset
      rw [hrest] at hnil
      obtain rfl : [] = rest := Except.ok.inj hnil
      rw [decodeFrom_eq_decodeTail (by simp) (by simp), decodeTail_four hv hx hy hz hu, octet_first,
        octet_second, octet_third]
    | cons e more =>
      rw [decodeFrom_four hv hx hy hz hu (by simp), ← hrest, ih, octet_first, octet_second,
        octet_third]
      rfl
  | case2 a b =>
    have hz : (b &&& 15) <<< 2 < 64 := by simpa using sextet_third_lt b 0
    have hsecond := octet_second a b 0
    simp only [UInt8.zero_shiftRight, UInt8.or_zero] at hsecond
    have hlen := length_filling_le v 1
    rw [encodeBytes, decodeFrom_eq_decodeTail (by simp) (by simp only [List.length_cons]; omega),
      decodeTail_three hv (sextet_first_lt a) (sextet_second_lt a b) hz (sextet_third_spare b),
      octet_first, hsecond]
  | case3 a =>
    have hy : (a &&& 3) <<< 4 < 64 := by simpa using sextet_second_lt a 0
    have hfirst := octet_first a 0
    simp only [UInt8.zero_shiftRight, UInt8.or_zero] at hfirst
    have hlen := length_filling_le v 2
    rw [encodeBytes, decodeFrom_eq_decodeTail (by simp) (by simp only [List.length_cons]; omega),
      decodeTail_two hv (sextet_first_lt a) hy (sextet_second_spare a), hfirst]
  | case4 => rfl

/-- What is written does not end in a single symbol of a group. -/
theorem length_encodeBytes_mod_ne_one (v : Variant) (bs : Bytes) :
    (encodeBytes v bs).length % 4 ≠ 1 := by
  induction bs using encodeBytes.induct with
  | case1 a b c rest ih =>
    simp only [encodeBytes, List.length_cons]
    omega
  | case2 a b =>
    have hlen := length_filling_le v 1
    simp only [encodeBytes, List.length_cons]
    omega
  | case3 a =>
    have hlen := length_filling_le v 2
    simp only [encodeBytes, List.length_cons]
    omega
  | case4 => simp [encodeBytes]

/-- Octets that are written are read back. -/
theorem decode_encodeBytes (hv : v.IsFaithful) (bs : Bytes) :
    decode v (encodeBytes v bs) = .ok bs := by
  unfold decode
  cases hlast : (encodeBytes v bs).getLast? with
  | none =>
    have hread := decodeFrom_encodeBytes hv 0 bs
    rw [List.getLast?_eq_none_iff.mp hlast] at hread
    exact hread
  | some last =>
    have hmod := length_encodeBytes_mod_ne_one v bs
    simp only [hmod, decide_false, Bool.false_and]
    exact decodeFrom_encodeBytes hv 0 bs

end Reading

/-! ### Texts -/

/-- Octets are written as some symbols. -/
theorem encodeChars_ne_nil {v : Variant} {bs : Bytes} (h : bs ≠ []) : encodeChars v bs ≠ [] := by
  intro hnil
  apply h
  have hbytes : encodeBytes v bs = [] := List.map_eq_nil_iff.mp hnil
  revert hbytes
  cases bs using encodeBytes.induct with
  | case1 a b c rest => simp [encodeBytes]
  | case2 a b => simp [encodeBytes]
  | case3 a => simp [encodeBytes]
  | case4 => simp

/-- What is written consists of characters of one octet. -/
theorem lt_128_of_mem_encodeBytes {v : Variant} (hv : v.IsFaithful) {bs : Bytes} {b : UInt8}
    (h : b ∈ encodeBytes v bs) : b < 128 := by
  rcases mem_encodeBytes h with rfl | ⟨n, hn, rfl⟩
  · decide
  · exact (hv n hn).2.2

/-- The octets of the characters that are written are the symbols. -/
theorem toBytes_encode {v : Variant} (hv : v.IsFaithful) (bs : Bytes) :
    Text.toBytes (encode v bs) = encodeBytes v bs :=
  Text.toBytes_ofList_map_ofNat fun _ => lt_128_of_mem_encodeBytes hv

/-- Octets that are written as text are read back. -/
theorem decodeText_encode {v : Variant} (hv : v.IsFaithful) (bs : Bytes) :
    decodeText v (encode v bs) = .ok bs := by
  rw [decodeText, toBytes_encode hv, decode_encodeBytes hv]

end KeySmith.Base64

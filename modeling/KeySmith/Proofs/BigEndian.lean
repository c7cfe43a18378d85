import Mathlib.Tactic
import KeySmith.Bytes

/-!
# Digits to base 256

Numbers and octet strings determine each other: an octet string is the fixed form of its number, and
a number is read back from every form that is long enough.  The shortest form is characterised by
`size_le_iff`, so that its leading octet is never zero, and stripping the leading zeros of any
octet string leaves exactly the shortest form of its number (`stripZeros_eq_fixed`).  All formats
of keys write numbers through these forms.
-/

namespace KeySmith

/-- A number with one bit set is a power of two. -/
theorem twoTo_eq (n : Nat) : twoTo n = 2 ^ n := by
  rw [twoTo, Nat.shiftLeft_eq, Nat.one_mul]

namespace BigEndian

/-- An octet has eight binary places. -/
theorem pow_256 (k : Nat) : 256 ^ k = 2 ^ (8 * k) := by
  rw [pow_mul]
  norm_num

/-! ### Numbers of octet strings -/

/-- Reading digits on from a number shifts that number past them. -/
theorem foldl_eq_add_toNat (bs : Bytes) (n : Nat) :
    bs.foldl (fun n b => n <<< 8 + b.toNat) n = n * 256 ^ bs.length + toNat bs := by
  unfold toNat
  induction bs generalizing n with
  | nil => simp
  | cons b bs ih =>
    rw [List.foldl_cons, List.foldl_cons, ih, ih (0 <<< 8 + b.toNat), List.length_cons, pow_succ]
    simp only [Nat.shiftLeft_eq]
    ring

@[simp] theorem toNat_nil : toNat [] = 0 := rfl

/-- The first octet counts for as many places as octets follow it. -/
theorem toNat_cons (b : UInt8) (bs : Bytes) :
    toNat (b :: bs) = b.toNat * 256 ^ bs.length + toNat bs := by
  have h := foldl_eq_add_toNat bs (0 <<< 8 + b.toNat)
  simpa [toNat] using h

/-- A leading zero octet does not change the number. -/
@[simp] theorem toNat_zero_cons (bs : Bytes) : toNat (0 :: bs) = toNat bs := by
  simp [toNat_cons]

/-- Any number of leading zero octets does not change the number. -/
@[simp] theorem toNat_replicate_zero_append (count : Nat) (bs : Bytes) :
    toNat (List.replicate count 0 ++ bs) = toNat bs := by
  induction count with
  | zero => rfl
  | succ count ih => rw [List.replicate_succ, List.cons_append, toNat_zero_cons, ih]

/-- The number of an octet string is bounded by its length. -/
theorem toNat_lt (bs : Bytes) : toNat bs < 256 ^ bs.length := by
  induction bs with
  | nil => simp
  | cons b bs ih =>
    have hb : b.toNat < 256 := b.toNat_lt
    rw [toNat_cons, List.length_cons, pow_succ]
    calc b.toNat * 256 ^ bs.length + toNat bs
        < b.toNat * 256 ^ bs.length + 256 ^ bs.length := by omega
      _ = (b.toNat + 1) * 256 ^ bs.length := by ring
      _ ≤ 256 * 256 ^ bs.length := Nat.mul_le_mul_right _ hb
      _ = 256 ^ bs.length * 256 := by ring

/-- An octet string with a nonzero first octet has a number of full length. -/
theorem pow_le_toNat_cons {b : UInt8} (hb : b ≠ 0) (bs : Bytes) :
    256 ^ bs.length ≤ toNat (b :: bs) := by
  have hpos : 1 ≤ b.toNat := by
    have : b.toNat ≠ 0 := fun h => hb (UInt8.toNat_inj.mp (by simpa using h))
    omega
  rw [toNat_cons]
  calc 256 ^ bs.length = 1 * 256 ^ bs.length := (Nat.one_mul _).symm
    _ ≤ b.toNat * 256 ^ bs.length := Nat.mul_le_mul_right _ hpos
    _ ≤ b.toNat * 256 ^ bs.length + toNat bs := Nat.le_add_right _ _

/-! ### Forms of fixed length -/

/-- The leading digit of a fixed form, as a quotient. -/
theorem fixed_succ (len n : Nat) :
    fixed (len + 1) n = (n / 256 ^ len).toUInt8 :: fixed len n := by
  rw [fixed, Nat.shiftRight_eq_div_pow, pow_256]

/-- Reading a fixed form gives the number as far as its digits fit. -/
theorem toNat_fixed_mod (len n : Nat) : toNat (fixed len n) = n % 256 ^ len := by
  induction len with
  | zero => simp [fixed, Nat.mod_one]
  | succ len ih =>
    rw [fixed_succ, toNat_cons, length_fixed, ih, pow_succ, Nat.mod_mul]
    have hd : (n / 256 ^ len).toUInt8.toNat = n / 256 ^ len % 256 := rfl
    rw [hd]
    ring

/-- A number is read back from a fixed form that is long enough. -/
theorem toNat_fixed {len n : Nat} (h : n < 256 ^ len) : toNat (fixed len n) = n := by
  rw [toNat_fixed_mod, Nat.mod_eq_of_lt h]

/-- A fixed form shows only the digits that fit into it. -/
theorem fixed_add_mul (len n m : Nat) : fixed len (m * 256 ^ len + n) = fixed len n := by
  induction len generalizing m with
  | zero => rfl
  | succ len ih =>
    have hsplit : m * 256 ^ (len + 1) + n = m * 256 * 256 ^ len + n := by rw [pow_succ]; ring
    have hdigit : ((m * 256 * 256 ^ len + n) / 256 ^ len).toUInt8 = (n / 256 ^ len).toUInt8 := by
      rw [Nat.add_comm, Nat.add_mul_div_right _ _ (by positivity)]
      apply UInt8.toNat_inj.mp
      change (n / 256 ^ len + m * 256) % 256 = n / 256 ^ len % 256
      omega
    rw [fixed_succ, fixed_succ, hsplit, hdigit, ih]

/-- An octet string is the fixed form of its number. -/
@[simp] theorem fixed_toNat (bs : Bytes) : fixed bs.length (toNat bs) = bs := by
  induction bs with
  | nil => rfl
  | cons b bs ih =>
    have hb : b.toNat < 256 := b.toNat_lt
    have hdigit : (toNat (b :: bs) / 256 ^ bs.length).toUInt8 = b := by
      rw [toNat_cons, Nat.add_comm, Nat.add_mul_div_right _ _ (by positivity),
        Nat.div_eq_of_lt (toNat_lt bs), Nat.zero_add]
      exact UInt8.ofNat_toNat
    rw [List.length_cons, fixed_succ, hdigit, toNat_cons, fixed_add_mul, ih]

/-! ### The shortest form -/

/-- The binary digits of a number fit into `k` places exactly when it is below `2 ^ k`. -/
theorem bitLength_le_iff (n k : Nat) : bitLength n ≤ k ↔ n < 2 ^ k := by
  unfold bitLength
  by_cases hn : n = 0
  · subst hn
    simp
  · rw [if_neg hn, Nat.succ_le_iff, Nat.log2_lt hn]

/-- A number fits into `k` octets exactly when it is below `256 ^ k`. -/
theorem size_le_iff (n k : Nat) : size n ≤ k ↔ n < 256 ^ k := by
  rw [pow_256, ← bitLength_le_iff, size]
  omega

/-- A number is below the next power of 256. -/
theorem lt_pow_size (n : Nat) : n < 256 ^ size n :=
  (size_le_iff n (size n)).mp le_rfl

/-- A smaller number is no longer. -/
theorem size_mono {m n : Nat} (h : m ≤ n) : size m ≤ size n :=
  (size_le_iff m (size n)).mpr (lt_of_le_of_lt h (lt_pow_size n))

/-- Only zero has no octets. -/
theorem size_eq_zero_iff (n : Nat) : size n = 0 ↔ n = 0 := by
  rw [← Nat.le_zero, size_le_iff, pow_zero, Nat.lt_one_iff]

/-- The size of a number that lies between two neighbouring powers of 256. -/
theorem size_eq_succ {n len : Nat} (hlow : 256 ^ len ≤ n) (hhigh : n < 256 ^ (len + 1)) :
    size n = len + 1 := by
  have hle : size n ≤ len + 1 := (size_le_iff n _).mpr hhigh
  have hnot : ¬ size n ≤ len := fun h => absurd ((size_le_iff n _).mp h) (Nat.not_lt.mpr hlow)
  omega

/-- Reading the shortest digits of a number gives it back. -/
@[simp] theorem toNat_fixed_size (n : Nat) : toNat (fixed (size n) n) = n :=
  toNat_fixed (lt_pow_size n)

/-- Stripping leading zeros does not change the number. -/
@[simp] theorem toNat_stripZeros (bs : Bytes) : toNat (Bytes.stripZeros bs) = toNat bs := by
  unfold Bytes.stripZeros
  induction bs with
  | nil => rfl
  | cons b bs ih =>
    by_cases hb : b = 0
    · subst hb
      rw [List.dropWhile_cons_of_pos (by simp), ih, toNat_zero_cons]
    · rw [List.dropWhile_cons_of_neg (by simpa using hb)]

/-- Without leading zeros, an octet string is the shortest form of its number. -/
theorem stripZeros_eq_fixed (bs : Bytes) :
    Bytes.stripZeros bs = fixed (size (toNat bs)) (toNat bs) := by
  unfold Bytes.stripZeros
  induction bs with
  | nil => rfl
  | cons b bs ih =>
    by_cases hb : b = 0
    · subst hb
      rw [List.dropWhile_cons_of_pos (by simp), ih, toNat_zero_cons]
    · rw [List.dropWhile_cons_of_neg (by simpa using hb),
        size_eq_succ (pow_le_toNat_cons hb bs) (toNat_lt (b :: bs))]
      exact (fixed_toNat (b :: bs)).symm

/-- The shortest form that has at least one octet, read back. -/
@[simp] theorem toNat_minimal (n : Nat) : toNat (minimal n) = n :=
  toNat_fixed (lt_of_lt_of_le (lt_pow_size n)
    (Nat.pow_le_pow_right (by decide) (le_max_right _ _)))

/-- An octet string without a leading zero is the shortest form of its number. -/
theorem minimal_toNat_cons {b : UInt8} (hb : b ≠ 0) (bs : Bytes) :
    minimal (toNat (b :: bs)) = b :: bs := by
  rw [minimal, size_eq_succ (pow_le_toNat_cons hb bs) (toNat_lt (b :: bs)),
    max_eq_right (Nat.succ_pos bs.length)]
  exact fixed_toNat (b :: bs)

/-- The shortest form of a number other than zero has no leading zero. -/
theorem exists_minimal_eq_cons {n : Nat} (h : n ≠ 0) :
    ∃ b bs, b ≠ (0 : UInt8) ∧ minimal n = b :: bs := by
  cases hstrip : Bytes.stripZeros (minimal n) with
  | nil =>
    have hzero := toNat_stripZeros (minimal n)
    rw [hstrip, toNat_minimal] at hzero
    exact absurd hzero.symm h
  | cons b bs =>
    have hdrop : (minimal n).dropWhile (· == 0) = b :: bs := hstrip
    have hhead := List.head?_dropWhile_not (fun c : UInt8 => c == 0) (minimal n)
    rw [hdrop] at hhead
    have hb : b ≠ 0 := by simpa using hhead
    refine ⟨b, bs, hb, ?_⟩
    have hn : toNat (b :: bs) = n := by
      rw [← hstrip, toNat_stripZeros, toNat_minimal]
    rw [← hn, minimal_toNat_cons hb]

end BigEndian

/-- A number is read back from its digits, the lowest first. -/
theorem LittleEndian.toNat_octets {len n : Nat} (h : n < 256 ^ len) :
    LittleEndian.toNat (LittleEndian.octets len n).bytes = n := by
  rw [LittleEndian.toNat, LittleEndian.octets, List.reverse_reverse, BigEndian.toNat_fixed h]

end KeySmith

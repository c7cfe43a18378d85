import KeySmith.Bytes

/-!
# Octets at the front, and octets added

Octets of known length are taken from the front of a longer string, and what is added to octets by
exclusive or is taken off by adding it again, or by adding other octets that it was added to.
-/

namespace KeySmith

/-! ### Octets at the front -/

namespace Octets

variable {n : Nat}

/-- Octet strings of known length are equal when their octets are. -/
theorem ext {a b : Octets n} (h : a.bytes = b.bytes) : a = b := by
  cases a
  cases b
  cases h
  rfl

/-- The first octets of a long enough string are its front. -/
theorem bytes_firstOf {bs : Bytes} (h : n ≤ bs.length) : (firstOf n bs).bytes = bs.take n := by
  simp [firstOf, Nat.sub_eq_zero_of_le h]

/-- An octet string of known length is read from the front of any string that starts with it. -/
theorem firstOf_append (o : Octets n) (bs : Bytes) : firstOf n (o.bytes ++ bs) = o := by
  have hle : n ≤ (o.bytes ++ bs).length := by
    rw [List.length_append, o.length_eq]
    exact Nat.le_add_right n bs.length
  apply ext
  rw [bytes_firstOf hle]
  exact List.take_left' o.length_eq

end Octets

/-! ### Octets added -/

namespace Bytes

/-- Octets are added as far as the shorter string reaches. -/
theorem length_xor (a b : Bytes) : (xor a b).length = min a.length b.length :=
  List.length_zipWith

/-- What is added to all octets of a string is taken off by adding it again. -/
theorem xor_xor_cancel {a b : Bytes} (h : a.length ≤ b.length) : xor (xor a b) b = a := by
  induction a generalizing b with
  | nil => rfl
  | cons x a ih =>
    cases b with
    | nil => cases h
    | cons y b =>
      have hrest : xor (xor a b) b = a := ih (Nat.le_of_succ_le_succ h)
      have hfirst : x ^^^ y ^^^ y = x := by
        rw [UInt8.xor_assoc, UInt8.xor_self, UInt8.xor_zero]
      exact List.cons_eq_cons.mpr ⟨hfirst, hrest⟩

/-- What is added to all octets of two strings falls out when the two are added. -/
theorem xor_xor_xor_cancel {a b s : Bytes} (ha : a.length ≤ s.length) (hb : b.length ≤ s.length) :
    xor (xor a s) (xor b s) = xor a b := by
  induction s generalizing a b with
  | nil =>
    obtain rfl := List.length_eq_zero_iff.mp (Nat.le_zero.mp ha)
    rfl
  | cons z s ih =>
    rcases a with _ | ⟨x, a⟩
    · rfl
    rcases b with _ | ⟨y, b⟩
    · rfl
    have hrest : xor (xor a s) (xor b s) = xor a b :=
      ih (Nat.le_of_succ_le_succ ha) (Nat.le_of_succ_le_succ hb)
    have hfirst : x ^^^ z ^^^ (y ^^^ z) = x ^^^ y := by
      rw [UInt8.xor_assoc, UInt8.xor_comm y z, ← UInt8.xor_assoc z, UInt8.xor_self,
        UInt8.zero_xor]
    exact List.cons_eq_cons.mpr ⟨hfirst, hrest⟩

/-- Of a longer string only the beginning is added. -/
theorem xor_append {a b : Bytes} (h : a.length ≤ b.length) (more : Bytes) :
    xor a (b ++ more) = xor a b := by
  induction a generalizing b with
  | nil => rfl
  | cons x a ih =>
    rcases b with _ | ⟨y, b⟩
    · cases h
    exact congrArg ((x ^^^ y) :: ·) (ih (Nat.le_of_succ_le_succ h))

end Bytes

end KeySmith

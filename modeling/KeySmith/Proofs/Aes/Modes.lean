import KeySmith.Aes.Modes
import KeySmith.Proofs.Aes.Block

/-!
# Decrypting chained messages

Octets that fill blocks and blocks are the same, and chaining is undone block by block, each with
the ciphertext before it.  A padded message fills blocks, one more than the message itself does, and
the padding tells how much of it there is; whole blocks are a padded message exactly when they end
with a padding (`exists_pad_eq_iff`).  So a chained message is decrypted exactly to what it was made
from (`decryptChained?_eq_some_iff`).
-/

namespace KeySmith.Aes

/-! ### Whole blocks -/

/-- Blocks are read back from their octets. -/
theorem wholeBlocks_flatMap_toBytes (xs : List Block) :
    wholeBlocks (xs.flatMap Block.toBytes) = xs := by
  induction xs with
  | nil => rfl
  | cons x xs ih =>
    obtain ⟨⟨a, b, c, d⟩, ⟨e, f, g, h⟩, ⟨i, j, k, l⟩, ⟨m, n, o, p⟩⟩ := x
    rw [List.flatMap_cons]
    change _ :: wholeBlocks (xs.flatMap Block.toBytes) = _
    rw [ih]

/-- Octets that fill blocks are the octets of these blocks. -/
theorem flatMap_toBytes_wholeBlocks {bs : Bytes} {count : Nat} (h : bs.length = 16 * count) :
    (wholeBlocks bs).flatMap Block.toBytes = bs := by
  induction count generalizing bs with
  | zero =>
    obtain rfl := List.length_eq_zero_iff.mp h
    rfl
  | succ count ih =>
    match bs, h with
    | a :: b :: c :: d :: e :: f :: g :: i :: j :: k :: l :: m :: n :: o :: p :: q :: rest, h =>
      have hrest : rest.length = 16 * count := by
        simp only [List.length_cons] at h
        omega
      rw [wholeBlocks, List.flatMap_cons, ih hrest]
      rfl

/-- The octets of blocks fill them. -/
@[simp] theorem length_flatMap_toBytes (xs : List Block) :
    (xs.flatMap Block.toBytes).length = 16 * xs.length := by
  induction xs with
  | nil => rfl
  | cons x xs ih =>
    rw [List.flatMap_cons, List.length_append, ih, Block.length_toBytes, List.length_cons]
    omega

/-! ### Chaining -/

/-- Chaining keeps the number of blocks. -/
@[simp] theorem length_chain (k : RoundKeys) (last : Block) (xs : List Block) :
    (chain k last xs).length = xs.length := by
  induction xs generalizing last with
  | nil => rfl
  | cons x xs ih => rw [chain, List.length_cons, List.length_cons, ih]

/-- Chaining is undone. -/
theorem unchain_chain (k : RoundKeys) (last : Block) (xs : List Block) :
    unchain k last (chain k last xs) = xs := by
  induction xs generalizing last with
  | nil => rfl
  | cons x xs ih => rw [chain, unchain, decryptBlock_encryptBlock, Block.xor_xor_self, ih]

/-- Chaining undoes its inverse. -/
theorem chain_unchain (k : RoundKeys) (last : Block) (ys : List Block) :
    chain k last (unchain k last ys) = ys := by
  induction ys generalizing last with
  | nil => rfl
  | cons y ys ih => rw [unchain, chain, Block.xor_xor_self, encryptBlock_decryptBlock, ih]

/-- The inverse of chaining keeps the number of blocks. -/
@[simp] theorem length_unchain (k : RoundKeys) (last : Block) (ys : List Block) :
    (unchain k last ys).length = ys.length := by
  rw [← length_chain k last (unchain k last ys), chain_unchain]

/-! ### Padding -/

/-- A padded message fills one block more than the message. -/
theorem length_pad (message : Bytes) : (pad message).length = 16 * (message.length / 16 + 1) := by
  have hsplit := Nat.div_add_mod message.length 16
  have hlt := Nat.mod_lt message.length (show 0 < 16 by decide)
  rw [pad, List.length_append, List.length_replicate]
  omega

/-- Padding is taken off where it is well formed, which is where it has been put on. -/
theorem unpad?_eq_some_iff {padded message : Bytes} (h : padded.length % 16 = 0) :
    unpad? padded = some message ↔ pad message = padded := by
  constructor
  · intro hread
    unfold unpad? at hread
    split at hread
    · cases hread
    · rename_i last hlast
      obtain ⟨⟨hpos, hmax, hlen, hall⟩, hmessage⟩ := Option.ite_none_right_eq_some.mp hread
      obtain rfl := Option.some.inj hmessage
      have hlength : (padded.take (padded.length - last.toNat)).length =
          padded.length - last.toNat := by
        rw [List.length_take]
        omega
      have hmissing : 16 - (padded.take (padded.length - last.toNat)).length % 16 =
          last.toNat := by
        rw [hlength]
        omega
      have hfilling : padded.drop (padded.length - last.toNat) =
          List.replicate last.toNat last := by
        refine List.eq_replicate_iff.mpr ⟨?_, ?_⟩
        · rw [List.length_drop]
          omega
        · intro b hb
          simpa using List.all_eq_true.mp hall b hb
      rw [pad, hmissing]
      change _ ++ List.replicate last.toNat (UInt8.ofNat last.toNat) = padded
      rw [UInt8.ofNat_toNat, ← hfilling, List.take_append_drop]
  · rintro rfl
    have hlt := Nat.mod_lt message.length (show 0 < 16 by decide)
    obtain ⟨missing, hmissing⟩ : ∃ missing, 16 - message.length % 16 = missing + 1 :=
      Nat.exists_eq_add_one.mpr (by omega)
    have hcount : (missing + 1).toUInt8.toNat = missing + 1 := by
      change (missing + 1) % 256 = missing + 1
      omega
    have hlast : (message ++ List.replicate (missing + 1) (missing + 1).toUInt8).getLast? =
        some (missing + 1).toUInt8 := by
      rw [List.getLast?_append, List.getLast?_replicate,
        if_neg (Nat.succ_ne_zero missing), Option.some_or]
    have hlength : (message ++ List.replicate (missing + 1) (missing + 1).toUInt8).length -
        (missing + 1) = message.length := by
      rw [List.length_append, List.length_replicate, Nat.add_sub_cancel]
    rw [pad, hmissing, unpad?]
    simp only [hlast, hcount, hlength, List.drop_left, List.take_left]
    rw [if_pos]
    refine ⟨Nat.succ_pos missing, by omega, ?_, ?_⟩
    · rw [List.length_append, List.length_replicate]
      omega
    · simp

/-- Octets end with as many octets as each of these tells: at least one, and no more than fill a
block. -/
def IsPadded (bs : Bytes) : Prop :=
  ∃ count, 0 < count ∧ count ≤ 16 ∧ List.replicate count count.toUInt8 <:+ bs

/-- Whole blocks with a padding at their end are a padded message.  What stands before the padding
misses as many octets to the next block as the padding has, so it is padded to the same octets. -/
theorem exists_pad_eq_iff {bs : Bytes} (h : bs.length % 16 = 0) :
    (∃ message, pad message = bs) ↔ IsPadded bs := by
  constructor
  · rintro ⟨message, rfl⟩
    have hlt := Nat.mod_lt message.length (show 0 < 16 by decide)
    exact ⟨16 - message.length % 16, by omega, by omega, List.suffix_append message _⟩
  · rintro ⟨count, hpos, hmax, message, rfl⟩
    rw [List.length_append, List.length_replicate] at h
    have hmissing : 16 - message.length % 16 = count := by omega
    refine ⟨message, ?_⟩
    rw [pad, hmissing]

/-! ### Chained messages -/

/-- The ciphertext of a message fills one block more than the message. -/
theorem length_encryptChained (key : Bytes) (iv : Octets 16) (message : Bytes) :
    (encryptChained key iv message).length = 16 * (message.length / 16 + 1) := by
  have hpad := length_pad message
  have hblocks := flatMap_toBytes_wholeBlocks hpad
  have hlength := congrArg List.length hblocks
  rw [length_flatMap_toBytes, hpad] at hlength
  rw [encryptChained, length_flatMap_toBytes, length_chain, hlength]

/-- A ciphertext is decrypted to a message exactly when it is the one of the message. -/
theorem decryptChained?_eq_some_iff {key : Bytes} {iv : Octets 16} {ciphertext message : Bytes} :
    decryptChained? key iv ciphertext = some message ↔
      encryptChained key iv message = ciphertext := by
  constructor
  · intro h
    unfold decryptChained? at h
    split at h
    · rename_i hwhole
      obtain ⟨count, hcount⟩ := Nat.dvd_of_mod_eq_zero hwhole
      have hpad := (unpad?_eq_some_iff (by
        rw [length_flatMap_toBytes, Nat.mul_mod_right])).mp h
      rw [encryptChained, hpad, wholeBlocks_flatMap_toBytes, chain_unchain,
        flatMap_toBytes_wholeBlocks hcount]
    · cases h
  · rintro rfl
    have hpad := length_pad message
    have hlength := length_encryptChained key iv message
    have hwhole : (encryptChained key iv message).length % 16 = 0 := by omega
    rw [decryptChained?, if_pos hwhole, encryptChained, wholeBlocks_flatMap_toBytes,
      unchain_chain, flatMap_toBytes_wholeBlocks hpad]
    exact (unpad?_eq_some_iff (by omega)).mpr rfl

end KeySmith.Aes

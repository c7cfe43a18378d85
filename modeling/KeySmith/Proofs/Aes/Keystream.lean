import KeySmith.Proofs.Aes.Modes
import KeySmith.Proofs.Bytes

/-!
# The keystream of output feedback

A block of the keystream is made from the block before it, and the first one from the vector.  The
message has no part in it but for its length, so the keystream of a short message is the beginning
of the one of a longer message (`feedback_prefix`), and one keystream that is long enough serves for
all messages in question (`applyKeystream_eq`).  What output feedback does to messages is then what
the addition of one string does to octets.
-/

namespace KeySmith.Aes

/-- As many blocks of the keystream come as are asked for. -/
theorem length_feedback (k : RoundKeys) (count : Nat) (last : Block) :
    (feedback k count last).length = count := by
  induction count generalizing last with
  | zero => rfl
  | succ count ih => rw [feedback, List.length_cons, ih]

/-- Fewer blocks of the keystream are the first ones of more blocks. -/
theorem feedback_prefix (k : RoundKeys) {count more : Nat} (h : count ≤ more) (last : Block) :
    feedback k count last <+: feedback k more last := by
  induction count generalizing more last with
  | zero => exact List.nil_prefix
  | succ count ih =>
    obtain ⟨more, rfl⟩ := Nat.exists_eq_add_one.mpr (Nat.zero_lt_of_lt h)
    exact List.cons_prefix_cons.mpr ⟨rfl, ih (Nat.le_of_succ_le_succ h) _⟩

/-- The octets of the first blocks of the keystream of a vector. -/
def keystream (key : Bytes) (iv : Octets 16) (blocks : Nat) : Bytes :=
  (feedback (.ofKey key) blocks (.ofOctets iv)).flatMap Block.toBytes

theorem length_keystream (key : Bytes) (iv : Octets 16) (blocks : Nat) :
    (keystream key iv blocks).length = 16 * blocks := by
  rw [keystream, length_flatMap_toBytes, length_feedback]

variable (key : Bytes) (iv : Octets 16)

/-- A message has its keystream added to it, or any longer one. -/
theorem applyKeystream_eq {message : Bytes} {blocks : Nat} (h : message.length ≤ 16 * blocks) :
    applyKeystream key iv message = Bytes.xor message (keystream key iv blocks) := by
  have hblocks : (message.length + 15) / 16 ≤ blocks := by omega
  have hlength : message.length ≤ (keystream key iv ((message.length + 15) / 16)).length := by
    rw [length_keystream]
    omega
  obtain ⟨more, hmore⟩ := feedback_prefix (.ofKey key) hblocks (.ofOctets iv)
  rw [keystream, ← hmore, List.flatMap_append]
  exact (Bytes.xor_append hlength _).symm

/-- The keystream adds no octets. -/
theorem length_applyKeystream (message : Bytes) :
    (applyKeystream key iv message).length = message.length := by
  have hcovers : message.length ≤ 16 * message.length := Nat.le_mul_of_pos_left _ (by decide)
  rw [applyKeystream_eq key iv hcovers, Bytes.length_xor, length_keystream, min_eq_left hcovers]

/-- A keystream that has been added is taken off by adding it again. -/
theorem applyKeystream_applyKeystream (message : Bytes) :
    applyKeystream key iv (applyKeystream key iv message) = message := by
  have hcovers : message.length ≤ 16 * message.length := Nat.le_mul_of_pos_left _ (by decide)
  have hsame := length_applyKeystream key iv message
  rw [applyKeystream_eq key iv (hsame.le.trans hcovers), applyKeystream_eq key iv hcovers]
  exact Bytes.xor_xor_cancel (by rwa [length_keystream])

/-- Under one key and vector the keystream falls out of the sum of two messages, as far as the
shorter one reaches. -/
theorem xor_applyKeystream (p q : Bytes) :
    Bytes.xor (applyKeystream key iv p) (applyKeystream key iv q) = Bytes.xor p q := by
  have hp : p.length ≤ 16 * (p.length + q.length) := by omega
  have hq : q.length ≤ 16 * (p.length + q.length) := by omega
  rw [applyKeystream_eq key iv hp, applyKeystream_eq key iv hq]
  apply Bytes.xor_xor_xor_cancel
  · rwa [length_keystream]
  · rwa [length_keystream]

end KeySmith.Aes

import KeySmith.Aes.Block
import Mathlib.Data.Fintype.EquivFin

/-!
# Decrypting AES blocks

Every step of a round is undone by its counterpart, so a whole encryption is.  Substitution is
undone by the second table.  Mixing columns is undone without any arithmetic of the field: all of it
is linear in doubling, and the terms cancel.
-/

namespace KeySmith.Aes

/-! ### Substitution -/

/-- The second table undoes the first one. -/
theorem unsubstitute_substitute (b : UInt8) : unsubstitute (substitute b) = b := by
  have htable : (substitutions.toList.map fun s => (unsubstitute s).toNat) = List.range 256 := by
    decide +kernel
  have hentry := congrArg (·[b.toNat]?) htable
  simp only [List.getElem?_map, List.getElem?_range b.toNat_lt] at hentry
  obtain ⟨s, hs, hinverse⟩ := Option.map_eq_some_iff.mp hentry
  have hsubstitute : substitute b = s := by
    rw [substitute, Array.getD_eq_getD_getElem?, ← Array.getElem?_toList, hs, Option.getD_some]
  rw [hsubstitute]
  exact UInt8.toNat_inj.mp hinverse

/-- The first table undoes the second one, since there are no more octets than octets. -/
theorem substitute_unsubstitute (b : UInt8) : substitute (unsubstitute b) = b := by
  have hfinite : Finite UInt8 := Finite.of_injective UInt8.toFin fun _ _ => UInt8.toFin_inj.mp
  have hinjective : Function.Injective substitute :=
    Function.LeftInverse.injective unsubstitute_substitute
  obtain ⟨c, rfl⟩ := Finite.surjective_of_injective hinjective b
  rw [unsubstitute_substitute]

namespace Column

/-- The substitution of a column is undone. -/
@[simp] theorem map_unsubstitute_map_substitute (x : Column) :
    (x.map substitute).map unsubstitute = x := by
  simp only [map, unsubstitute_substitute]

/-- The substitution undoes the inverse one. -/
@[simp] theorem map_substitute_map_unsubstitute (x : Column) :
    (x.map unsubstitute).map substitute = x := by
  simp only [map, substitute_unsubstitute]

/-- A column that is added twice is taken off again. -/
@[simp] theorem xor_xor_self (x y : Column) : (x.xor y).xor y = x := by
  simp only [xor, UInt8.xor_assoc, UInt8.xor_self, UInt8.xor_zero]

end Column

/-! ### Mixing columns -/

/-- Doubling is linear. -/
theorem double_xor (a b : UInt8) : double (a ^^^ b) = double a ^^^ double b := by
  have hbit : ∀ c : UInt8, c >>> 7 = 0 ∨ c >>> 7 = 1 := by
    intro c
    have hc : (c >>> 7).toNat = c.toNat >>> 7 := UInt8.toNat_shiftRight c 7
    have hlt : c.toNat >>> 7 < 2 := by
      have := c.toNat_lt
      rw [Nat.shiftRight_eq_div_pow]
      omega
    rw [← UInt8.toNat_inj, ← UInt8.toNat_inj, hc]
    change c.toNat >>> 7 = 0 ∨ c.toNat >>> 7 = 1
    omega
  have hlow : (a ^^^ b) <<< 1 = a <<< 1 ^^^ b <<< 1 := UInt8.shiftLeft_xor
  have hhigh : ((a ^^^ b) >>> 7) * (0x1b : UInt8) =
      (a >>> 7) * (0x1b : UInt8) ^^^ (b >>> 7) * (0x1b : UInt8) := by
    rw [UInt8.shiftRight_xor]
    rcases hbit a with ha | ha <;> rcases hbit b with hb | hb <;> rw [ha, hb] <;> rfl
  rw [double, double, double, hlow, hhigh]
  ac_rfl

/-- A term that is added twice in a row is no term. -/
theorem xor_xor_cancel_left (a b : UInt8) : a ^^^ (a ^^^ b) = b := by
  rw [← UInt8.xor_assoc, UInt8.xor_self, UInt8.zero_xor]

/-- What mixing a column twice does: four times the sum of opposite octets is added to both. -/
def spread (x : Column) : Column :=
  let u := double (double (x.a ^^^ x.c))
  let v := double (double (x.b ^^^ x.d))
  ⟨x.a ^^^ u, x.b ^^^ v, x.c ^^^ u, x.d ^^^ v⟩

theorem unmixColumn_eq (x : Column) : unmixColumn x = mixColumn (spread x) :=
  rfl

/-- The square of the matrix of mixing. -/
theorem mixColumn_mixColumn (x : Column) : mixColumn (mixColumn x) = spread x := by
  have hcomm : ∀ a b c : UInt8, a ^^^ (b ^^^ c) = b ^^^ (a ^^^ c) := by
    intro a b c
    ac_rfl
  simp only [mixColumn, spread, double_xor, Column.mk.injEq]
  refine ⟨?_, ?_, ?_, ?_⟩ <;>
    simp only [UInt8.xor_assoc, UInt8.xor_comm, hcomm, xor_xor_cancel_left, UInt8.xor_self,
      UInt8.zero_xor]

/-- Opposite octets keep their sum, so what is added is the same a second time. -/
theorem spread_spread (x : Column) : spread (spread x) = x := by
  have hsum : ∀ a c u : UInt8, (a ^^^ u) ^^^ (c ^^^ u) = a ^^^ c := by
    intro a c u
    rw [UInt8.xor_comm c u, UInt8.xor_assoc, xor_xor_cancel_left]
  simp only [spread, hsum, UInt8.xor_assoc, UInt8.xor_self, UInt8.xor_zero]

/-- Mixing columns is undone, since the matrix is its own inverse three times over. -/
theorem unmixColumn_mixColumn (x : Column) : unmixColumn (mixColumn x) = x := by
  rw [unmixColumn_eq, ← mixColumn_mixColumn (mixColumn x), mixColumn_mixColumn x,
    mixColumn_mixColumn, spread_spread]

/-- Mixing columns undoes the inverse. -/
theorem mixColumn_unmixColumn (x : Column) : mixColumn (unmixColumn x) = x := by
  rw [unmixColumn_eq, mixColumn_mixColumn, spread_spread]

/-! ### Rounds -/

namespace Block

/-- A block that is added twice is taken off again. -/
@[simp] theorem xor_xor_self (x y : Block) : (x.xor y).xor y = x := by
  simp only [xor, Column.xor_xor_self]

/-- Columns are mapped back by an inverse of what mapped them. -/
theorem mapColumns_mapColumns {f g : Column → Column} (h : ∀ x, g (f x) = x) (x : Block) :
    (x.mapColumns f).mapColumns g = x := by
  simp only [mapColumns, h]

end Block

@[simp] theorem unshiftRows_shiftRows (x : Block) : unshiftRows (shiftRows x) = x :=
  rfl

@[simp] theorem shiftRows_unshiftRows (x : Block) : shiftRows (unshiftRows x) = x :=
  rfl

/-- A full round is undone. -/
theorem unround_round (x key : Block) : unround (round x key) key = x := by
  rw [unround, round, Block.xor_xor_self, Block.mapColumns_mapColumns unmixColumn_mixColumn,
    unshiftRows_shiftRows, Block.mapColumns_mapColumns Column.map_unsubstitute_map_substitute]

/-- A full round undoes its inverse. -/
theorem round_unround (x key : Block) : round (unround x key) key = x := by
  rw [unround, round, Block.mapColumns_mapColumns Column.map_substitute_map_unsubstitute,
    shiftRows_unshiftRows, Block.mapColumns_mapColumns mixColumn_unmixColumn, Block.xor_xor_self]

/-- The last round is undone. -/
theorem unlastRound_lastRound (x key : Block) : unlastRound (lastRound x key) key = x := by
  rw [unlastRound, lastRound, Block.xor_xor_self, unshiftRows_shiftRows,
    Block.mapColumns_mapColumns Column.map_unsubstitute_map_substitute]

/-- The last round undoes its inverse. -/
theorem lastRound_unlastRound (x key : Block) : lastRound (unlastRound x key) key = x := by
  rw [unlastRound, lastRound, Block.mapColumns_mapColumns Column.map_substitute_map_unsubstitute,
    shiftRows_unshiftRows, Block.xor_xor_self]

/-- All full rounds are undone, the last of them first. -/
theorem foldr_unround_foldl_round (keys : List Block) (x : Block) :
    keys.foldr (fun key y => unround y key) (keys.foldl round x) = x := by
  induction keys generalizing x with
  | nil => rfl
  | cons key keys ih => rw [List.foldl_cons, List.foldr_cons, ih, unround_round]

/-- All full rounds undo their inverses. -/
theorem foldl_round_foldr_unround (keys : List Block) (x : Block) :
    keys.foldl round (keys.foldr (fun key y => unround y key) x) = x := by
  induction keys generalizing x with
  | nil => rfl
  | cons key keys ih => rw [List.foldl_cons, List.foldr_cons, round_unround, ih]

/-- Decryption undoes encryption of a block. -/
theorem decryptBlock_encryptBlock (k : RoundKeys) (x : Block) :
    decryptBlock k (encryptBlock k x) = x := by
  rw [decryptBlock, encryptBlock, unlastRound_lastRound, foldr_unround_foldl_round,
    Block.xor_xor_self]

/-- Encryption undoes decryption of a block. -/
theorem encryptBlock_decryptBlock (k : RoundKeys) (x : Block) :
    encryptBlock k (decryptBlock k x) = x := by
  rw [decryptBlock, encryptBlock, Block.xor_xor_self, foldl_round_foldr_unround,
    lastRound_unlastRound]

end KeySmith.Aes

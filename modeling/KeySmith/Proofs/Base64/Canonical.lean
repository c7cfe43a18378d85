import KeySmith.Proofs.Base64

/-!
# Base64 has one text for each octet string

Reading is strict, so what is read is what would be written: the symbols of a group are put together
again from its octets, the bits that no octet holds are zero, and the filling is the one that the
number of symbols needs.  A text that is read is therefore the text that is written for its octets
(`decodeText_eq_ok_iff`).
-/

namespace KeySmith.Base64

/-! ### The symbols of a group -/

/-- A number below 64 has no bits but the six lowest ones. -/
theorem and_eq_of_lt_64 {n : UInt8} (h : n < 64) : n &&& 63 = n := by
  apply UInt8.toNat_inj.mp
  rw [UInt8.toNat_and]
  exact (Nat.and_two_pow_sub_one_eq_mod n.toNat 6).trans
    (Nat.mod_eq_of_lt (UInt8.lt_iff_toNat_lt.mp h))

/-- The first symbol is in the first octet. -/
theorem sextet_first {x y : UInt8} (hx : x < 64) (hy : y < 64) :
    (x <<< 2 ||| y >>> 4) >>> 2 = x := by
  rw [← and_eq_of_lt_64 hx, ← and_eq_of_lt_64 hy, ← UInt8.toBitVec_inj]
  simp only [UInt8.toBitVec_or, UInt8.toBitVec_and, UInt8.toBitVec_shiftLeft,
    UInt8.toBitVec_shiftRight]
  ext place hplace
  interval_cases place <;> simp

/-- The second symbol is in the first two octets. -/
theorem sextet_second {x y z : UInt8} (hy : y < 64) (hz : z < 64) :
    ((x <<< 2 ||| y >>> 4) &&& 3) <<< 4 ||| (y <<< 4 ||| z >>> 2) >>> 4 = y := by
  rw [← and_eq_of_lt_64 hy, ← and_eq_of_lt_64 hz, ← UInt8.toBitVec_inj]
  simp only [UInt8.toBitVec_or, UInt8.toBitVec_and, UInt8.toBitVec_shiftLeft,
    UInt8.toBitVec_shiftRight]
  ext place hplace
  interval_cases place <;> simp

/-- The third symbol is in the last two octets. -/
theorem sextet_third {y z u : UInt8} (hz : z < 64) (hu : u < 64) :
    ((y <<< 4 ||| z >>> 2) &&& 15) <<< 2 ||| (z <<< 6 ||| u) >>> 6 = z := by
  rw [← and_eq_of_lt_64 hz, ← and_eq_of_lt_64 hu, ← UInt8.toBitVec_inj]
  simp only [UInt8.toBitVec_or, UInt8.toBitVec_and, UInt8.toBitVec_shiftLeft,
    UInt8.toBitVec_shiftRight]
  ext place hplace
  interval_cases place <;> simp

/-- The last symbol is in the last octet. -/
theorem sextet_last {z u : UInt8} (hu : u < 64) : (z <<< 6 ||| u) &&& 63 = u := by
  rw [← and_eq_of_lt_64 hu, ← UInt8.toBitVec_inj]
  simp only [UInt8.toBitVec_or, UInt8.toBitVec_and, UInt8.toBitVec_shiftLeft]
  ext place hplace
  interval_cases place <;> simp

/-- A second symbol without further bits leaves nothing to a second octet. -/
theorem shiftLeft_eq_zero_of_and_15 {y : UInt8} (h : y &&& 15 = 0) : y <<< 4 = 0 := by
  have hlow : y <<< 4 = (y &&& 15) <<< 4 := by
    rw [← UInt8.toBitVec_inj]
    simp only [UInt8.toBitVec_and, UInt8.toBitVec_shiftLeft]
    ext place hplace
    interval_cases place <;> simp
  rw [hlow, h]
  rfl

/-- A third symbol without further bits leaves nothing to a third octet. -/
theorem shiftLeft_eq_zero_of_and_3 {z : UInt8} (h : z &&& 3 = 0) : z <<< 6 = 0 := by
  have hlow : z <<< 6 = (z &&& 3) <<< 6 := by
    rw [← UInt8.toBitVec_inj]
    simp only [UInt8.toBitVec_and, UInt8.toBitVec_shiftLeft]
    ext place hplace
    interval_cases place <;> simp
  rw [hlow, h]
  rfl

/-! ### Symbols -/

/-- A number is read from its symbol only, whatever the symbols for 62 and 63 are. -/
theorem symbol_of_value? {v : Variant} {b n : UInt8} (h : value? v b = some n) :
    n < 64 ∧ symbol v n = b := by
  unfold value? at h
  split at h
  · cases h
    constructor <;> grind [Base64.symbol]
  split at h
  · cases h
    constructor <;> grind [Base64.symbol]
  split at h
  · cases h
    constructor <;> grind [Base64.symbol]
  split at h
  · rename_i hb
    cases h
    exact ⟨by decide, hb.symm⟩
  split at h
  · rename_i hb
    cases h
    exact ⟨by decide, hb.symm⟩
  · cases h

section Reading

variable {v : Variant} {offset place : Nat} {bs : Bytes}

/-- An octet with a number is the symbol for it. -/
theorem symbol_of_valueAt {b n : UInt8} (h : valueAt v offset b = .ok n) :
    n < 64 ∧ b = symbol v n := by
  unfold valueAt at h
  split at h
  · rename_i m hm
    cases h
    obtain ⟨hlt, hsymbol⟩ := symbol_of_value? hm
    exact ⟨hlt, hsymbol.symm⟩
  · cases h

/-! ### The last group -/

/-- Whether the symbols that have been collected are those for their numbers. -/
def Tail.IsFaithful (v : Variant) (t : Tail) : Prop :=
  ∀ s ∈ t.symbols, s.2 < 64 ∧ s.1 = symbol v s.2

/-- The octets that a last group has been collected from. -/
def Tail.group (t : Tail) : Bytes :=
  (t.symbols.map Prod.fst).reverse ++ List.replicate t.fillings pad

/-- Collecting a last group loses none of its octets: what has been collected is what had been
before, and the octets read. -/
theorem group_of_scanTail {rest : Bytes} {t t' : Tail}
    (h : scanTail v offset place t rest = .ok t') (ht : t.IsFaithful v) :
    t'.IsFaithful v ∧ t'.group = t.group ++ rest := by
  induction rest generalizing place t with
  | nil =>
    cases h
    exact ⟨ht, (List.append_nil _).symm⟩
  | cons b rest ih =>
    rw [scanTail] at h
    split at h
    · rename_i hb
      split at h
      · cases h
      · obtain ⟨hfaithful, hgroup⟩ := ih h ht
        refine ⟨hfaithful, hgroup.trans ?_⟩
        rw [Tail.group, Tail.group, hb, List.replicate_succ', List.append_assoc, List.append_assoc,
          List.append_assoc, List.singleton_append]
    split at h
    · cases h
    · rename_i hfillings
      obtain ⟨n, hn, h⟩ := bind_eq_ok_iff.mp h
      obtain ⟨hfaithful, hgroup⟩ := ih h (by
        intro s hs
        rcases List.mem_cons.mp hs with rfl | hs
        · exact symbol_of_valueAt hn
        · exact ht s hs)
      refine ⟨hfaithful, hgroup.trans ?_⟩
      have hzero : t.fillings = 0 := by omega
      simp [Tail.group, hzero]

/-- Filling that completes a group of four symbols, and none where none is written, is the filling
that is written. -/
theorem replicate_pad_eq_filling {count fillings : Nat} (hcount : 2 ≤ count)
    (hlen : count + fillings ≤ 4)
    (hpad : if v.padded then (count + fillings) % 4 = 0 else fillings = 0) :
    List.replicate fillings pad = filling v (4 - count) := by
  unfold filling
  split
  · rename_i hpadded
    rw [if_pos hpadded] at hpad
    rw [show fillings = 4 - count by omega]
  · rename_i hpadded
    rw [if_neg hpadded] at hpad
    rw [hpad, List.replicate_zero]

/-- Two symbols are those of the octet that they give. -/
theorem encodeBytes_two {x y : UInt8} (hx : x < 64) (hy : y < 64) (hspare : y &&& 15 = 0) :
    encodeBytes v [x <<< 2 ||| y >>> 4] = symbol v x :: symbol v y :: filling v 2 := by
  have hsecond := sextet_second (x := x) (z := 0) hy (by decide)
  rw [shiftLeft_eq_zero_of_and_15 hspare] at hsecond
  simp only [UInt8.zero_shiftRight, UInt8.or_zero] at hsecond
  rw [encodeBytes, sextet_first hx hy, hsecond]

/-- Three symbols are those of the octets that they give. -/
theorem encodeBytes_three {x y z : UInt8} (hx : x < 64) (hy : y < 64) (hz : z < 64)
    (hspare : z &&& 3 = 0) :
    encodeBytes v [x <<< 2 ||| y >>> 4, y <<< 4 ||| z >>> 2] =
      symbol v x :: symbol v y :: symbol v z :: filling v 1 := by
  have hthird := sextet_third (y := y) (u := 0) hz (by decide)
  rw [shiftLeft_eq_zero_of_and_3 hspare] at hthird
  simp only [UInt8.zero_shiftRight, UInt8.or_zero] at hthird
  rw [encodeBytes, sextet_first hx hy, sextet_second hy hz, hthird]

/-- Four symbols are those of the octets that they give, in front of any others. -/
theorem encodeBytes_four {x y z u : UInt8} (hx : x < 64) (hy : y < 64) (hz : z < 64) (hu : u < 64)
    (more : Bytes) :
    encodeBytes v ((x <<< 2 ||| y >>> 4) :: (y <<< 4 ||| z >>> 2) :: (z <<< 6 ||| u) :: more) =
      symbol v x :: symbol v y :: symbol v z :: symbol v u :: encodeBytes v more := by
  rw [encodeBytes, sextet_first hx hy, sextet_second hy hz, sextet_third hz hu, sextet_last hu]

/-- A last group that is read is the one that is written for its octets. -/
theorem eq_encodeBytes_of_decodeTail {group : Bytes} (h : decodeTail v offset group = .ok bs)
    (hlen : group.length ≤ 4) : group = encodeBytes v bs := by
  unfold decodeTail at h
  simp only [bind_eq_ok_iff, guard_eq_ok_iff] at h
  obtain ⟨⟨symbols, fillings⟩, ht, hcount, h⟩ := h
  obtain ⟨hfaithful, hgroup⟩ := group_of_scanTail ht (by simp [Tail.IsFaithful])
  obtain rfl : _ = group := hgroup
  have hcount : 2 ≤ symbols.length := Nat.not_lt.mp hcount
  have hlen : symbols.length + fillings ≤ 4 := by simpa [Tail.group] using hlen
  obtain ⟨hpad, h⟩ :
      (if v.padded then (symbols.length + fillings) % 4 = 0 else fillings = 0) ∧ _ := by
    rcases hpadded : v.padded with _ | _
    · simp only [hpadded, Bool.false_eq_true, if_false, guard_eq_ok_iff, Nat.not_lt,
        Nat.le_zero] at h ⊢
      exact h
    · simp only [hpadded, if_true, guard_eq_ok_iff, not_not] at h ⊢
      exact h
  have hfilling := replicate_pad_eq_filling hcount hlen hpad
  rw [Tail.group, hfilling]
  rcases symbols with _ | ⟨⟨last, u⟩, _ | ⟨⟨third, z⟩, _ | ⟨⟨second, y⟩, _ | ⟨⟨first, x⟩, more⟩⟩⟩⟩
  · simp at hcount
  · simp at hcount
  · simp only [guard_eq_ok_iff, pure_eq_ok_iff, not_not] at h
    obtain ⟨hspare, rfl⟩ := h
    simp only [Tail.IsFaithful, List.forall_mem_cons] at hfaithful
    obtain ⟨⟨hu, rfl⟩, ⟨hz, rfl⟩, -⟩ := hfaithful
    exact (encodeBytes_two hz hu hspare).symm
  · simp only [guard_eq_ok_iff, pure_eq_ok_iff, not_not] at h
    obtain ⟨hspare, rfl⟩ := h
    simp only [Tail.IsFaithful, List.forall_mem_cons] at hfaithful
    obtain ⟨⟨hu, rfl⟩, ⟨hz, rfl⟩, ⟨hy, rfl⟩, -⟩ := hfaithful
    exact (encodeBytes_three hy hz hu hspare).symm
  · simp only [pure_eq_ok_iff] at h
    obtain rfl := h
    obtain rfl : more = [] := List.length_eq_zero_iff.mp (by simp at hlen; omega)
    simp only [Tail.IsFaithful, List.forall_mem_cons] at hfaithful
    obtain ⟨⟨hu, rfl⟩, ⟨hz, rfl⟩, ⟨hy, rfl⟩, ⟨hx, rfl⟩, -⟩ := hfaithful
    rw [encodeBytes_four hx hy hz hu]
    simp [filling, encodeBytes]

/-! ### Texts -/

/-- Groups that are read are those that are written for their octets. -/
theorem eq_encodeBytes_of_decodeFrom {symbols : Bytes} (h : decodeFrom v offset symbols = .ok bs) :
    symbols = encodeBytes v bs := by
  induction offset, symbols using decodeFrom.induct generalizing bs with
  | case1 offset a b c d e rest ih =>
    rw [decodeFrom] at h
    simp only [bind_eq_ok_iff, pure_eq_ok_iff] at h
    obtain ⟨x, hreadx, y, hready, z, hreadz, u, hreadu, more, hmore, rfl⟩ := h
    obtain ⟨hx, rfl⟩ := symbol_of_valueAt hreadx
    obtain ⟨hy, rfl⟩ := symbol_of_valueAt hready
    obtain ⟨hz, rfl⟩ := symbol_of_valueAt hreadz
    obtain ⟨hu, rfl⟩ := symbol_of_valueAt hreadu
    rw [encodeBytes_four hx hy hz hu, ← ih hmore]
  | case2 offset =>
    cases h
    rfl
  | case3 offset group hlong hne =>
    have hlen : group.length ≤ 4 := by
      rcases group with _ | ⟨a, _ | ⟨b, _ | ⟨c, _ | ⟨d, _ | ⟨e, rest⟩⟩⟩⟩⟩
      · simp
      · simp
      · simp
      · simp
      · simp
      · exact (hlong a b c d e rest rfl).elim
    rw [decodeFrom_eq_decodeTail hne (Nat.lt_succ_of_le hlen)] at h
    exact eq_encodeBytes_of_decodeTail h hlen

/-- Symbols that are read are those that are written for their octets. -/
theorem eq_encodeBytes_of_decode {symbols : Bytes} (h : decode v symbols = .ok bs) :
    symbols = encodeBytes v bs := by
  unfold decode at h
  split at h
  · rename_i hnil
    cases h
    rw [List.getLast?_eq_none_iff.mp hnil]
    rfl
  · split at h
    · cases h
    · exact eq_encodeBytes_of_decodeFrom h

/-- A text is read as some octets exactly when it is the text that is written for them. -/
theorem decodeText_eq_ok_iff (hv : v.IsFaithful) {s : String} :
    decodeText v s = .ok bs ↔ s = encode v bs := by
  constructor
  · intro h
    apply Text.toBytes_injective
    rw [toBytes_encode hv]
    exact eq_encodeBytes_of_decode h
  · rintro rfl
    exact decodeText_encode hv bs

end Reading

end KeySmith.Base64

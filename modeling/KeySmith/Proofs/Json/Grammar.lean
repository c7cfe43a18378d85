import Mathlib.Data.List.Basic
import KeySmith.Json.Reader

/-!
# The grammar of JSON

What a text spells is said here without a reader: which characters a string may consist of and which
text they stand for, what numbers look like, and how values are put together, with white space
between all parts.  `Denotes` is the relation between texts and values that comes out.  Whatever a
text denotes is what the reader gives for it (`parse_of_denotes`).

The reader is bounded by a number that each value, element and member takes one from, and every one
of them has a character of its own.  So twice the number of characters is enough for a value, and
one more for elements and members, which take one before they come to their first value.
-/

namespace KeySmith.Json

/-! ### White space -/

/-- Whether characters are white space only. -/
def IsSpaces (cs : List Char) : Prop :=
  ∀ c ∈ cs, isSpace c = true

theorem isSpaces_nil : IsSpaces [] :=
  List.forall_mem_nil _

/-- White space in front is passed over. -/
theorem skipSpace_append {spaces : List Char} (h : IsSpaces spaces) (rest : List Char) :
    skipSpace (spaces ++ rest) = skipSpace rest :=
  List.dropWhile_append_of_pos h

/-- A text that starts with another character is left as it is. -/
theorem skipSpace_cons {c : Char} (h : isSpace c = false) (rest : List Char) :
    skipSpace (c :: rest) = c :: rest :=
  List.dropWhile_cons_of_neg (by simp [h])

/-- A text that starts with another character behind white space goes on with it. -/
theorem skipSpace_append_cons {spaces : List Char} (h : IsSpaces spaces) {c : Char}
    (hc : isSpace c = false) (rest : List Char) : skipSpace (spaces ++ c :: rest) = c :: rest := by
  rw [skipSpace_append h, skipSpace_cons hc]

/-! ### Texts of strings -/

/-- The first unit of the surrogate pair of a character. -/
def highHalf (c : Char) : Nat :=
  0xd800 + (c.toNat - 0x10000) / 0x400

/-- The second unit of the surrogate pair of a character. -/
def lowHalf (c : Char) : Nat :=
  0xdc00 + (c.toNat - 0x10000) % 0x400

/-- The texts that pieces of a string stand for: a character stands for itself, and so do its number
or its surrogate pair. -/
inductive SpellsText : List Piece → List Char → Prop
  | nil : SpellsText [] []
  | char (c : Char) {ps : List Piece} {cs : List Char} (h : SpellsText ps cs) :
      SpellsText (.char c :: ps) (c :: cs)
  | unit {c : Char} (hc : c.toNat < 0x10000) {ps : List Piece} {cs : List Char}
      (h : SpellsText ps cs) : SpellsText (.unit c.toNat :: ps) (c :: cs)
  | pair {c : Char} (hc : 0x10000 ≤ c.toNat) {ps : List Piece} {cs : List Char}
      (h : SpellsText ps cs) :
      SpellsText (.unit (highHalf c) :: .unit (lowHalf c) :: ps) (c :: cs)

theorem isHighHalf_iff (n : Nat) : isHighHalf n = true ↔ 0xd800 ≤ n ∧ n < 0xdc00 := by
  rw [isHighHalf, Bool.and_eq_true, decide_eq_true_iff, decide_eq_true_iff]

theorem isLowHalf_iff (n : Nat) : isLowHalf n = true ↔ 0xdc00 ≤ n ∧ n < 0xe000 := by
  rw [isLowHalf, Bool.and_eq_true, decide_eq_true_iff, decide_eq_true_iff]

/-- The number of a character is no half of a surrogate pair. -/
theorem not_isHalf_toNat (c : Char) : ¬ isHighHalf c.toNat = true ∧ ¬ isLowHalf c.toNat = true := by
  have hvalid : c.toNat < 0xd800 ∨ 0xdfff < c.toNat := by
    rcases c.valid with h | h
    · exact .inl h
    · exact .inr h.1
  rw [isHighHalf_iff, isLowHalf_iff]
  omega

/-- A number that is no half of a surrogate pair is the number of its character. -/
theorem toNat_ofNat {n : Nat} (hhigh : ¬ isHighHalf n = true) (hlow : ¬ isLowHalf n = true)
    (hn : n < 0x110000) : (Char.ofNat n).toNat = n := by
  rw [isHighHalf_iff] at hhigh
  rw [isLowHalf_iff] at hlow
  have hvalid : n.isValidChar := by
    rw [Nat.isValidChar]
    omega
  rw [Char.ofNat, dif_pos hvalid]
  rfl

/-- The character of a surrogate pair. -/
theorem exists_of_halves {n m : Nat} (hn : isHighHalf n = true) (hm : isLowHalf m = true) :
    ∃ c, Char.ofNat (0x10000 + (n - 0xd800) * 0x400 + (m - 0xdc00)) = c ∧ 0x10000 ≤ c.toNat ∧
      highHalf c = n ∧ lowHalf c = m := by
  rw [isHighHalf_iff] at hn
  rw [isLowHalf_iff] at hm
  have hnumber : (Char.ofNat (0x10000 + (n - 0xd800) * 0x400 + (m - 0xdc00))).toNat =
      0x10000 + (n - 0xd800) * 0x400 + (m - 0xdc00) := by
    apply toNat_ofNat
    · rw [isHighHalf_iff]
      omega
    · rw [isLowHalf_iff]
      omega
    · omega
  refine ⟨_, rfl, ?_, ?_, ?_⟩
  · omega
  · rw [highHalf, hnumber]
    omega
  · rw [lowHalf, hnumber]
    omega

/-- A character beyond the first plane has a surrogate pair. -/
theorem isHalf_halves {c : Char} (hc : 0x10000 ≤ c.toNat) :
    isHighHalf (highHalf c) = true ∧ isLowHalf (lowHalf c) = true ∧
      Char.ofNat (0x10000 + (highHalf c - 0xd800) * 0x400 + (lowHalf c - 0xdc00)) = c := by
  have hlt : c.toNat < 0x110000 := by
    rcases c.valid with h | h
    · exact Nat.lt_trans h (by decide)
    · exact h.2
  rw [isHighHalf_iff, isLowHalf_iff, highHalf, lowHalf]
  refine ⟨by omega, by omega, ?_⟩
  have hnumber : 0x10000 + (0xd800 + (c.toNat - 0x10000) / 0x400 - 0xd800) * 0x400 +
      (0xdc00 + (c.toNat - 0x10000) % 0x400 - 0xdc00) = c.toNat := by
    omega
  rw [hnumber, Char.ofNat_toNat]

/-- A number that is no half of a surrogate pair stands for its character, whatever follows. -/
theorem piecesText?_unit_cons {n : Nat} (hhigh : ¬ isHighHalf n = true)
    (hlow : ¬ isLowHalf n = true) (ps : List Piece) :
    piecesText? (.unit n :: ps) = (piecesText? ps).map (Char.ofNat n :: ·) := by
  cases ps with
  | nil => simp [piecesText?, hhigh, hlow]
  | cons p ps => cases p <;> simp [piecesText?, hhigh, hlow]

/-- Pieces that stand for a text have it for their text. -/
theorem SpellsText.piecesText?_eq {ps : List Piece} {cs : List Char} (h : SpellsText ps cs) :
    piecesText? ps = some cs := by
  induction h with
  | nil => rfl
  | char c h ih =>
    rw [piecesText?, ih]
    rfl
  | @unit c hc ps cs h ih =>
    obtain ⟨hhigh, hlow⟩ := not_isHalf_toNat c
    rw [piecesText?_unit_cons hhigh hlow, ih, Char.ofNat_toNat]
    rfl
  | @pair c hc ps cs h ih =>
    obtain ⟨hhigh, hlow, hchar⟩ := isHalf_halves hc
    rw [piecesText?, if_pos hhigh, if_pos hlow, ih, hchar]
    rfl

/-- A number that is no half of a surrogate pair goes in front of what the pieces behind it stand
for. -/
theorem exists_of_piecesText?_unit_cons {n : Nat} (hn : n < 0x10000) (hhigh : ¬ isHighHalf n = true)
    (hlow : ¬ isLowHalf n = true) {ps : List Piece} {cs : List Char}
    (h : piecesText? (.unit n :: ps) = some cs) :
    ∃ c more, c.toNat = n ∧ cs = c :: more ∧ piecesText? ps = some more := by
  rw [piecesText?_unit_cons hhigh hlow, Option.map_eq_some_iff] at h
  obtain ⟨more, hmore, rfl⟩ := h
  exact ⟨_, more, toNat_ofNat hhigh hlow (Nat.lt_trans hn (by decide)), rfl, hmore⟩

/-- Pieces with numbers of four digits to base 16 stand for the text that they have. -/
theorem spellsText_of_piecesText?_eq {ps : List Piece} (hunits : ∀ n, .unit n ∈ ps → n < 0x10000)
    {cs : List Char} (h : piecesText? ps = some cs) : SpellsText ps cs := by
  induction ps using piecesText?.induct generalizing cs with
  | case1 =>
    cases h
    exact .nil
  | case2 c ps ih =>
    rw [piecesText?, Option.map_eq_some_iff] at h
    obtain ⟨more, hmore, rfl⟩ := h
    exact .char c (ih (fun n hn => hunits n (List.mem_cons_of_mem _ hn)) hmore)
  | case3 n m ps hhigh hlow ih =>
    rw [piecesText?, if_pos hhigh, if_pos hlow, Option.map_eq_some_iff] at h
    obtain ⟨more, hmore, rfl⟩ := h
    obtain ⟨c, hc, hbig, rfl, rfl⟩ := exists_of_halves hhigh hlow
    rw [hc]
    exact .pair hbig
      (ih (fun n hn => hunits n (List.mem_cons_of_mem _ (List.mem_cons_of_mem _ hn))) hmore)
  | case4 n m ps hhigh hlow =>
    rw [piecesText?, if_pos hhigh, if_neg hlow] at h
    cases h
  | case5 n m ps hhigh hlow =>
    rw [piecesText?, if_neg hhigh, if_pos hlow] at h
    cases h
  | case6 n m ps hhigh hlow ih =>
    have hn := hunits n List.mem_cons_self
    obtain ⟨c, more, rfl, rfl, hmore⟩ := exists_of_piecesText?_unit_cons hn hhigh hlow h
    exact .unit hn (ih (fun n hn => hunits n (List.mem_cons_of_mem _ hn)) hmore)
  | case7 n ps hnext hhalf =>
    -- the piece behind the half is no number, so the other half is missing
    cases ps with
    | nil => simp [piecesText?, hhalf] at h
    | cons p ps =>
      cases p with
      | char c => simp [piecesText?, hhalf] at h
      | unit m => exact absurd rfl (hnext m ps)
  | case8 n ps hnext hhalf ih =>
    rw [Bool.or_eq_true, not_or] at hhalf
    have hn := hunits n List.mem_cons_self
    obtain ⟨c, more, rfl, rfl, hmore⟩ := exists_of_piecesText?_unit_cons hn hhalf.1 hhalf.2 h
    exact .unit hn (ih (fun n hn => hunits n (List.mem_cons_of_mem _ hn)) hmore)

/-! ### Strings -/

/-- The pieces that characters between quotation marks spell: a character that needs no escape, an
escape with one letter, or one with four digits to base 16. -/
inductive SpellsPieces : List Char → List Piece → Prop
  | nil : SpellsPieces [] []
  | plain {c : Char} (hcontrol : 0x20 ≤ c.toNat) (hquote : c ≠ '"') (hslash : c ≠ '\\')
      {cs : List Char} {ps : List Piece} (h : SpellsPieces cs ps) :
      SpellsPieces (c :: cs) (.char c :: ps)
  | escape {e c : Char} (he : shortEscape? e = some c) {cs : List Char} {ps : List Piece}
      (h : SpellsPieces cs ps) : SpellsPieces ('\\' :: e :: cs) (.char c :: ps)
  | unit {d₀ d₁ d₂ d₃ : Char} {n₀ n₁ n₂ n₃ : Nat} (h₀ : hexValue? d₀ = some n₀)
      (h₁ : hexValue? d₁ = some n₁) (h₂ : hexValue? d₂ = some n₂) (h₃ : hexValue? d₃ = some n₃)
      {cs : List Char} {ps : List Piece} (h : SpellsPieces cs ps) :
      SpellsPieces ('\\' :: 'u' :: d₀ :: d₁ :: d₂ :: d₃ :: cs)
        (.unit (((n₀ * 16 + n₁) * 16 + n₂) * 16 + n₃) :: ps)

/-- Pieces are read up to the quotation mark behind them: no piece takes less than a character. -/
theorem SpellsPieces.pieces_append {cs : List Char} {ps : List Piece} (h : SpellsPieces cs ps)
    {fuel : Nat} (hfuel : cs.length < fuel) (rest : List Char) :
    pieces fuel (cs ++ '"' :: rest) = some (ps, rest) := by
  induction h generalizing fuel with
  | nil =>
    obtain ⟨fuel, rfl⟩ := Nat.exists_eq_add_one.mpr hfuel
    rfl
  | @plain c hcontrol hquote hslash cs ps h ih =>
    obtain ⟨fuel, rfl⟩ := Nat.exists_eq_add_one.mpr (Nat.zero_lt_of_lt hfuel)
    have hplain : ¬ (c.toNat < 0x20 ∨ c = '\\') := not_or.mpr ⟨Nat.not_lt.mpr hcontrol, hslash⟩
    rw [List.cons_append, pieces, if_neg hplain, ih (Nat.lt_of_succ_lt_succ hfuel)]
    · rfl
    · exact hquote
    · exact fun _ h => absurd h hslash
    · exact fun _ _ h => absurd h hslash
  | @escape e c he cs ps h ih =>
    obtain ⟨fuel, rfl⟩ := Nat.exists_eq_add_one.mpr (Nat.zero_lt_of_lt hfuel)
    rw [List.length_cons, List.length_cons] at hfuel
    have hmore : pieces fuel (cs ++ '"' :: rest) = some (ps, rest) := ih (by omega)
    rw [List.cons_append, List.cons_append, pieces, he]
    · simp only [Option.bind_eq_bind, Option.bind_some, hmore]
      rfl
    · rintro rfl
      cases he
  | @unit d₀ d₁ d₂ d₃ n₀ n₁ n₂ n₃ h₀ h₁ h₂ h₃ cs ps h ih =>
    obtain ⟨fuel, rfl⟩ := Nat.exists_eq_add_one.mpr (Nat.zero_lt_of_lt hfuel)
    simp only [List.length_cons] at hfuel
    have hdigits : fourDigits (d₀ :: d₁ :: d₂ :: d₃ :: (cs ++ '"' :: rest)) =
        some (((n₀ * 16 + n₁) * 16 + n₂) * 16 + n₃, cs ++ '"' :: rest) := by
      simp [fourDigits, h₀, h₁, h₂, h₃]
    have hmore : pieces fuel (cs ++ '"' :: rest) = some (ps, rest) := ih (by omega)
    simp only [List.cons_append, pieces, hdigits, Option.bind_eq_bind, Option.bind_some, hmore]
    rfl

/-- A digit to base 16 stands for a number below 16. -/
theorem hexValue?_lt {d : Char} {n : Nat} (h : hexValue? d = some n) : n < 16 := by
  have hle : ∀ {a b : Char}, a ≤ b → a.toNat ≤ b.toNat := fun h => UInt32.le_iff_toNat_le.mp h
  have hnine : '9'.toNat = 57 := rfl
  have hsmall : 'f'.toNat = 102 := rfl
  have hlarge : 'F'.toNat = 70 := rfl
  unfold hexValue? at h
  split at h
  · rename_i hd
    have := hle hd.2
    cases h
    omega
  · split at h
    · rename_i hd
      have := hle hd.2
      cases h
      omega
    · split at h
      · rename_i hd
        have := hle hd.2
        cases h
        omega
      · cases h

/-- The numbers in pieces have four digits to base 16. -/
theorem SpellsPieces.unit_lt {cs : List Char} {ps : List Piece} (h : SpellsPieces cs ps) {n : Nat}
    (hn : .unit n ∈ ps) : n < 0x10000 := by
  induction h with
  | nil => cases hn
  | plain hcontrol hquote hslash h ih =>
    rcases List.mem_cons.mp hn with heq | hn
    · cases heq
    · exact ih hn
  | escape he h ih =>
    rcases List.mem_cons.mp hn with heq | hn
    · cases heq
    · exact ih hn
  | unit h₀ h₁ h₂ h₃ h ih =>
    rcases List.mem_cons.mp hn with heq | hn
    · cases heq
      have := hexValue?_lt h₀
      have := hexValue?_lt h₁
      have := hexValue?_lt h₂
      have := hexValue?_lt h₃
      omega
    · exact ih hn

/-- Whether a text spells a string: pieces between quotation marks. The string has a text exactly
when the pieces stand for one. -/
def SpellsString (s : List Char) (text? : Option (List Char)) : Prop :=
  ∃ body ps, s = '"' :: (body ++ ['"']) ∧ SpellsPieces body ps ∧
    ∀ cs, text? = some cs ↔ SpellsText ps cs

/-- Pieces stand for one text only, so what they spell is this text. -/
theorem spellsString_of_text {body cs : List Char} {ps : List Piece}
    (hpieces : SpellsPieces body ps) (htext : SpellsText ps cs) :
    SpellsString ('"' :: (body ++ ['"'])) (some cs) := by
  refine ⟨body, ps, rfl, hpieces, fun other => ?_⟩
  constructor
  · rintro ⟨rfl⟩
    exact htext
  · intro hother
    rw [← htext.piecesText?_eq, hother.piecesText?_eq]

/-- A string is read behind its opening quotation mark. -/
theorem SpellsString.stringBody_eq {s : List Char} {text? : Option (List Char)}
    (h : SpellsString s text?) :
    ∃ body, s = '"' :: (body ++ ['"']) ∧
      ∀ rest, stringBody (body ++ '"' :: rest) = some (text?, rest) := by
  obtain ⟨body, ps, rfl, hpieces, htext⟩ := h
  refine ⟨body, rfl, fun rest => ?_⟩
  have hfuel : body.length < (body ++ '"' :: rest).length + 1 := by
    rw [List.length_append]
    omega
  have hsame : piecesText? ps = text? := by
    apply Option.ext
    intro cs
    rw [htext]
    exact ⟨spellsText_of_piecesText?_eq fun n => hpieces.unit_lt, SpellsText.piecesText?_eq⟩
  rw [stringBody, hpieces.pieces_append hfuel rest, Option.map_some, ← hsame]

/-! ### Numbers -/

/-- Whether characters are digits, and at least one. -/
def AreDigits (ds : List Char) : Prop :=
  ds ≠ [] ∧ ∀ c ∈ ds, c.isDigit = true

/-- Whether characters are a point and digits behind it, or nothing. -/
def IsFraction (cs : List Char) : Prop :=
  cs = [] ∨ ∃ ds, AreDigits ds ∧ cs = '.' :: ds

/-- Whether characters are an exponent, or nothing. -/
def IsExponent (cs : List Char) : Prop :=
  cs = [] ∨ ∃ e sign ds, (e = 'e' ∨ e = 'E') ∧ (sign = [] ∨ sign = ['+'] ∨ sign = ['-']) ∧
    AreDigits ds ∧ cs = e :: (sign ++ ds)

/-- Whether characters are a number without a sign. Its digits do not start with zero unless there
is no other. -/
def IsUnsigned (cs : List Char) : Prop :=
  ∃ whole fraction exponent, AreDigits whole ∧ (whole.head? = some '0' → whole = ['0']) ∧
    IsFraction fraction ∧ IsExponent exponent ∧ cs = whole ++ (fraction ++ exponent)

/-- Whether characters are a number. -/
def IsNumber (cs : List Char) : Prop :=
  IsUnsigned cs ∨ ∃ digits, IsUnsigned digits ∧ cs = '-' :: digits

/-- Whether digits end in front of a text. -/
def EndsDigits (rest : List Char) : Prop :=
  ∀ c ∈ rest.head?, c.isDigit = false

/-- Whether a number ends in front of a text. -/
def EndsNumber (rest : List Char) : Prop :=
  ∀ c ∈ rest.head?, c.isDigit = false ∧ c ≠ '.' ∧ c ≠ 'e' ∧ c ≠ 'E'

theorem EndsNumber.endsDigits {rest : List Char} (h : EndsNumber rest) : EndsDigits rest :=
  fun c hc => (h c hc).1

/-- Digits are read as long as there are any. -/
theorem digits_append {ds rest : List Char} (hds : AreDigits ds) (hrest : EndsDigits rest) :
    digits (ds ++ rest) = some (ds, rest) := by
  obtain ⟨hne, hdigit⟩ := hds
  have hstop : rest.takeWhile Char.isDigit = [] ∧ rest.dropWhile Char.isDigit = rest := by
    cases rest with
    | nil => exact ⟨rfl, rfl⟩
    | cons c rest =>
      have hc : ¬ c.isDigit = true := by
        rw [hrest c rfl]
        exact Bool.false_ne_true
      exact ⟨List.takeWhile_cons_of_neg hc, List.dropWhile_cons_of_neg hc⟩
  have hisEmpty : ds.isEmpty = false := List.isEmpty_eq_false_iff.mpr hne
  simp only [digits, List.takeWhile_append_of_pos hdigit, List.dropWhile_append_of_pos hdigit,
    hstop, List.append_nil, hisEmpty, Bool.false_eq_true, if_false]

/-- The digits in front of a point or an exponent are read. -/
theorem integerPart_append {whole rest : List Char} (hwhole : AreDigits whole)
    (hzero : whole.head? = some '0' → whole = ['0']) (hrest : EndsDigits rest) :
    integerPart (whole ++ rest) = some (whole, rest) := by
  by_cases hhead : whole.head? = some '0'
  · have hdigit : (rest.headD ' ').isDigit = false := by
      cases rest with
      | nil => rfl
      | cons c rest => exact hrest c rfl
    rw [hzero hhead, List.singleton_append, integerPart, hdigit, if_neg Bool.false_ne_true]
  · have hread := digits_append hwhole hrest
    obtain ⟨c, cs, rfl⟩ := List.exists_cons_of_ne_nil hwhole.1
    rw [List.cons_append] at hread ⊢
    rw [integerPart, hread]
    rintro more ⟨rfl⟩
    exact hhead rfl

/-- A fraction is read, and where none stands none is read. -/
theorem fractionPart_append {fraction rest : List Char} (h : IsFraction fraction)
    (hrest : EndsDigits rest) (hpoint : rest.head? ≠ some '.') :
    fractionPart (fraction ++ rest) = some (fraction, rest) := by
  rcases h with rfl | ⟨ds, hds, rfl⟩
  · cases rest with
    | nil => rfl
    | cons c rest =>
      rw [List.nil_append, fractionPart]
      rintro more ⟨rfl⟩
      exact hpoint rfl
  · rw [List.cons_append, fractionPart, digits_append hds hrest]
    rfl

/-- The sign of an exponent is read in front of its digits. -/
theorem exponentSign_append {sign ds : List Char} (h : sign = [] ∨ sign = ['+'] ∨ sign = ['-'])
    (hds : AreDigits ds) (rest : List Char) :
    exponentSign (sign ++ (ds ++ rest)) = (sign, ds ++ rest) := by
  obtain ⟨c, cs, rfl⟩ := List.exists_cons_of_ne_nil hds.1
  have hc : c.isDigit = true := hds.2 c List.mem_cons_self
  rcases h with rfl | rfl | rfl
  · rw [List.nil_append, List.cons_append, exponentSign]
    · rintro more ⟨rfl⟩
      exact absurd hc (by decide)
    · rintro more ⟨rfl⟩
      exact absurd hc (by decide)
  · rfl
  · rfl

/-- An exponent is read, and where none stands none is read. -/
theorem exponentPart_append {exponent rest : List Char} (h : IsExponent exponent)
    (hrest : EndsNumber rest) : exponentPart (exponent ++ rest) = some (exponent, rest) := by
  rcases h with rfl | ⟨e, sign, ds, he, hsign, hds, rfl⟩
  · cases rest with
    | nil => rfl
    | cons c rest =>
      obtain ⟨-, -, hsmall, hlarge⟩ := hrest c rfl
      rw [List.nil_append, exponentPart, if_neg (by simp [hsmall, hlarge])]
  · rw [List.cons_append, List.append_assoc, exponentPart, if_pos he,
      exponentSign_append hsign hds]
    simp only [digits_append hds hrest.endsDigits]
    rfl

/-- A number without a sign is read up to where it ends. -/
theorem IsUnsigned.unsigned_append {cs rest : List Char} (h : IsUnsigned cs)
    (hrest : EndsNumber rest) : unsigned (cs ++ rest) = some (cs, rest) := by
  obtain ⟨whole, fraction, exponent, hwhole, hzero, hfraction, hexponent, rfl⟩ := h
  have hpoint : rest.head? ≠ some '.' := fun h => (hrest _ h).2.1 rfl
  -- neither an exponent nor what follows the number goes on with digits or a point
  have hbehind : EndsDigits (exponent ++ rest) ∧ (exponent ++ rest).head? ≠ some '.' := by
    rcases hexponent with rfl | ⟨e, sign, ds, he, -, -, rfl⟩
    · exact ⟨hrest.endsDigits, hpoint⟩
    · rcases he with rfl | rfl
      · exact ⟨by rintro c ⟨rfl⟩; rfl, by simp⟩
      · exact ⟨by rintro c ⟨rfl⟩; rfl, by simp⟩
  have hall : EndsDigits (fraction ++ (exponent ++ rest)) := by
    rcases hfraction with rfl | ⟨ds, -, rfl⟩
    · exact hbehind.1
    · rintro c ⟨rfl⟩
      rfl
  have hfirst := integerPart_append hwhole hzero hall
  have hsecond := fractionPart_append hfraction hbehind.1 hbehind.2
  have hthird := exponentPart_append hexponent hrest
  simp only [List.append_assoc, unsigned, hfirst, hsecond, hthird, Option.bind_eq_bind,
    Option.bind_some, Option.pure_def]

/-- A number without a sign starts with a digit. -/
theorem IsUnsigned.exists_eq_cons {cs : List Char} (h : IsUnsigned cs) :
    ∃ c rest, cs = c :: rest ∧ c.isDigit = true := by
  obtain ⟨whole, fraction, exponent, hwhole, -, -, -, rfl⟩ := h
  obtain ⟨c, ds, rfl⟩ := List.exists_cons_of_ne_nil hwhole.1
  exact ⟨c, ds ++ (fraction ++ exponent), rfl, hwhole.2 c List.mem_cons_self⟩

/-- A number starts with a digit or the sign. -/
theorem IsNumber.exists_eq_cons {cs : List Char} (h : IsNumber cs) :
    ∃ c rest, cs = c :: rest ∧ (c.isDigit = true ∨ c = '-') := by
  rcases h with h | ⟨digits, -, rfl⟩
  · obtain ⟨c, rest, rfl, hc⟩ := h.exists_eq_cons
    exact ⟨c, rest, rfl, .inl hc⟩
  · exact ⟨'-', digits, rfl, .inr rfl⟩

/-- A character that a number starts with is none that starts something else. -/
theorem ne_of_startsNumber {c d : Char} (hc : c.isDigit = true ∨ c = '-')
    (hd : d.isDigit = false ∧ d ≠ '-') : c ≠ d := by
  rintro rfl
  rcases hc with hc | rfl
  · exact Bool.false_ne_true (hd.1.symm.trans hc)
  · exact hd.2 rfl

theorem isSpace_of_startsNumber {c : Char} (hc : c.isDigit = true ∨ c = '-') :
    isSpace c = false := by
  have hne : ∀ d ∈ [' ', '\n', '\t', '\r'], c ≠ d := by
    intro d hd
    apply ne_of_startsNumber hc
    simp only [List.mem_cons, List.not_mem_nil, or_false] at hd
    rcases hd with rfl | rfl | rfl | rfl <;> decide
  simp only [isSpace, Bool.or_eq_false_iff, beq_eq_false_iff_ne]
  exact ⟨⟨⟨hne ' ' (by simp), hne '\n' (by simp)⟩, hne '\t' (by simp)⟩, hne '\r' (by simp)⟩

/-- A number is read up to where it ends. -/
theorem IsNumber.number_append {cs rest : List Char} (h : IsNumber cs) (hrest : EndsNumber rest) :
    number (cs ++ rest) = some (.number cs, rest) := by
  rcases h with h | ⟨digits, h, rfl⟩
  · have hread := h.unsigned_append hrest
    obtain ⟨c, more, rfl, hc⟩ := h.exists_eq_cons
    rw [List.cons_append] at hread ⊢
    rw [number, hread]
    · rfl
    · rintro more ⟨rfl⟩
      exact absurd hc (by decide)
  · rw [List.cons_append, number, h.unsigned_append hrest]
    rfl

/-! ### Values -/

/-- What is spelled between white space or brackets: a value, the elements of an array or the
members of an object, of which there is at least one. -/
inductive Phrase where
  | value (v : Value)
  | elements (vs : List Value)
  | members (ms : List (Option (List Char) × Value))

/-- The texts of a phrase, without their brackets where it is in brackets.  White space stands
between all parts, and around elements and members. -/
inductive Spells : Phrase → List Char → Prop
  | null : Spells (.value .null) ['n', 'u', 'l', 'l']
  | true : Spells (.value (.bool true)) ['t', 'r', 'u', 'e']
  | false : Spells (.value (.bool false)) ['f', 'a', 'l', 's', 'e']
  | number {cs : List Char} (h : IsNumber cs) : Spells (.value (.number cs)) cs
  | string {text? : Option (List Char)} {cs : List Char} (h : SpellsString cs text?) :
      Spells (.value (.string text?)) cs
  | emptyArray {spaces : List Char} (hspaces : IsSpaces spaces) :
      Spells (.value (.array [])) ('[' :: (spaces ++ [']']))
  | array {vs : List Value} {cs : List Char} (h : Spells (.elements vs) cs) :
      Spells (.value (.array vs)) ('[' :: (cs ++ [']']))
  | emptyObject {spaces : List Char} (hspaces : IsSpaces spaces) :
      Spells (.value (.object [])) ('\x7b' :: (spaces ++ ['\x7d']))
  | object {ms : List (Option (List Char) × Value)} {cs : List Char} (h : Spells (.members ms) cs) :
      Spells (.value (.object ms)) ('\x7b' :: (cs ++ ['\x7d']))
  | element {front back cs : List Char} {v : Value} (hfront : IsSpaces front)
      (hback : IsSpaces back) (h : Spells (.value v) cs) :
      Spells (.elements [v]) (front ++ (cs ++ back))
  | elements {front back cs more : List Char} {v : Value} {vs : List Value}
      (hfront : IsSpaces front) (hback : IsSpaces back) (h : Spells (.value v) cs)
      (hmore : Spells (.elements vs) more) :
      Spells (.elements (v :: vs)) (front ++ (cs ++ (back ++ ',' :: more)))
  | member {front left right back name cs : List Char} {text? : Option (List Char)} {v : Value}
      (hfront : IsSpaces front) (hname : SpellsString name text?) (hleft : IsSpaces left)
      (hright : IsSpaces right) (h : Spells (.value v) cs) (hback : IsSpaces back) :
      Spells (.members [(text?, v)]) (front ++ (name ++ (left ++ ':' :: (right ++ (cs ++ back)))))
  | members {front left right back name cs more : List Char} {text? : Option (List Char)}
      {v : Value} {ms : List (Option (List Char) × Value)} (hfront : IsSpaces front)
      (hname : SpellsString name text?) (hleft : IsSpaces left) (hright : IsSpaces right)
      (h : Spells (.value v) cs) (hback : IsSpaces back) (hmore : Spells (.members ms) more) :
      Spells (.members ((text?, v) :: ms))
        (front ++ (name ++ (left ++ ':' :: (right ++ (cs ++ (back ++ ',' :: more))))))

/-- Whether a text denotes a value: it spells the value, with white space around it. -/
def Denotes (s : String) (v : Value) : Prop :=
  ∃ front cs back, IsSpaces front ∧ IsSpaces back ∧ Spells (.value v) cs ∧
    s.toList = front ++ (cs ++ back)

/-- What the reader does with a phrase: it takes the phrase from the front of a text, if no number
goes on behind a value, and the closing bracket with elements and members. -/
def Phrase.IsRead : Phrase → List Char → Prop
  | .value v, cs => ∀ fuel spaces rest, 2 * cs.length ≤ fuel + 1 → IsSpaces spaces →
      EndsNumber rest → Json.value (fuel + 1) (spaces ++ (cs ++ rest)) = some (v, rest)
  | .elements vs, cs => ∀ fuel rest, 2 * cs.length ≤ fuel →
      Json.elements (fuel + 1) (cs ++ ']' :: rest) = some (vs, rest)
  | .members ms, cs => ∀ fuel rest, 2 * cs.length ≤ fuel →
      memberList (fuel + 1) (cs ++ '\x7d' :: rest) = some (ms, rest)

/-- What a phrase starts with: a value with a character that opens a value, elements with that of
their first one, and members with a quotation mark. -/
def Phrase.StartsWith : Phrase → List Char → Prop
  | .value _, cs => ∃ c more, cs = c :: more ∧ isSpace c = false ∧ c ≠ ']'
  | .elements _, cs => ∃ c, (∀ rest, ∃ more, skipSpace (cs ++ rest) = c :: more) ∧ c ≠ ']'
  | .members _, cs => ∀ rest, ∃ more, skipSpace (cs ++ rest) = '"' :: more

/-- A phrase starts as phrases of its kind do. -/
theorem startsWith_of_spells {phrase : Phrase} {cs : List Char} (h : Spells phrase cs) :
    phrase.StartsWith cs := by
  induction h with
  | null => exact ⟨_, _, rfl, by decide, by decide⟩
  | true => exact ⟨_, _, rfl, by decide, by decide⟩
  | false => exact ⟨_, _, rfl, by decide, by decide⟩
  | number h =>
    obtain ⟨c, more, rfl, hc⟩ := h.exists_eq_cons
    exact ⟨c, more, rfl, isSpace_of_startsNumber hc, ne_of_startsNumber hc (by decide)⟩
  | string h =>
    obtain ⟨body, -, rfl, -⟩ := h
    exact ⟨_, _, rfl, by decide, by decide⟩
  | emptyArray hspaces => exact ⟨_, _, rfl, by decide, by decide⟩
  | array h ih => exact ⟨_, _, rfl, by decide, by decide⟩
  | emptyObject hspaces => exact ⟨_, _, rfl, by decide, by decide⟩
  | object h ih => exact ⟨_, _, rfl, by decide, by decide⟩
  | element hfront hback h ih =>
    obtain ⟨c, more, rfl, hspace, hc⟩ := ih
    refine ⟨c, fun rest => ?_, hc⟩
    rw [List.append_assoc]
    exact ⟨_, skipSpace_append_cons hfront hspace _⟩
  | elements hfront hback h hmore ih ihmore =>
    obtain ⟨c, more, rfl, hspace, hc⟩ := ih
    refine ⟨c, fun rest => ?_, hc⟩
    rw [List.append_assoc]
    exact ⟨_, skipSpace_append_cons hfront hspace _⟩
  | member hfront hname hleft hright h hback ih =>
    obtain ⟨body, -, rfl, -⟩ := hname
    intro rest
    rw [List.append_assoc]
    exact ⟨_, skipSpace_append_cons hfront (by decide) _⟩
  | members hfront hname hleft hright h hback hmore ih ihmore =>
    obtain ⟨body, -, rfl, -⟩ := hname
    intro rest
    rw [List.append_assoc]
    exact ⟨_, skipSpace_append_cons hfront (by decide) _⟩

theorem length_pos_of_spells {v : Value} {cs : List Char} (h : Spells (.value v) cs) :
    0 < cs.length := by
  obtain ⟨c, more, rfl, -⟩ := startsWith_of_spells h
  exact Nat.succ_pos _

/-- Behind white space a number is read where it starts. -/
theorem value_of_startsNumber {c : Char} (hc : c.isDigit = true ∨ c = '-') {spaces : List Char}
    (hspaces : IsSpaces spaces) (fuel : Nat) (rest : List Char) :
    Json.value (fuel + 1) (spaces ++ c :: rest) = number (c :: rest) := by
  rw [Json.value, skipSpace_append_cons hspaces (isSpace_of_startsNumber hc)]
  split
  · rename_i heq
    cases heq
  iterate 6
    rename_i heq
    cases heq
    exact absurd rfl (ne_of_startsNumber hc (by decide))
  · rename_i heq
    cases heq
    rfl

/-- A number ends in front of white space. -/
theorem endsNumber_cons_of_isSpace {c : Char} (hc : isSpace c = true) (rest : List Char) :
    EndsNumber (c :: rest) := by
  rintro d ⟨rfl⟩
  have hspace : c = ' ' ∨ c = '\n' ∨ c = '\t' ∨ c = '\r' := by
    simpa [isSpace, or_assoc] using hc
  rcases hspace with rfl | rfl | rfl | rfl <;> decide

/-- A number ends in front of white space with nothing behind it. -/
theorem IsSpaces.endsNumber {spaces : List Char} (h : IsSpaces spaces) : EndsNumber spaces := by
  cases spaces with
  | nil => exact fun c hc => by cases hc
  | cons c spaces => exact endsNumber_cons_of_isSpace (h c List.mem_cons_self) spaces

/-- A number ends in front of white space with a comma or a closing bracket behind it. -/
theorem IsSpaces.endsNumber_append {spaces : List Char} (h : IsSpaces spaces) {d : Char}
    (hd : d ∈ [',', ']', '\x7d']) (rest : List Char) : EndsNumber (spaces ++ d :: rest) := by
  cases spaces with
  | nil =>
    rintro c ⟨rfl⟩
    simp only [List.mem_cons, List.not_mem_nil, or_false] at hd
    rcases hd with rfl | rfl | rfl <;> decide
  | cons c spaces => exact endsNumber_cons_of_isSpace (h c List.mem_cons_self) _

/-- A value that does not start with white space is read behind white space as it is without. -/
theorem isRead_of_cons {v : Value} {c : Char} {cs : List Char} (hc : isSpace c = false)
    (h : ∀ fuel rest, 2 * (c :: cs).length ≤ fuel + 1 → EndsNumber rest →
      Json.value (fuel + 1) (c :: (cs ++ rest)) = some (v, rest)) :
    (Phrase.value v).IsRead (c :: cs) := by
  intro fuel spaces rest hfuel hspaces hrest
  have hread := h fuel rest hfuel hrest
  rw [Json.value, skipSpace_cons hc] at hread
  rw [Json.value, List.cons_append, skipSpace_append_cons hspaces hc, hread]

/-- A literal is read as a word behind its first letter. -/
theorem isRead_of_word {v : Value} {c : Char} {w : List Char} (hc : isSpace c = false)
    (h : ∀ fuel rest, Json.value (fuel + 1) (c :: rest) = word w v rest) :
    (Phrase.value v).IsRead (c :: w) := by
  refine isRead_of_cons hc fun fuel rest _ _ => ?_
  have hword : w.isPrefixOf (w ++ rest) = true := List.isPrefixOf_iff_prefix.mpr ⟨rest, rfl⟩
  rw [h, word, if_pos hword, List.drop_left]

/-- A number is read up to where it ends. -/
theorem isRead_number {cs : List Char} (h : IsNumber cs) :
    (Phrase.value (.number cs)).IsRead cs := by
  intro fuel spaces rest hfuel hspaces hrest
  have hread := h.number_append hrest
  obtain ⟨c, more, rfl, hc⟩ := h.exists_eq_cons
  rw [List.cons_append] at hread ⊢
  rw [value_of_startsNumber hc hspaces, hread]

/-- A string is read up to its closing quotation mark. -/
theorem isRead_string {text? : Option (List Char)} {cs : List Char} (h : SpellsString cs text?) :
    (Phrase.value (.string text?)).IsRead cs := by
  obtain ⟨body, rfl, hbody⟩ := h.stringBody_eq
  refine isRead_of_cons (by decide) fun fuel rest _ _ => ?_
  rw [Json.value, skipSpace_cons (by decide), List.append_assoc, List.singleton_append]
  simp only [hbody]
  rfl

/-! ### Values in brackets -/

/-- An array without elements is read through the white space in it. -/
theorem isRead_emptyArray {spaces : List Char} (h : IsSpaces spaces) :
    (Phrase.value (.array [])).IsRead ('[' :: (spaces ++ [']'])) := by
  refine isRead_of_cons (by decide) fun fuel rest _ _ => ?_
  have hclose : isSpace ']' = false := by decide
  rw [Json.value, skipSpace_cons (by decide), List.append_assoc, List.singleton_append]
  simp only [skipSpace_append_cons h hclose]

/-- An object without members is read through the white space in it. -/
theorem isRead_emptyObject {spaces : List Char} (h : IsSpaces spaces) :
    (Phrase.value (.object [])).IsRead ('\x7b' :: (spaces ++ ['\x7d'])) := by
  refine isRead_of_cons (by decide) fun fuel rest _ _ => ?_
  have hclose : isSpace '\x7d' = false := by decide
  rw [Json.value, skipSpace_cons (by decide), List.append_assoc, List.singleton_append]
  simp only [skipSpace_append_cons h hclose]

/-- An array is read when its elements are: they do not start with the closing bracket. -/
theorem isRead_array {vs : List Value} {cs : List Char}
    (hstart : (Phrase.elements vs).StartsWith cs) (h : (Phrase.elements vs).IsRead cs) :
    (Phrase.value (.array vs)).IsRead ('[' :: (cs ++ [']'])) := by
  refine isRead_of_cons (by decide) fun fuel rest hfuel _ => ?_
  rw [List.length_cons, List.length_append, List.length_singleton] at hfuel
  obtain ⟨fuel, rfl⟩ := Nat.exists_eq_add_one.mpr (by omega : 0 < fuel)
  have hread := h fuel rest (by omega)
  obtain ⟨c, hskip, hc⟩ := hstart
  obtain ⟨more, hskip⟩ := hskip (']' :: rest)
  rw [Json.value, skipSpace_cons (by decide), List.append_assoc, List.singleton_append]
  simp only [hskip, hread]
  -- the reader looks for the closing bracket first, which is not where an element starts
  split
  · rename_i heq
    cases heq
    exact absurd rfl hc
  · rfl

/-- An object is read when its members are: they start with a quotation mark. -/
theorem isRead_object {ms : List (Option (List Char) × Value)} {cs : List Char}
    (hstart : (Phrase.members ms).StartsWith cs) (h : (Phrase.members ms).IsRead cs) :
    (Phrase.value (.object ms)).IsRead ('\x7b' :: (cs ++ ['\x7d'])) := by
  refine isRead_of_cons (by decide) fun fuel rest hfuel _ => ?_
  rw [List.length_cons, List.length_append, List.length_singleton] at hfuel
  obtain ⟨fuel, rfl⟩ := Nat.exists_eq_add_one.mpr (by omega : 0 < fuel)
  have hread := h fuel rest (by omega)
  obtain ⟨more, hskip⟩ := hstart ('\x7d' :: rest)
  rw [Json.value, skipSpace_cons (by decide), List.append_assoc, List.singleton_append]
  simp only [hskip, hread]
  rfl

/-! ### Elements and members -/

/-- Whether a list in brackets goes on with further items, up to some rest: with its closing bracket
and none, or with a comma and those that are read behind it. -/
def GoesOn {α : Type} (readMore : Reader (List α)) (close : Char) (s : List Char) (items : List α)
    (rest : List Char) : Prop :=
  (s = close :: rest ∧ items = []) ∨ ∃ more, s = ',' :: more ∧ readMore more = some (items, rest)

/-- A value in brackets is read up to the comma or the bracket behind it. -/
theorem exists_value_of_spells {v : Value} {cs : List Char} (h : Spells (.value v) cs)
    (hread : (Phrase.value v).IsRead cs) {front back : List Char} (hfront : IsSpaces front)
    (hback : IsSpaces back) {d : Char} (hd : d ∈ [',', ']', '\x7d'])
    (fuel : Nat) (hfuel : 2 * cs.length ≤ fuel) (rest : List Char) :
    ∃ behind, Json.value fuel (front ++ (cs ++ (back ++ d :: rest))) = some (v, behind) ∧
      skipSpace behind = d :: rest := by
  have hpos := length_pos_of_spells h
  obtain ⟨fuel, rfl⟩ := Nat.exists_eq_add_one.mpr (by omega : 0 < fuel)
  have hspace : isSpace d = false := by
    simp only [List.mem_cons, List.not_mem_nil, or_false] at hd
    rcases hd with rfl | rfl | rfl <;> decide
  exact ⟨_, hread fuel front _ hfuel hfront (hback.endsNumber_append hd rest),
    skipSpace_append_cons hback hspace rest⟩

/-- An element is read together with the elements that the array goes on with. -/
theorem elements_of_goesOn {fuel : Nat} {s behind rest : List Char} {v : Value} {vs : List Value}
    (hvalue : Json.value fuel s = some (v, behind))
    (hmore : GoesOn (Json.elements fuel) ']' (skipSpace behind) vs rest) :
    Json.elements (fuel + 1) s = some (v :: vs, rest) := by
  rw [Json.elements]
  simp only [hvalue]
  rcases hmore with ⟨hskip, rfl⟩ | ⟨more, hskip, hread⟩
  · simp only [hskip]
  · simp only [hskip, hread]
    rfl

/-- A member is read together with the members that the object goes on with. -/
theorem memberList_of_goesOn {front name left s behind rest : List Char}
    {text? : Option (List Char)} {v : Value} {ms : List (Option (List Char) × Value)} {fuel : Nat}
    (hfront : IsSpaces front) (hname : SpellsString name text?) (hleft : IsSpaces left)
    (hvalue : Json.value fuel s = some (v, behind))
    (hmore : GoesOn (memberList fuel) '\x7d' (skipSpace behind) ms rest) :
    memberList (fuel + 1) (front ++ (name ++ (left ++ ':' :: s))) =
      some ((text?, v) :: ms, rest) := by
  have hquote : isSpace '"' = false := by decide
  have hcolon : isSpace ':' = false := by decide
  obtain ⟨body, rfl, hbody⟩ := hname.stringBody_eq
  simp only [List.append_assoc, List.cons_append, List.nil_append]
  rw [memberList, skipSpace_append_cons hfront hquote]
  simp only [hbody, skipSpace_append_cons hleft hcolon, hvalue]
  rcases hmore with ⟨hskip, rfl⟩ | ⟨more, hskip, hread⟩
  · simp only [hskip]
  · simp only [hskip, hread]
    rfl

/-- What is spelled is read. -/
theorem isRead_of_spells {phrase : Phrase} {cs : List Char} (h : Spells phrase cs) :
    phrase.IsRead cs := by
  induction h with
  | null => exact isRead_of_word (by decide) fun _ _ => rfl
  | true => exact isRead_of_word (by decide) fun _ _ => rfl
  | false => exact isRead_of_word (by decide) fun _ _ => rfl
  | number h => exact isRead_number h
  | string h => exact isRead_string h
  | emptyArray hspaces => exact isRead_emptyArray hspaces
  | array h ih => exact isRead_array (startsWith_of_spells h) ih
  | emptyObject hspaces => exact isRead_emptyObject hspaces
  | object h ih => exact isRead_object (startsWith_of_spells h) ih
  | element hfront hback h ih =>
    intro fuel rest hfuel
    simp only [List.length_append] at hfuel
    obtain ⟨behind, hvalue, hskip⟩ :=
      exists_value_of_spells h ih hfront hback (d := ']') (by simp) fuel (by omega) rest
    simp only [List.append_assoc]
    exact elements_of_goesOn hvalue (.inl ⟨hskip, rfl⟩)
  | @elements front back cs more v vs hfront hback h hmore ih ihmore =>
    intro fuel rest hfuel
    simp only [List.length_append, List.length_cons] at hfuel
    obtain ⟨behind, hvalue, hskip⟩ := exists_value_of_spells h ih hfront hback
      (d := ',') (by simp) fuel (by omega) (more ++ ']' :: rest)
    obtain ⟨fuel, rfl⟩ := Nat.exists_eq_add_one.mpr (by omega : 0 < fuel)
    simp only [List.append_assoc, List.cons_append]
    exact elements_of_goesOn hvalue (.inr ⟨_, hskip, ihmore fuel rest (by omega)⟩)
  | member hfront hname hleft hright h hback ih =>
    intro fuel rest hfuel
    simp only [List.length_append, List.length_cons] at hfuel
    obtain ⟨behind, hvalue, hskip⟩ :=
      exists_value_of_spells h ih hright hback (d := '\x7d') (by simp) fuel (by omega) rest
    simp only [List.append_assoc, List.cons_append]
    exact memberList_of_goesOn hfront hname hleft hvalue (.inl ⟨hskip, rfl⟩)
  | @members front left right back name cs more text? v ms hfront hname hleft hright h hback hmore
      ih ihmore =>
    intro fuel rest hfuel
    simp only [List.length_append, List.length_cons] at hfuel
    obtain ⟨behind, hvalue, hskip⟩ := exists_value_of_spells h ih hright hback
      (d := ',') (by simp) fuel (by omega) (more ++ '\x7d' :: rest)
    obtain ⟨fuel, rfl⟩ := Nat.exists_eq_add_one.mpr (by omega : 0 < fuel)
    simp only [List.append_assoc, List.cons_append]
    exact memberList_of_goesOn hfront hname hleft hvalue
      (.inr ⟨_, hskip, ihmore fuel rest (by omega)⟩)

/-- A text that denotes a value is read as this value. -/
theorem parse_of_denotes {s : String} {v : Value} (h : Denotes s v) : parse s = .ok v := by
  obtain ⟨front, cs, back, hfront, hback, hspells, hs⟩ := h
  have hfuel : 2 * cs.length ≤ 2 * s.toList.length + 1 + 1 := by
    rw [hs, List.length_append, List.length_append]
    omega
  have hread := isRead_of_spells hspells (2 * s.toList.length + 1) front back hfuel hfront
    hback.endsNumber
  have hskip : skipSpace back = [] := by
    rw [← List.append_nil back, skipSpace_append hback]
    rfl
  rw [← hs] at hread
  simp only [parse, hread, hskip, List.isEmpty_nil, if_true]

end KeySmith.Json

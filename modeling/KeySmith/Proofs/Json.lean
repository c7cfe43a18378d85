import Mathlib.Data.List.Nodup
import KeySmith.Json.Printer
import KeySmith.Proofs.Json.Grammar
import KeySmith.Proofs.Outcome

/-!
# Reading written JSON back

Every object that is written denotes an object with the texts and numbers of its members, on one
line or on several, so it is read back as this object.  A character of a string is written as one
piece, which stands for it again.
-/

namespace KeySmith.Json

/-! ### Strings -/

/-- A digit to base 16 has its value. -/
theorem hexValue?_hexDigit {n : Nat} (h : n < 16) : hexValue? (hexDigit n) = some n := by
  have hall : ∀ d : Fin 16, hexValue? (hexDigit d) = some d.val := by decide
  exact hall ⟨n, h⟩

/-- A written character is spelled by one piece, which stands for it. -/
theorem exists_spellsPieces_escapeChar (c : Char) :
    ∃ p : Piece, (∀ cs ps, SpellsPieces cs ps → SpellsPieces (escapeChar c ++ cs) (p :: ps)) ∧
      ∀ ps cs, SpellsText ps cs → SpellsText (p :: ps) (c :: cs) := by
  unfold escapeChar
  split
  iterate 7
    exact ⟨.char _, fun cs ps h => .escape rfl h, fun ps cs h => .char _ h⟩
  rename_i hquote hslash _ _ _ _ _
  split
  · rename_i hcontrol
    have hzero : hexValue? '0' = some 0 := by decide
    have hhigh : hexValue? (hexDigit (c.toNat / 16)) = some (c.toNat / 16) :=
      hexValue?_hexDigit (by omega)
    have hlow : hexValue? (hexDigit (c.toNat % 16)) = some (c.toNat % 16) :=
      hexValue?_hexDigit (by omega)
    have hnumber : ((0 * 16 + 0) * 16 + c.toNat / 16) * 16 + c.toNat % 16 = c.toNat := by omega
    refine ⟨.unit c.toNat, fun cs ps h => ?_, fun ps cs h => .unit (by omega) h⟩
    have hunit := SpellsPieces.unit hzero hzero hhigh hlow h
    rwa [hnumber] at hunit
  · rename_i hcontrol
    exact ⟨.char c, fun cs ps h => .plain (Nat.not_lt.mp hcontrol) hquote hslash h,
      fun ps cs h => .char c h⟩

/-- A written string spells its text. -/
theorem spellsString_quoteChars (cs : List Char) : SpellsString (quoteChars cs) (some cs) := by
  obtain ⟨ps, hpieces, htext⟩ :
      ∃ ps, SpellsPieces (cs.flatMap escapeChar) ps ∧ SpellsText ps cs := by
    induction cs with
    | nil => exact ⟨[], .nil, .nil⟩
    | cons c cs ih =>
      obtain ⟨ps, hpieces, htext⟩ := ih
      obtain ⟨p, hpiece, hchar⟩ := exists_spellsPieces_escapeChar c
      exact ⟨p :: ps, hpiece _ ps hpieces, hchar ps cs htext⟩
  exact spellsString_of_text hpieces htext

/-! ### Numbers -/

/-- The digits of a number start with zero only for zero. -/
theorem head?_toDigits {n : Nat} (h : n ≠ 0) : (Nat.toDigits 10 n).head? ≠ some '0' := by
  induction n using Nat.strongRecOn with
  | _ n ih =>
    by_cases hn : n < 10
    · have hall : ∀ d : Fin 10, d.val ≠ 0 → Nat.digitChar d.val ≠ '0' := by decide
      rw [Nat.toDigits_of_lt_base hn]
      simpa using hall ⟨n, hn⟩ h
    · have hdiv : n / 10 ≠ 0 := by omega
      have hhead := ih (n / 10) (by omega) hdiv
      have hne : Nat.toDigits 10 (n / 10) ≠ [] := Nat.toDigits_ne_nil
      obtain ⟨c, cs, hchars⟩ := List.exists_cons_of_ne_nil hne
      rw [Nat.toDigits_of_base_le (by omega) (Nat.not_lt.mp hn), hchars]
      rwa [hchars] at hhead

/-- The digits of a number are a number. -/
theorem isNumber_toDigits (n : Nat) : IsNumber (Nat.toDigits 10 n) := by
  have hdigits : AreDigits (Nat.toDigits 10 n) :=
    ⟨Nat.toDigits_ne_nil, fun c hc => Nat.isDigit_of_mem_toDigits (by omega) (by omega) hc⟩
  refine .inl ⟨Nat.toDigits 10 n, [], [], hdigits, fun hhead => ?_, .inl rfl, .inl rfl, ?_⟩
  · by_cases hn : n = 0
    · rw [hn, Nat.toDigits_zero]
    · exact absurd hhead (head?_toDigits hn)
  · rw [List.append_nil, List.append_nil]

/-! ### Objects -/

/-- The value of a scalar. -/
def Scalar.value : Scalar → Value
  | .text s => .string (some s.toList)
  | .natural n => .number (Nat.toDigits 10 n)

/-- A written scalar spells its value. -/
theorem spells_chars (v : Scalar) : Spells (.value v.value) v.chars := by
  cases v with
  | text s => exact .string (spellsString_quoteChars s.toList)
  | natural n => exact .number (isNumber_toDigits n)

/-- The characters of a member. -/
def memberChars (colon : List Char) (m : String × Scalar) : List Char :=
  quoteChars m.1.toList ++ colon ++ m.2.chars

/-- A member as it is read. -/
def memberValue (m : String × Scalar) : Option (List Char) × Value :=
  (some m.1.toList, m.2.value)

section Spaces

variable {inner colon closing : List Char} (hinner : IsSpaces inner) (hcolon : IsSpaces colon)
  (hclosing : IsSpaces closing)

include hinner hcolon hclosing in
/-- Written members spell the members of an object. -/
theorem spells_intercalate {ms : List (String × Scalar)} (hne : ms ≠ []) {front : List Char}
    (hfront : IsSpaces front) :
    Spells (.members (ms.map memberValue)) (front ++ (List.intercalate (',' :: inner)
      (ms.map (memberChars (':' :: colon))) ++ closing)) := by
  induction ms generalizing front with
  | nil => exact absurd rfl hne
  | cons m ms ih =>
    have hname := spellsString_quoteChars m.1.toList
    have hvalue := spells_chars m.2
    cases ms with
    | nil =>
      have hmember := Spells.member hfront hname isSpaces_nil hcolon hvalue hclosing
      simpa [List.intercalate, memberChars, memberValue] using hmember
    | cons m' ms =>
      have hmore := ih (List.cons_ne_nil m' ms) hinner
      have hmembers := Spells.members hfront hname isSpaces_nil hcolon hvalue isSpaces_nil hmore
      simpa [List.intercalate, memberChars, memberValue] using hmembers

include hinner hcolon hclosing in
/-- A written object spells an object, whatever white space stands between its parts. -/
theorem spells_objectChars {opening : List Char} (hopening : IsSpaces opening)
    (ms : List (String × Scalar)) :
    Spells (.value (.object (ms.map memberValue))) (objectChars ('\x7b' :: opening) (',' :: inner)
      (closing ++ ['\x7d']) (':' :: colon) ms) := by
  have hchars : objectChars ('\x7b' :: opening) (',' :: inner) (closing ++ ['\x7d'])
      (':' :: colon) ms = '\x7b' :: ((opening ++ (List.intercalate (',' :: inner)
        (ms.map (memberChars (':' :: colon))) ++ closing)) ++ ['\x7d']) := by
    change '\x7b' :: opening ++ List.intercalate (',' :: inner)
      (ms.map (memberChars (':' :: colon))) ++ (closing ++ ['\x7d']) = _
    simp only [List.cons_append, List.append_assoc]
  rw [hchars]
  cases ms with
  | nil => exact .emptyObject (List.forall_mem_append.mpr ⟨hopening, hclosing⟩)
  | cons m ms =>
    exact .object (spells_intercalate hinner hcolon hclosing (List.cons_ne_nil m ms) hopening)

end Spaces

/-- An object with a line for each member denotes itself. -/
theorem denotes_pretty (ms : List (String × Scalar)) :
    Denotes (pretty ms) (.object (ms.map memberValue)) := by
  have hindent : IsSpaces ['\n', ' ', ' '] := by simp [IsSpaces, isSpace]
  have hspace : IsSpaces [' '] := by simp [IsSpaces, isSpace]
  have hfeed : IsSpaces ['\n'] := by simp [IsSpaces, isSpace]
  refine ⟨[], _, [], isSpaces_nil, isSpaces_nil,
    spells_objectChars hindent hspace hfeed hindent ms, ?_⟩
  rw [pretty, String.toList_ofList, List.nil_append, List.append_nil]
  rfl

/-- Written members have texts for their names. -/
theorem name_ne_none_of_mem {ms : List (String × Scalar)} {m : Option (List Char) × Value}
    (h : m ∈ ms.map memberValue) : m.1 ≠ none := by
  obtain ⟨_, -, rfl⟩ := List.mem_map.mp h
  exact Option.some_ne_none _

/-- No name stands twice in the text of members with different names. -/
theorem count_name_le_one {ms : List (String × Scalar)} (h : (ms.map Prod.fst).Nodup)
    (name : String) : ((ms.map memberValue).map Prod.fst).count (some name.toList) ≤ 1 := by
  have hinjective : Function.Injective fun name : String => some name.toList :=
    fun _ _ heq => String.toList_inj.mp (Option.some.inj heq)
  have hnames : (ms.map memberValue).map Prod.fst =
      (ms.map Prod.fst).map fun name => some name.toList := by
    rw [List.map_map, List.map_map]
    rfl
  rw [hnames]
  exact List.nodup_iff_count_le_one.mp (h.map hinjective) _

/-- Members that all have a text for a name, where no known name stands twice, are collected, and
the value behind a known name is the one of the member with this name. -/
theorem exists_collect {names : List String} {ms : List (Option (List Char) × Value)}
    (hnamed : ∀ m ∈ ms, m.1 ≠ none)
    (honce : ∀ name ∈ names, (ms.map Prod.fst).count (some name.toList) ≤ 1) :
    ∃ known, collect names ms = .ok known ∧
      ∀ name ∈ names, ∀ v, lookup? name known = some v ↔ (some name.toList, v) ∈ ms := by
  induction ms with
  | nil => exact ⟨[], rfl, fun name _ v => by simp [lookup?]⟩
  | cons m ms ih =>
    obtain ⟨name?, v⟩ := m
    obtain ⟨hsome, hrest⟩ := List.forall_mem_cons.mp hnamed
    obtain ⟨cs, rfl⟩ := Option.ne_none_iff_exists'.mp hsome
    have hcount : ∀ name ∈ names, (ms.map Prod.fst).count (some name.toList) ≤ 1 :=
      fun name h => Nat.le_trans List.count_le_count_cons (honce name h)
    obtain ⟨known, hknown, hlookup⟩ := ih hrest hcount
    by_cases hmem : String.ofList cs ∈ names
    · have hnew : ∀ w, (some cs, w) ∉ ms := by
        intro w hw
        have hpos : 0 < (ms.map Prod.fst).count (some cs) :=
          List.count_pos_iff.mpr (List.mem_map_of_mem hw)
        have htwice := honce _ hmem
        rw [String.toList_ofList, List.map_cons, List.count_cons_self] at htwice
        omega
      have hnone : lookup? (String.ofList cs) known = none := by
        rw [Option.eq_none_iff_forall_ne_some]
        intro w hw
        rw [hlookup _ hmem, String.toList_ofList] at hw
        exact hnew w hw
      have hany : known.any (·.1 == String.ofList cs) = false := by
        rw [lookup?, Option.map_eq_none_iff, List.find?_eq_none] at hnone
        rw [List.any_eq_false]
        exact hnone
      refine ⟨(String.ofList cs, v) :: known, ?_, fun name hname w => ?_⟩
      · simp only [collect, hknown, ok_bind, if_pos (List.contains_iff_mem.mpr hmem), hany]
        rfl
      · by_cases heq : String.ofList cs = name
        · subst heq
          rw [lookup?, List.find?_cons_of_pos (by simp), Option.map_some, String.toList_ofList]
          simp [hnew, eq_comm]
        · have hne : cs ≠ name.toList := by
            rintro rfl
            exact heq String.ofList_toList
          rw [lookup?, List.find?_cons_of_neg (by simpa using heq), ← lookup?, hlookup name hname]
          simp [hne.symm]
    · refine ⟨known, ?_, fun name hname w => ?_⟩
      · simp only [collect, hknown, ok_bind, if_neg (mt List.contains_iff_mem.mp hmem)]
        rfl
      · have hne : cs ≠ name.toList := by
          rintro rfl
          exact hmem (String.ofList_toList ▸ hname)
        rw [hlookup name hname]
        simp [hne.symm]

end KeySmith.Json

import KeySmith.Command.Run
import KeySmith.Proofs.BigEndian
import KeySmith.Proofs.FileSystem
import KeySmith.Proofs.Json
import KeySmith.Proofs.Text

/-!
# Settings and their files

A file of settings is a JSON object that may give any of them, in any order and among other members.
`Describes` says which settings such an object stands for, and `Json.Denotes` which object a text
is, so what is loaded from a file is told without the reader: the settings that the object
describes, if they are valid (`decodeText_of_denotes`).  What is written describes the settings that
it was written for, so they are loaded again.
-/

namespace KeySmith

namespace Settings

variable {s t : Settings}

/-! ### Valid settings -/

theorem validate_eq_ok_iff : s.validate = .ok t ↔ isRsaSize s.rsaBits = true ∧ t = s := by
  unfold validate
  split <;> simp [*, eq_comm]

theorem validate_eq_error_iff {e : Error} :
    s.validate = .error e ↔
      isRsaSize s.rsaBits = false ∧ e = .malformed (.settingsBits s.rsaBits) := by
  unfold validate
  split <;> simp [*, eq_comm]

/-- Settings that pass the validation are valid themselves. -/
theorem validate_of_validate_eq_ok (h : s.validate = .ok t) : t.validate = .ok t := by
  obtain ⟨hsize, rfl⟩ := validate_eq_ok_iff.mp h
  exact h

/-- The settings that hold without a file are valid. -/
theorem validate_default : ({} : Settings).validate = .ok {} :=
  validate_eq_ok_iff.mpr ⟨by decide, rfl⟩

/-! ### What an object describes -/

/-- Whether a value gives a size: its decimal digits, for a size of 64 bits. -/
def GivesBits (v : Json.Value) (n : Nat) : Prop :=
  v = .number (Nat.toDigits 10 n) ∧ n < 2 ^ 64

/-- Whether a value gives a curve: its name, or an object with the name for its member and nothing
for the value. -/
def GivesCurve (v : Json.Value) (c : Curve) : Prop :=
  v = .string (some c.name.toList) ∨ v = .object [(some c.name.toList, .null)]

/-- Whether a value gives a text. -/
def GivesText (v : Json.Value) (text : String) : Prop :=
  v = .string (some text.toList)

/-- The members of an object in a text. -/
abbrev Members : Type :=
  List (Option (List Char) × Json.Value)

/-- Whether the members of an object give a setting: one with its name does, or there is none with
its name and the setting is the default. -/
def Gives {α : Type} (ms : Members) (name : String) (gives : Json.Value → α → Prop)
    (default a : α) : Prop :=
  (∃ v, (some name.toList, v) ∈ ms ∧ gives v a) ∨
    ((∀ v, (some name.toList, v) ∉ ms) ∧ a = default)

/-- Whether the members of an object describe settings.  Names are texts, no setting is named twice,
and other members may be anything. -/
structure Describes (ms : Members) (s : Settings) : Prop where
  named : ∀ m ∈ ms, m.1 ≠ none
  once : ∀ name ∈ names, (ms.map Prod.fst).count (some name.toList) ≤ 1
  rsaBits : Gives ms "rsa_bits" GivesBits 2048 s.rsaBits
  curve : Gives ms "ecdsa_curve" GivesCurve .p256 s.curve
  comment : Gives ms "comment" GivesText "" s.comment
  logFilter : Gives ms "log_filter" GivesText "warn" s.logFilter

/-! ### Reading -/

theorem bitsOf?_of_gives {v : Json.Value} {n : Nat} (h : GivesBits v n) : bitsOf? v = some n := by
  obtain ⟨rfl, hn⟩ := h
  have hdigits : (Nat.toDigits 10 n).all Char.isDigit = true := by
    rw [List.all_eq_true]
    exact fun c hc => Nat.isDigit_of_mem_toDigits (by omega) (by omega) hc
  have hvalue : Json.Value.digitsValue (Nat.toDigits 10 n) = n := Nat.ofDigitChars_ten_toDigits
  have hbound : n < sizeBound := by rwa [sizeBound, twoTo_eq]
  rw [bitsOf?, Json.Value.natural?, if_pos hdigits, hvalue, Option.filter_some_pos]
  exact decide_eq_true hbound

theorem curveOfName?_name (c : Curve) : curveOfName? c.name = some c := by
  cases c <;> decide

theorem curveOf?_of_gives {v : Json.Value} {c : Curve} (h : GivesCurve v c) :
    curveOf? v = some c := by
  rcases h with rfl | rfl
  · rw [curveOf?, Json.Value.text?, Option.bind_some, String.ofList_toList, curveOfName?_name]
    rintro name ⟨⟩
  · rw [curveOf?, String.ofList_toList, curveOfName?_name]

theorem text?_of_gives {v : Json.Value} {text : String} (h : GivesText v text) :
    v.text? = some text := by
  rw [h, Json.Value.text?, String.ofList_toList]

/-- A setting that an object gives is read from the members with known names. -/
theorem optional_of_gives {α : Type} {ms : Members} {known : List (String × Json.Value)}
    {name : String} (hlookup : ∀ v, Json.lookup? name known = some v ↔ (some name.toList, v) ∈ ms)
    {gives : Json.Value → α → Prop} {default a : α} (h : Gives ms name gives default a)
    {read? : Json.Value → Option α} (hread : ∀ v, gives v a → read? v = some a) :
    optional known name read? default = .ok a := by
  rcases h with ⟨v, hmem, hv⟩ | ⟨habsent, rfl⟩
  · simp only [optional, (hlookup v).mpr hmem, hread v hv]
  · have hnone : Json.lookup? name known = none := by
      rw [Option.eq_none_iff_forall_ne_some]
      exact fun v hv => habsent v ((hlookup v).mp hv)
    simp only [optional, hnone]

/-- The settings that the members of an object describe are read from it. -/
theorem ofValue_of_describes {ms : Members} (h : Describes ms s) :
    ofValue (.object ms) = .ok s := by
  obtain ⟨known, hknown, hlookup⟩ := Json.exists_collect h.named h.once
  have hbits := optional_of_gives (hlookup "rsa_bits" (by simp [names])) h.rsaBits
    fun _ => bitsOf?_of_gives
  have hcurve := optional_of_gives (hlookup "ecdsa_curve" (by simp [names])) h.curve
    fun _ => curveOf?_of_gives
  have hcomment := optional_of_gives (hlookup "comment" (by simp [names])) h.comment
    fun _ => text?_of_gives
  have hfilter := optional_of_gives (hlookup "log_filter" (by simp [names])) h.logFilter
    fun _ => text?_of_gives
  simp only [ofValue, Json.members, hknown, ok_bind, hbits, hcurve, hcomment, hfilter]
  rfl

/-- What is read from a text of an object is what the object describes, if it is valid. -/
theorem decodeText_of_denotes {text : String} {ms : Members}
    (htext : Json.Denotes text (.object ms)) (h : Describes ms s) :
    decodeText text = s.validate := by
  rw [decodeText, Json.parse_of_denotes htext, ok_bind, ofValue_of_describes h, Result.of_ok,
    ok_bind]

/-- Settings that are loaded are valid, from whatever file, and without one. -/
theorem validate_of_load {files : FileSystem} {path? : Option String}
    (h : load files path? = .ok s) : s.validate = .ok s := by
  cases path? with
  | none =>
    cases h
    exact validate_default
  | some path =>
    simp only [load, decode, decodeText, bind_eq_ok_iff] at h
    obtain ⟨content, -, text, -, found, -, hvalid⟩ := h
    exact validate_of_validate_eq_ok hvalid

/-- From a file with a text of an object the settings are loaded that the object describes, if they
are valid. -/
theorem load_of_holds {files : FileSystem} {path text : String} {ms : Members}
    (hfile : files.Holds (.ofString path) (Text.toBytes text))
    (htext : Json.Denotes text (.object ms)) (h : Describes ms s) :
    load files (some path) = s.validate := by
  rw [load, hfile.read, ok_bind, decode, Text.ofBytes?_toBytes, Result.ofOption_some, ok_bind,
    decodeText_of_denotes htext h]

/-! ### Writing -/

/-- The members of the object that is written. -/
def writtenMembers (s : Settings) : List (String × Json.Scalar) :=
  [("rsa_bits", .natural s.rsaBits), ("ecdsa_curve", .text s.curve.name),
    ("comment", .text s.comment), ("log_filter", .text s.logFilter)]

theorem text_eq (s : Settings) : s.text = Json.pretty s.writtenMembers :=
  rfl

/-- A member that is written gives the setting with its name. -/
theorem gives_of_mem {α : Type} {name : String} (v : Json.Scalar)
    (hmem : (name, v) ∈ s.writtenMembers) {gives : Json.Value → α → Prop} {default a : α}
    (h : gives v.value a) : Gives (s.writtenMembers.map Json.memberValue) name gives default a :=
  .inl ⟨v.value, List.mem_map_of_mem hmem, h⟩

/-- The written object describes the settings that it was written for. -/
theorem describes_writtenMembers (hsize : s.rsaBits < 2 ^ 64) :
    Describes (s.writtenMembers.map Json.memberValue) s where
  named := fun _ => Json.name_ne_none_of_mem
  once := by
    have hnodup : (s.writtenMembers.map Prod.fst).Nodup := by
      have hnames : s.writtenMembers.map Prod.fst = names := rfl
      rw [hnames]
      decide
    exact fun name _ => Json.count_name_le_one hnodup name
  rsaBits := gives_of_mem (.natural s.rsaBits) (by simp [writtenMembers]) ⟨rfl, hsize⟩
  curve := gives_of_mem (.text s.curve.name) (by simp [writtenMembers]) (.inl rfl)
  comment := gives_of_mem (.text s.comment) (by simp [writtenMembers]) rfl
  logFilter := gives_of_mem (.text s.logFilter) (by simp [writtenMembers]) rfl

/-- Valid settings are written to the file, as far as it can be written. -/
theorem write_put {files : FileSystem} {path : String} (h : s.validate = .ok s) :
    FileSystem.Write files path Program.openMode (Text.toBytes s.text) (s.put files path) := by
  have hencode : s.encode = .ok s.text := by
    rw [encode, h]
    rfl
  simp only [put, hencode]
  exact FileSystem.write_put files path _ _

/-- Settings that are not valid are not written. -/
theorem put_of_validate_eq_error {files : FileSystem} {path : String} {e : Error}
    (h : s.validate = .error e) : s.put files path = (.error e, files) := by
  have hencode : s.encode = .error e := by
    rw [encode, h]
    rfl
  simp only [put, hencode]

/-- Settings go through their file.  Valid ones are written and loaded again; an error of writing
them is one of the file, and there is none where the file can be opened and written to its end.  Of
other settings nothing is written and the file stays as it was.  From a file with any text of a JSON
object the settings are loaded that the object describes, if they are valid: the settings that it
gives, and the defaults for the others.  Whatever is loaded is valid. -/
theorem load_put {s : Settings} (hsize : s.rsaBits < 2 ^ 64) (files : FileSystem) (path : String) :
    (s.validate = .ok s →
      (∀ after, s.put files path = (.ok (), after) → load after (some path) = .ok s) ∧
      (∀ e after, s.put files path = (.error e, after) → ∃ fault, e = .file fault) ∧
      ∀ mode, files.openFor path Program.openMode = .ok mode →
        files.break? (.ofString path) = none → ∃ after, s.put files path = (.ok (), after)) ∧
    (∀ e, s.validate = .error e → s.put files path = (.error e, files)) ∧
    (∀ text ms, Json.Denotes text (.object ms) → Describes ms s →
      files.Holds (.ofString path) (Text.toBytes text) → load files (some path) = s.validate) ∧
    ∀ path? t, load files path? = .ok t → t.validate = .ok t := by
  refine ⟨fun hvalid => ⟨?_, ?_, ?_⟩, fun e => put_of_validate_eq_error,
    fun text ms htext h hfile => load_of_holds hfile htext h, fun path? t => validate_of_load⟩
  · intro after hput
    have hwrite : FileSystem.Write files path _ _ (s.put files path) := write_put hvalid
    rw [hput, text_eq] at hwrite
    rw [load_of_holds hwrite.holds_of_ok (Json.denotes_pretty _) (describes_writtenMembers hsize),
      hvalid]
  · intro e after hput
    have hwrite : FileSystem.Write files path _ _ (s.put files path) := write_put hvalid
    rw [hput] at hwrite
    exact hwrite.of_error.1
  · intro mode hopen hbreak
    exact (write_put hvalid).exists_ok hopen hbreak

/-- The members of an object that gives a comment only, in front of it a member without a meaning.
-/
def partialMembers : Members :=
  [(some ['x'], .array [.null]), (some "comment".toList, .string (some ['ä']))]

/-- A text of this object, with the comment in an escape. -/
def partialText : String :=
  "\x7b\"x\":[null],\"comment\": \"\\u00e4\"\x7d"

theorem denotes_partialText : Json.Denotes partialText (.object partialMembers) := by
  have hname : Json.SpellsString (Json.quoteChars ['x']) (some ['x']) :=
    Json.spellsString_quoteChars ['x']
  have hcomment := Json.spellsString_quoteChars "comment".toList
  have hpieces : Json.SpellsPieces ['\\', 'u', '0', '0', 'e', '4'] [.unit 'ä'.toNat] :=
    @Json.SpellsPieces.unit '0' '0' 'e' '4' 0 0 14 4 rfl rfl rfl rfl [] [] .nil
  have hescape := Json.spellsString_of_text hpieces (.unit (by decide) .nil)
  have hspace : Json.IsSpaces [' '] := by simp [Json.IsSpaces, Json.isSpace]
  have hnone := Json.isSpaces_nil
  refine ⟨[], _, [], hnone, hnone, .object (.members hnone hname hnone hnone
    (.array (.element hnone hnone .null)) hnone
    (.member hnone hcomment hnone hspace (.string hescape) hnone)), ?_⟩
  rfl

theorem describes_partialMembers : Describes partialMembers { comment := "ä" } := by
  have habsent : ∀ name : String, some name.toList ∉ partialMembers.map Prod.fst →
      ∀ v, (some name.toList, v) ∉ partialMembers :=
    fun name h v hv => h (List.mem_map_of_mem hv)
  have hnodup : (partialMembers.map Prod.fst).Nodup := by decide
  exact {
    named := by simp [partialMembers]
    once := fun name _ => List.nodup_iff_count_le_one.mp hnodup _
    rsaBits := .inr ⟨habsent _ (by decide), rfl⟩
    curve := .inr ⟨habsent _ (by decide), rfl⟩
    comment := .inl ⟨_, List.mem_cons_of_mem _ (List.mem_singleton_self _), rfl⟩
    logFilter := .inr ⟨habsent _ (by decide), rfl⟩ }

/-- Settings with a comment that has to be escaped go through their file, and those with a size that
is too small are not written.  From a text with nothing but a comment and a member without a meaning
the settings with this comment are loaded. -/
theorem load_put_escaped :
    (∃ after,
      ({ rsaBits := 3072, comment := "\"ключ\"\n" } : Settings).put .empty "s" = (.ok (), after) ∧
      load after (some "s") = .ok { rsaBits := 3072, comment := "\"ключ\"\n" }) ∧
    ({ rsaBits := 512 } : Settings).put .empty "s" =
      (.error (.malformed (.settingsBits 512)), .empty) ∧
    load ⟨[(["s"], .file (Text.toBytes partialText) 0)], [], []⟩ (some "s") =
      .ok { comment := "ä" } := by
  refine ⟨?_, ?_, ?_⟩
  · have hvalid : ({ rsaBits := 3072, comment := "\"ключ\"\n" } : Settings).validate =
        .ok { rsaBits := 3072, comment := "\"ключ\"\n" } := validate_eq_ok_iff.mpr ⟨by decide, rfl⟩
    obtain ⟨hload, -, hput⟩ := (load_put (by decide) .empty "s").1 hvalid
    obtain ⟨after, hafter⟩ := hput 0o644 (by decide) (by decide)
    exact ⟨after, hafter, hload after hafter⟩
  · have herror : ({ rsaBits := 512 } : Settings).validate =
        .error (.malformed (.settingsBits 512)) := validate_eq_error_iff.mpr ⟨by decide, rfl⟩
    exact (load_put (by decide) .empty "s").2.1 _ herror
  · have hfile : FileSystem.Holds ⟨[(["s"], .file (Text.toBytes partialText) 0)], [], []⟩
        (.ofString "s") (Text.toBytes partialText) := ⟨0, rfl⟩
    exact (load_put (by decide) _ "s").2.2.1 _ _ denotes_partialText describes_partialMembers hfile

end Settings

end KeySmith

import KeySmith.Command.Message
import KeySmith.Proofs.Command.PairFiles
import KeySmith.Proofs.Hex

/-!
# Making shared keys

A new shared key has as many octets as whole ones fit the size that is asked for, and only this
number is checked.  A run that succeeds thus leaves a file that is read as a key of a multiple of
eight bits (`SharedKey.bits_eq_iff`), which may be fewer bits than were asked for.  A size that is
refused is refused before anything is written.
-/

namespace KeySmith

/-! ### Keys and their files -/

namespace SharedKey

theorem isBlank_break : Text.isBlank '\n' = true := by
  decide

/-- The digits in a key file are what is left when it is trimmed. -/
theorem trim_encodeFile (k : SharedKey) :
    Text.trim k.encodeFile.toList = Hex.encodeChars k.bytes := by
  have hdigits : ∀ c ∈ Hex.encodeChars k.bytes, Text.isBlank c = false :=
    fun _ => Hex.isBlank_of_mem_encodeChars
  have hbreak : Text.trimEnd ['\n'] = [] := by
    rw [Text.trimEnd, List.reverse_singleton, List.dropWhile_cons_of_pos isBlank_break]
    rfl
  have hfile : k.encodeFile.toList = Hex.encodeChars k.bytes ++ ['\n'] := by
    rw [encodeFile, Hex.encode, String.toList_append, String.toList_ofList]
    rfl
  rw [← Text.trim_trimEnd, hfile, Text.trimEnd_append_of_eq_nil hbreak,
    Text.trimEnd_of_forall hdigits, Text.trim_of_forall hdigits]

/-- The number of octets of a key is one that keys have. -/
theorem length_mem (k : SharedKey) : k.bytes.length ∈ lengths := by
  simpa [lengths] using k.isKey

/-- The octets of a key are those of a key. -/
@[simp] theorem ofBytes_bytes (k : SharedKey) : ofBytes k.bytes = .ok k :=
  dif_pos k.isKey

/-- A key that is written to a file is read back. -/
theorem decodeFile_encodeFile (k : SharedKey) :
    decodeFile (Text.toBytes k.encodeFile) = .ok k := by
  rw [decodeFile, Text.ofBytes?_toBytes, Result.ofOption_some, ok_bind, decodeFileText,
    trim_encodeFile, ← Hex.encode, Hex.decodeText_encode, Result.of_ok, ok_bind, ofBytes_bytes]

/-- A number of octets that no key has is refused, and nothing is drawn. -/
theorem generate_of_not_mem {count : Nat} (h : count ∉ lengths) (s : Entropy) :
    generate count s = (.error (lengthError count), s) := by
  rw [generate, if_neg (by simpa using h)]
  rfl

/-- A key of a number of octets that keys have is made. -/
theorem exists_generate_of_mem {count : Nat} (h : count ∈ lengths) (s : Entropy) :
    ∃ k : SharedKey, k.bytes.length = count ∧ (generate count s).1 = .ok k := by
  have hlength := (Draw.octets count s).1.length_eq
  have hkey : (Draw.octets count s).1.bytes.length = 16 ∨
      (Draw.octets count s).1.bytes.length = 24 ∨ (Draw.octets count s).1.bytes.length = 32 := by
    rw [hlength]
    simpa [lengths] using h
  refine ⟨⟨(Draw.octets count s).1.bytes, hkey⟩, hlength, ?_⟩
  rw [generate, if_pos (by simpa using h)]
  exact dif_pos hkey

/-- A key of as many octets as whole ones fit a number of bits has that number of bits exactly when
it is one of the three sizes. -/
theorem bits_eq_iff {k : SharedKey} {bits : Nat} (h : k.bytes.length = bits / 8) :
    k.bits = bits ↔ bits ∈ [128, 192, 256] := by
  have hkey := k.isKey
  simp only [SharedKey.bits, List.mem_cons, List.not_mem_nil, or_false]
  omega

end SharedKey

/-! ### Runs -/

namespace Command

open FileSystem (Write)
open NewPair (worldOf)

variable {path : String} {bits : Nat} {force : Bool} {w : World}

/-- How a run ends, with the files that it leaves. -/
inductive NewSharedKeyEnds (path : String) (bits : Nat) (force : Bool) (before : FileSystem) :
    Result Unit × FileSystem → Prop
  /-- The path is taken. -/
  | taken (hforce : force = false) (hfound : before.contains path = true) :
      NewSharedKeyEnds path bits force before (.error (.file (.taken path)), before)
  /-- No key has so many whole octets. -/
  | wrongSize (hfree : force = false → before.contains path = false)
      (hsize : bits / 8 ∉ SharedKey.lengths) :
      NewSharedKeyEnds path bits force before
        (.error (SharedKey.lengthError (bits / 8)), before)
  /-- The file of a new key is written, to the end or not. -/
  | written (hfree : force = false → before.contains path = false) {k : SharedKey}
      (hlength : k.bytes.length = bits / 8) {r : Result Unit} {after : FileSystem}
      (hwrite : Write before path Program.secretMode (Text.toBytes k.encodeFile) (r, after)) :
      NewSharedKeyEnds path bits force before (r, after)

/-- With a free path, if it has to be free, a run draws a key and writes it. -/
theorem outcome_newSharedKey_of_free (path : String) (bits : Nat)
    (hfree : force = false → w.files.contains path = false) :
    Program.outcome (newSharedKey path bits force) w =
      Program.outcome (do
        let k ← liftM (SharedKey.generate (bits / 8) w.entropy).1
        Program.writeSecret path k.encodeFile
        Program.printLine s!"✓ Общий ключ AES-{bits}: {path}")
        { w with entropy := (SharedKey.generate (bits / 8) w.entropy).2 } := by
  unfold newSharedKey
  rcases hforce : force with _ | _
  · simp only [Bool.not_false, if_true]
    rw [Program.outcome_refuseTaken_bind_of_free (hfree hforce), Program.outcome_draw_bind]
  · simp only [Bool.not_true, Bool.false_eq_true, if_false]
    rw [Program.outcome_draw_bind]

/-- A run ends in one of the ways. -/
theorem newSharedKeyEnds (path : String) (bits : Nat) (force : Bool) (w : World) :
    NewSharedKeyEnds path bits force w.files
      (Program.outcome (newSharedKey path bits force) w) := by
  by_cases hfree : force = false → w.files.contains path = false
  · rw [outcome_newSharedKey_of_free path bits hfree]
    by_cases hsize : bits / 8 ∈ SharedKey.lengths
    · obtain ⟨k, hlength, hkey⟩ := SharedKey.exists_generate_of_mem hsize w.entropy
      have hwrite := FileSystem.write_putAs w.files path (Text.toBytes k.encodeFile)
        Program.secretMode
      rw [Program.outcome_liftM_bind_of_ok hkey, Program.writeSecret]
      rcases hput : w.files.putAs path (Text.toBytes k.encodeFile) Program.secretMode with
        ⟨e | ⟨⟩, after⟩
      · rw [Program.outcome_keepFiles_bind_of_error hput]
        exact .written hfree hlength (hput ▸ hwrite)
      · rw [Program.outcome_keepFiles_bind_of_ok hput, Program.outcome_printLine]
        exact .written hfree hlength (hput ▸ hwrite)
    · rw [SharedKey.generate_of_not_mem hsize, Program.outcome_liftM_bind_of_error rfl]
      exact .wrongSize hfree hsize
  · obtain ⟨hforce, hfound⟩ := Classical.not_imp.mp hfree
    subst hforce
    have hfound : w.files.contains path = true := by simpa using hfound
    unfold newSharedKey
    simp only [Bool.not_false, if_true]
    rw [Program.outcome_refuseTaken_bind_of_contains hfound]
    exact .taken rfl hfound

namespace NewSharedKeyEnds

variable {before after : FileSystem} {r : Result Unit}

/-- A run that succeeds leaves the file of a key of as many octets as whole ones fit the size. -/
theorem exists_key (h : NewSharedKeyEnds path bits force before (.ok (), after)) :
    ∃ k : SharedKey, k.bytes.length = bits / 8 ∧
      after.Holds (.ofString path) (Text.toBytes k.encodeFile) := by
  cases h with
  | written hfree hlength hwrite => exact ⟨_, hlength, hwrite.holds_of_ok⟩

/-- Where a path is taken and has to be free, nothing changes. -/
theorem of_contains (h : NewSharedKeyEnds path bits force before (r, after))
    (hforce : force = false) (hfound : before.contains path = true) :
    r = .error (.file (.taken path)) ∧ after = before := by
  have hnot : ¬ (force = false → before.contains path = false) := by simp [hforce, hfound]
  cases h with
  | taken => exact ⟨rfl, rfl⟩
  | wrongSize hfree => exact absurd hfree hnot
  | written hfree => exact absurd hfree hnot

/-- Where the path may be written, a size of as many whole octets as no key has is refused, and
nothing changes. -/
theorem of_not_mem (h : NewSharedKeyEnds path bits force before (r, after))
    (hfree : force = false → before.contains path = false)
    (hsize : bits / 8 ∉ SharedKey.lengths) :
    r = .error (SharedKey.lengthError (bits / 8)) ∧ after = before := by
  cases h with
  | taken hforce hfound => exact absurd (hfree hforce) (by simp [hfound])
  | wrongSize => exact ⟨rfl, rfl⟩
  | @written _ k hlength =>
    refine absurd ?_ hsize
    rw [← hlength]
    exact k.length_mem

/-- After an error that is no fault of files nothing has changed. -/
theorem eq_of_ne_file {e : Error} (h : NewSharedKeyEnds path bits force before (.error e, after))
    (he : ∀ f, e ≠ .file f) : after = before := by
  cases h with
  | taken => rfl
  | wrongSize => rfl
  | written hfree hlength hwrite =>
    obtain ⟨⟨f, rfl⟩, -⟩ := hwrite.of_error
    exact absurd rfl (he f)

/-- Other paths are as before. -/
theorem find?_of_ne (h : NewSharedKeyEnds path bits force before (r, after)) {q : Path}
    (hq : q ≠ .ofString path) : after.find? q = before.find? q := by
  cases h with
  | taken => rfl
  | wrongSize => rfl
  | written hfree hlength hwrite => exact hwrite.find?_of_ne hq

end NewSharedKeyEnds

/-- The file of a shared key that stands at a path is read as the key. -/
theorem outcome_readSharedKey {k : SharedKey}
    (h : w.files.Holds (.ofString path) (Text.toBytes k.encodeFile)) :
    Program.outcome (readSharedKey path) w = (.ok k, w.files) := by
  have hread : (Program.readFile path).run w = (.ok (Text.toBytes k.encodeFile), w) := by
    change (w.files.read path, w) = _
    rw [h.read]
  rw [readSharedKey, Program.outcome, Program.run_bind_of_ok hread,
    SharedKey.decodeFile_encodeFile]
  rfl

/-- What a run does with the size that is asked for.  If it succeeds, the file is read as a key of as
many whole octets as fit the size, and of the very size exactly when this is one of the three sizes
of keys.  A size with another number of whole octets is refused, and so is a path that is taken; no
file has changed then, nor after any other error but one of writing the file.  Other paths never
change. -/
theorem size_of_newSharedKey (path : String) (bits : Nat) (force : Bool) (w : World)
    {r : Result Unit} {after : FileSystem}
    (h : Program.outcome (newSharedKey path bits force) w = (r, after)) :
    (r = .ok () → bits / 8 ∈ SharedKey.lengths ∧ ∃ k : SharedKey,
      (∀ v : World, v.files = after → Program.outcome (readSharedKey path) v = (.ok k, after)) ∧
      k.bits = 8 * (bits / 8) ∧ (k.bits = bits ↔ bits ∈ [128, 192, 256])) ∧
    (force = false → w.files.contains path = true →
      r = .error (.file (.taken path)) ∧ after = w.files) ∧
    ((force = false → w.files.contains path = false) → bits / 8 ∉ SharedKey.lengths →
      r = .error (SharedKey.lengthError (bits / 8)) ∧ after = w.files) ∧
    (∀ e, r = .error e → (∀ f, e ≠ .file f) → after = w.files) ∧
    ∀ q, q ≠ .ofString path → after.find? q = w.files.find? q := by
  have hends := newSharedKeyEnds path bits force w
  rw [h] at hends
  refine ⟨?_, hends.of_contains, hends.of_not_mem, ?_, fun q => hends.find?_of_ne⟩
  · rintro rfl
    obtain ⟨k, hlength, hheld⟩ := hends.exists_key
    refine ⟨hlength ▸ k.length_mem, k, ?_, by rw [SharedKey.bits, hlength],
      SharedKey.bits_eq_iff hlength⟩
    rintro v rfl
    exact outcome_readSharedKey hheld
  · rintro e rfl
    exact hends.eq_of_ne_file

/-- A path at which a file is made. -/
theorem putAs_empty (content : Bytes) (mode : Nat) :
    FileSystem.empty.putAs "k" content mode = (.ok (), ⟨[(["k"], .file content mode)], [], []⟩) :=
  rfl

/-- Where nothing stands, a run succeeds with every size of as many whole octets as keys have. -/
theorem outcome_newSharedKey_empty {bits : Nat} (hsize : bits / 8 ∈ SharedKey.lengths) :
    ∃ after, Program.outcome (newSharedKey "k" bits false) (worldOf .empty) = (.ok (), after) := by
  obtain ⟨k, -, hkey⟩ := SharedKey.exists_generate_of_mem hsize (worldOf .empty).entropy
  refine ⟨⟨[(["k"], .file (Text.toBytes k.encodeFile) Program.secretMode)], [], []⟩, ?_⟩
  rw [outcome_newSharedKey_of_free _ _ (fun _ => rfl), Program.outcome_liftM_bind_of_ok hkey,
    Program.writeSecret, Program.outcome_keepFiles_bind_of_ok (putAs_empty _ _),
    Program.outcome_printLine]

/-- A key of 256 bits is made as it was asked for. -/
theorem size_of_newSharedKey_256 :
    ∃ after, Program.outcome (newSharedKey "k" 256 false) (worldOf .empty) = (.ok (), after) ∧
      ∃ k : SharedKey, k.bits = 256 ∧
        Program.outcome (readSharedKey "k") (worldOf after) = (.ok k, after) := by
  obtain ⟨after, hrun⟩ := outcome_newSharedKey_empty (show 256 / 8 ∈ SharedKey.lengths by decide)
  obtain ⟨-, k, hread, hbits, -⟩ := (size_of_newSharedKey "k" 256 false _ hrun).1 rfl
  exact ⟨after, hrun, k, hbits, hread _ rfl⟩

/-- A key of 130 bits is asked for and the run succeeds, but the key in the file has 128 bits. -/
theorem exists_newSharedKey_bits_ne :
    ∃ after, Program.outcome (newSharedKey "k" 130 false) (worldOf .empty) = (.ok (), after) ∧
      ∃ k : SharedKey, k.bits = 128 ∧ k.bits ≠ 130 ∧
        Program.outcome (readSharedKey "k") (worldOf after) = (.ok k, after) := by
  obtain ⟨after, hrun⟩ := outcome_newSharedKey_empty (show 130 / 8 ∈ SharedKey.lengths by decide)
  have hends := newSharedKeyEnds "k" 130 false (worldOf .empty)
  rw [hrun] at hends
  obtain ⟨k, hlength, hheld⟩ := hends.exists_key
  have hbits : k.bits = 128 := by rw [SharedKey.bits, hlength]
  exact ⟨after, hrun, k, hbits, by rw [hbits]; decide,
    outcome_readSharedKey (w := worldOf after) hheld⟩

end Command

end KeySmith

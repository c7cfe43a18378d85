import KeySmith.Command.Run
import KeySmith.Proofs.Command.PairFiles
import KeySmith.Proofs.Command.Passphrase
import KeySmith.Proofs.Export

/-!
# Keys under new passphrases

A command that writes a key under a passphrase first asks for the passphrase, so what it writes is
under one that the question gives: the private file of a pair, also where a write breaks off, and the
text of an export, which is all that an export prints behind the question.  The length of these
passphrases is thus bounded as far as the question bounds it (`isProtected_of_run`).
-/

namespace KeySmith

variable {w asked : World}

open Program (IsQuiet isQuiet_liftM isQuiet_draw isQuiet_readFile)

/-! ### Texts under a passphrase -/

/-- Whether a file has been written with a key under a passphrase. -/
def KeyFile.IsUnder (p : String) (k : Key) (content : Bytes) : Prop :=
  ∃ salt iv text, encodeEncrypted salt iv (Text.toBytes p) k = .ok text ∧
    content = Text.toBytes text

/-- A file with a key under a passphrase is seen to be one, and it is read with the passphrase. -/
theorem KeyFile.IsUnder.decodeWith {p : String} {k : Key} {content : Bytes}
    (h : IsUnder p k content) :
    isEncrypted content = true ∧ KeyFile.decodeWith (Text.toBytes p) content = .ok k := by
  obtain ⟨salt, iv, text, htext, rfl⟩ := h
  have hparts := htext
  simp only [encodeEncrypted, guard_eq_ok_iff, bind_eq_ok_iff] at hparts
  obtain ⟨hempty, info, hinfo, -⟩ := hparts
  obtain ⟨hencrypted, -, hread⟩ :=
    decodeWith_encodeEncrypted hinfo (fun h => hempty (List.isEmpty_iff.mpr h)) htext
  exact ⟨hencrypted, hread⟩

/-- A private key with two primes, if it has primes, and with numbers of modest size is written under
every passphrase but the empty one. -/
theorem KeyFile.exists_encodeEncrypted {k : Key} (hprivate : k.isPrivate = true)
    (hprimes : k.IsTwoPrime) (hk : k.IsModest) {passphrase : Bytes} (hpassphrase : passphrase ≠ [])
    (salt iv : Octets 16) : ∃ text, encodeEncrypted salt iv passphrase k = .ok text := by
  obtain ⟨d, hd⟩ := (Der.Pkcs8.failsUnless_info hprivate).succeeds hprimes
  have hlength := Der.Pkcs8.length_encode_add_lt hk hd
  have hinfo : Der.Pkcs8.encode k = .ok d.encode := by
    rw [Der.Pkcs8.encode, hd, ok_bind, Result.ofOption_eq_ok_iff, Der.document?_eq_some_iff]
    exact ⟨by omega, rfl⟩
  have hprotect := Der.Encrypted.length_protect_le hlength salt iv passphrase
  exact ⟨_, (encodeEncrypted_eq_ok_iff hinfo hpassphrase).mpr ⟨hprotect.trans_lt hlength, rfl⟩⟩

/-- Whether a file has been written with a key under a passphrase that comes out of the question. -/
def IsProtected (w : World) (content : Bytes) : Prop :=
  ∃ p k, Passphrase.IsNew w p ∧ KeyFile.IsUnder p k content

/-- How a run ends that puts a key under a new passphrase into a file. -/
inductive LeavesProtected (w : World) (path : String) : Result Unit × FileSystem → Prop
  | done {content : Bytes} {after : FileSystem} (hprotected : IsProtected w content)
      (hheld : after.Holds (.ofString path) content) : LeavesProtected w path (.ok (), after)
  | unchanged (e : Error) : LeavesProtected w path (.error e, w.files)
  /-- Where a write breaks off, the file holds the beginning of such a content. -/
  | begun (e : Error) {content stored : Bytes} {after : FileSystem}
      (hprotected : IsProtected w content) (hstored : stored <+: content)
      (hheld : after.Holds (.ofString path) stored) : LeavesProtected w path (.error e, after)

/-- How a run ends that prints a key under a new passphrase: it changes no files, and prints the text
behind the question or nothing. -/
inductive PrintsProtected (w : World) : Result Unit × World → Prop
  | done {text : String} {after : World} (hfiles : after.files = w.files)
      (hprotected : IsProtected w (Text.toBytes text))
      (houtput : after.output = (Passphrase.forNew.run w).2.output ++ text) :
      PrintsProtected w (.ok (), after)
  | failed (e : Error) {after : World} (hfiles : after.files = w.files)
      (houtput : after.output = (Passphrase.forNew.run w).2.output) :
      PrintsProtected w (.error e, after)

namespace Command

/-! ### Pairs under a passphrase -/

namespace NewPair

variable {settings : Settings} {pair : NewPair} {choices : Choices} {p : String} {k : Key}

/-- The private text of a pair under a passphrase is under it. -/
theorem isUnder_privateText (hprotect : pair.protect = true) {text : String}
    (h : privateText settings pair (some (Text.toBytes p)) choices k = .ok text) :
    KeyFile.IsUnder p k (Text.toBytes text) := by
  unfold privateText at h
  rw [hprotect] at h
  exact ⟨_, _, text, h, rfl⟩

/-- However a run under a passphrase ends, the private file holds the old content or the beginning of
a text under the passphrase, and the whole of it if the run does not fail. -/
theorem Ends.leavesProtected (hprotect : pair.protect = true) (hp : Passphrase.IsNew w p)
    {outcome : Result Unit × FileSystem}
    (hends : Ends settings pair (some (Text.toBytes p)) choices w.files outcome) :
    LeavesProtected w pair.out outcome := by
  rcases outcome with ⟨e | ⟨⟩, after⟩
  · cases hends.leftover with
    | unchanged => exact .unchanged e
    | secretBegun hkey htext f hsecret hothers =>
      obtain ⟨-, stored, hstored, hheld⟩ := hsecret
      exact .begun _ ⟨p, _, hp, isUnder_privateText hprotect htext⟩ hstored hheld
    | secretDone hkey htext hpublic f hsecret hbegun hothers =>
      exact .begun _ ⟨p, _, hp, isUnder_privateText hprotect htext⟩ List.prefix_rfl hsecret
  · cases hends with
    | done hfree hkey htext hpublic hwrite hwritePublic =>
      exact .done ⟨p, _, hp, isUnder_privateText hprotect htext⟩
        (holds_out_of_write hwrite.holds_of_ok hwritePublic)

end NewPair

/-! ### Exports under a passphrase -/

/-- A key file is read without a word. -/
theorem isQuiet_readKey (path : String) : IsQuiet (readKey path) := by
  refine (isQuiet_readFile path).bind fun content => ?_
  split
  · exact Passphrase.isQuiet_forOld.bind fun p => isQuiet_liftM _
  · exact isQuiet_liftM _

namespace Export

variable {settings : Settings} {x : Export} {p : String}

/-- The text of an export under a passphrase. -/
def protectedText (x : Export) (p : Bytes) : Program String := do
  let found ← readKey x.path
  let salt ← Program.draw (Draw.octets 16)
  let iv ← Program.draw (Draw.octets 16)
  x.format.encodeEncrypted salt iv p (if x.publicOnly then found.toPublic else found)

/-- An export under a passphrase prints its text. -/
theorem run_eq (settings : Settings) (x : Export) (p : Bytes) :
    x.run settings (some p) = x.protectedText p >>= Program.print := by
  simp only [run, protectedText, bind_assoc]

theorem isQuiet_protectedText (x : Export) (p : Bytes) : IsQuiet (x.protectedText p) :=
  (isQuiet_readKey x.path).bind fun _ => (isQuiet_draw _).bind fun _ => (isQuiet_draw _).bind
    fun _ => isQuiet_liftM _

/-- The text of an export under a passphrase is made from the key of the file, a salt and a vector. -/
theorem run_protectedText {found : Key} (h : (readKey x.path).run w = (.ok found, asked))
    (p : Bytes) :
    ∃ salt iv entropy, (x.protectedText p).run w =
      (x.format.encodeEncrypted salt iv p (if x.publicOnly then found.toPublic else found),
        { asked with entropy }) := by
  have hdraw : ∀ w, (Program.draw (Draw.octets 16)).run w =
      (.ok (Draw.octets 16 w.entropy).1, { w with entropy := (Draw.octets 16 w.entropy).2 }) :=
    fun _ => rfl
  rw [protectedText, Program.run_bind_of_ok h, Program.run_bind_of_ok (hdraw _),
    Program.run_bind_of_ok (hdraw _), Program.run_liftM]
  exact ⟨_, _, _, rfl⟩

/-- The text of an export under a passphrase is under it. -/
theorem exists_isUnder_of_run_protectedText {text : String}
    (h : (x.protectedText (Text.toBytes p)).run w = (.ok text, asked)) :
    ∃ k, KeyFile.IsUnder p k (Text.toBytes text) := by
  simp only [protectedText, Program.run_bind_eq_ok_iff] at h
  obtain ⟨found, _, -, salt, _, -, iv, _, -, hencode⟩ := h
  rw [Program.run_liftM, Prod.mk.injEq, ExportFormat.encodeEncrypted] at hencode
  split at hencode
  · exact ⟨_, salt, iv, text, hencode.1, rfl⟩
  · cases hencode.1

/-- An export under the passphrase of the question prints one text under it, or nothing where it
fails. -/
theorem printsProtected_run (settings : Settings) (x : Export)
    (h : Passphrase.forNew.run w = (.ok p, asked)) :
    PrintsProtected w ((x.run settings (some (Text.toBytes p))).run asked) := by
  obtain ⟨hp, hfiles⟩ := Passphrase.isNew_of_run_forNew h
  have hquiet := isQuiet_protectedText x (Text.toBytes p) asked
  rw [run_eq]
  rcases hrun : (x.protectedText (Text.toBytes p)).run asked with ⟨e | text, between⟩
  · rw [hrun] at hquiet
    rw [Program.run_bind_of_error hrun]
    exact .failed e (hquiet.2.trans hfiles) (by rw [h]; exact hquiet.1)
  · rw [hrun] at hquiet
    rw [Program.run_bind_of_ok hrun]
    obtain ⟨k, hk⟩ := exists_isUnder_of_run_protectedText hrun
    refine .done (hquiet.2.trans hfiles) ⟨p, k, hp, hk⟩ ?_
    rw [h]
    exact congrArg (· ++ text) hquiet.1

end Export

end Command

/-! ### Commands -/

namespace CommandLine

open Command Passphrase

variable {settings : Settings} {p : String} {α : Type}

/-- A wanted passphrase is the one that the question gives. -/
theorem run_newPassphrase_bind (h : forNew.run w = (.ok p, asked)) (f : Option Bytes → Program α) :
    (newPassphrase true >>= f).run w = (f (some (Text.toBytes p))).run asked := by
  have hrun : (newPassphrase true).run w = (.ok (some (Text.toBytes p)), asked) := by
    rw [newPassphrase, if_pos rfl, Program.run_bind_of_ok h]
    rfl
  exact Program.run_bind_of_ok hrun

/-- Nothing comes behind a question that fails. -/
theorem run_newPassphrase_bind_of_error {e : Error} (h : forNew.run w = (.error e, asked))
    (f : Option Bytes → Program α) :
    (newPassphrase true >>= f).run w = (.error e, asked) := by
  have hrun : (newPassphrase true).run w = (.error e, asked) := by
    rw [newPassphrase, if_pos rfl, Program.run_bind_of_error h]
  exact Program.run_bind_of_error hrun

namespace Action

/-- A pair under a passphrase is made with the passphrase that the question gives. -/
theorem outcome_generate_eq {pair : NewPair} (hprotect : pair.protect = true)
    (h : forNew.run w = (.ok p, asked)) :
    Program.outcome ((generate pair).run settings) w =
      Program.outcome (pair.run settings (some (Text.toBytes p))) asked := by
  rw [Program.outcome, run, hprotect, run_newPassphrase_bind h, Program.outcome]

/-- What a pair under a passphrase leaves in its private file is under one that the question gives. -/
theorem leavesProtected_generate (settings : Settings) {pair : NewPair}
    (hprotect : pair.protect = true) (w : World) :
    LeavesProtected w pair.out (Program.outcome ((generate pair).run settings) w) := by
  rcases hasked : forNew.run w with ⟨e | p, asked⟩
  · have hfiles : asked.files = w.files := (eq_noTerminal_of_run_forNew hasked).2
    rw [Program.outcome, run, hprotect, run_newPassphrase_bind_of_error hasked, hfiles]
    exact .unchanged e
  · obtain ⟨hp, hfiles⟩ := isNew_of_run_forNew hasked
    have hends := NewPair.ends_run settings pair (some (Text.toBytes p)) asked
    rw [hfiles] at hends
    rw [outcome_generate_eq hprotect hasked]
    exact hends.leavesProtected hprotect hp

/-- What an export under a passphrase prints is under one that the question gives. -/
theorem printsProtected_exportKey (settings : Settings) {x : Export} (hprotect : x.protect = true)
    (w : World) : PrintsProtected w (((exportKey x).run settings).run w) := by
  rw [run, hprotect]
  rcases hasked : forNew.run w with ⟨e | p, asked⟩
  · rw [run_newPassphrase_bind_of_error hasked]
    exact .failed e (eq_noTerminal_of_run_forNew hasked).2 (by rw [hasked])
  · rw [run_newPassphrase_bind hasked]
    exact Export.printsProtected_run settings x hasked

/-! ### Runs that succeed -/

/-- An Ed25519 key under a passphrase for the file `k`. -/
def guardedPair : NewPair :=
  { NewPair.renewal with protect := true }

/-- The key in the file `k`, under a passphrase. -/
def guardedExport : Export :=
  ⟨guardedPair.out, .pkcs8, false, none, true⟩

/-- An Ed25519 key is written under every passphrase but the empty one. -/
theorem exists_encodeEncrypted_ed25519 {k : Key} (hk : KeySpec.ed25519.Makes k) {passphrase : Bytes}
    (hpassphrase : passphrase ≠ []) (salt iv : Octets 16) :
    ∃ text, KeyFile.encodeEncrypted salt iv passphrase k = .ok text := by
  have hprivate := hk.isPrivate
  cases hk with
  | @ed25519 r hseed =>
    refine KeyFile.exists_encodeEncrypted hprivate (Key.isTwoPrime_ed25519 r) ?_ hpassphrase salt iv
    rintro _ ⟨⟩

/-- Without files a pair is made under any passphrase that comes out of the question. -/
theorem exists_outcome_generate (hp : IsNew w p) (hfiles : w.files = .empty) :
    ∃ k content after, KeySpec.ed25519.Makes k ∧ KeyFile.IsUnder p k content ∧
      after.Holds (.ofString guardedPair.out) content ∧
      Program.outcome ((generate guardedPair).run {}) w = (.ok (), after) := by
  obtain ⟨asked, hasked⟩ := exists_run_forNew_iff.mpr hp
  have hempty : asked.files = .empty := (isNew_of_run_forNew hasked).2.trans hfiles
  obtain ⟨k, hgenerate⟩ := Key.exists_generate_ed25519 asked.entropy
  have hmakes := Key.makes_of_generate hgenerate
  let choices := (NewPair.Choices.draw (guardedPair.spec {}) asked.entropy).1
  have hkey : choices.key = .ok k := hgenerate
  obtain ⟨text, htext⟩ :=
    exists_encodeEncrypted_ed25519 hmakes hp.toBytes_ne_nil choices.salt choices.iv
  have hprivate : NewPair.privateText {} guardedPair (some (Text.toBytes p)) choices k = .ok text :=
    htext
  obtain ⟨publicText, hpublic⟩ := NewPair.exists_encodePublic hprivate
  have hput : asked.files.putAs guardedPair.out (Text.toBytes text) Program.secretMode =
      (.ok (), ⟨[(["k"], .file (Text.toBytes text) Program.secretMode)], [], []⟩) := by
    rw [hempty]
    rfl
  refine ⟨k, Text.toBytes text, ⟨[(["k.pub"], .file (Text.toBytes publicText) Program.openMode),
    (["k"], .file (Text.toBytes text) Program.secretMode)], [], []⟩, hmakes,
    NewPair.isUnder_privateText rfl hprivate, ⟨Program.secretMode, rfl⟩, ?_⟩
  rw [outcome_generate_eq rfl hasked,
    NewPair.outcome_run_of_putAs (by simp [guardedPair, NewPair.renewal]) hkey hprivate hpublic hput]
  rfl

/-- The key of the file is exported under the passphrase of the environment that it is under. -/
theorem exists_run_exportKey {k : Key} {content : Bytes} (hgiven : Given w p)
    (hk : KeySpec.ed25519.Makes k) (hunder : KeyFile.IsUnder p k content)
    (hheld : w.files.Holds (.ofString guardedExport.path) content) :
    ∃ after, ((exportKey guardedExport).run {}).run w = (.ok (), after) := by
  obtain ⟨hencrypted, hread⟩ := hunder.decodeWith
  have hfile : (Program.readFile guardedExport.path).run w = (.ok content, w) := by
    change (liftM (w.files.read guardedExport.path) : Program Bytes).run w = _
    rw [Program.run_liftM, hheld.read]
  have hkey : (readKey guardedExport.path).run w = (.ok k, w) := by
    rw [readKey, Program.run_bind_of_ok hfile, if_pos hencrypted,
      Program.run_bind_of_ok (run_forOld_of_given hgiven), Program.run_liftM, hread]
  obtain ⟨salt, iv, entropy, hprotected⟩ := Export.run_protectedText hkey (Text.toBytes p)
  obtain ⟨text, htext⟩ :=
    exists_encodeEncrypted_ed25519 hk (IsNew.toBytes_ne_nil (.inl hgiven)) salt iv
  have hexport : guardedExport.format.encodeEncrypted salt iv (Text.toBytes p)
      (if guardedExport.publicOnly then k.toPublic else k) = .ok text := htext
  have hprotect : guardedExport.protect = true := rfl
  rw [hexport] at hprotected
  rw [run, hprotect, run_newPassphrase_bind (run_forNew_of_given hgiven), Export.run_eq,
    Program.run_bind_of_ok hprotected]
  exact ⟨_, rfl⟩

/-! ### Passphrases of new keys -/

/-- Which passphrases new keys are put under.  The question gives the passphrase of the environment as
it is, and only without one the first answer that is long enough and is repeated; so the bound on the
length holds where it holds of the environment.  What is left in the private file of a new pair and
what is printed of an export is under a passphrase that the question gives. -/
theorem isProtected_of_run (settings : Settings) (w : World) :
    (∀ p, (∃ asked, forNew.run w = (.ok p, asked)) ↔ IsNew w p) ∧
    ((∀ p, IsNew w p → shortest ≤ p.length) ↔ ∀ p, Given w p → shortest ≤ p.length) ∧
    (∀ pair : NewPair, pair.protect = true →
      LeavesProtected w pair.out (Program.outcome ((generate pair).run settings) w)) ∧
    ∀ x : Export, x.protect = true → PrintsProtected w (((exportKey x).run settings).run w) :=
  ⟨fun _ => exists_run_forNew_iff, shortest_le_iff,
    fun _ hprotect => leavesProtected_generate settings hprotect w,
    fun _ hprotect => printsProtected_exportKey settings hprotect w⟩

/-- A person answers too briefly, then differently, then well. -/
def hesitantWorld : World :=
  { NewPair.worldOf .empty with
    answers := ["слово", "длинный пароль", "длинный пароль!", "длинный пароль", "длинный пароль"] }

theorem isNew_hesitantWorld : IsNew hesitantWorld "длинный пароль" := by
  have hnone : ∀ p, ¬ Given hesitantWorld p := by
    rintro p ⟨⟨⟩, -⟩
  exact .inr ⟨hnone, [], .afterShort (by decide) (.afterDifferent (by decide) (by decide)
    (.repeated (by decide)))⟩

/-- The files of a pair with the passphrase of its private key in the environment. -/
def exportWorld (files : FileSystem) : World :=
  { NewPair.worldOf files with passphrase := some "длинный пароль" }

/-- The pair is made under the last answers, and its private key is then exported under the same
passphrase of the environment. -/
theorem isProtected_of_run_hesitantWorld :
    ∃ after, Program.outcome ((generate guardedPair).run {}) hesitantWorld = (.ok (), after) ∧
      (∀ p, IsNew hesitantWorld p → shortest ≤ p.length) ∧
      (∃ content, IsProtected hesitantWorld content ∧
        after.Holds (.ofString guardedPair.out) content) ∧
      ∃ printed text, ((exportKey guardedExport).run {}).run (exportWorld after) =
          (.ok (), printed) ∧
        IsProtected (exportWorld after) (Text.toBytes text) ∧ printed.output = text := by
  obtain ⟨k, content, after, hk, hunder, hheld, hrun⟩ :=
    exists_outcome_generate isNew_hesitantWorld rfl
  have hgiven : Given (exportWorld after) "длинный пароль" := ⟨rfl, by decide⟩
  obtain ⟨printed, hprinted⟩ := exists_run_exportKey hgiven hk hunder hheld
  obtain ⟨-, hlong, hgenerate, -⟩ := isProtected_of_run {} hesitantWorld
  obtain ⟨-, -, -, hexport⟩ := isProtected_of_run {} (exportWorld after)
  have hleaves := hgenerate guardedPair rfl
  have hprints := hexport guardedExport rfl
  rw [hrun] at hleaves
  rw [hprinted] at hprints
  cases hleaves with
  | done hprotected hheld =>
    cases hprints with
    | @done text _ hfiles hprotected' houtput =>
      rw [run_forNew_of_given hgiven] at houtput
      refine ⟨after, hrun, hlong.mpr ?_, ⟨_, hprotected, hheld⟩, printed, text, hprinted,
        hprotected', houtput.trans String.empty_append⟩
      rintro p ⟨⟨⟩, -⟩

/-- The environment gives a passphrase of four characters. -/
def hastyWorld : World :=
  { NewPair.worldOf .empty with passphrase := some "ключ" }

/-- The passphrase comes out of the question, though it is too short, and the private key of the new
pair is read with it. -/
theorem exists_readWith_of_short_passphrase :
    forNew.run hastyWorld = (.ok "ключ", hastyWorld) ∧ "ключ".length < shortest ∧
      ∃ k after, Program.outcome ((generate guardedPair).run {}) hastyWorld = (.ok (), after) ∧
        KeyFile.readWith after guardedPair.out (some (Text.toBytes "ключ")) = .ok k ∧
        k.isPrivate = true := by
  have hgiven : Given hastyWorld "ключ" := ⟨rfl, by decide⟩
  obtain ⟨k, content, after, hk, hunder, hheld, hrun⟩ := exists_outcome_generate (.inl hgiven) rfl
  refine ⟨run_forNew_of_given hgiven, by decide, k, after, hrun, ?_, hk.isPrivate⟩
  rw [NewPair.readWith_of_holds hheld]
  exact hunder.decodeWith.2

end Action

end CommandLine

end KeySmith

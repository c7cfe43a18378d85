import KeySmith.Proofs.Command.NewPair

/-!
# The files of a key pair

A run that does not fail leaves a private file, from which the new key is read with the passphrase
that it is under, and beside it a public file of the same key.  The public half of a key with more
than 4096 bits is written like any other, but it is not read.

A run that fails takes nothing back.  The private file is written over before the public file is
opened, so a failure of the second write leaves a new private file and, if there was one, an old
public file beside it.  What a failure may leave is listed in `Leftover`.
-/

namespace KeySmith.Command.NewPair

open FileSystem (Write)
open Ssh (Container)

variable {settings : Settings} {pair : NewPair} {passphrase : Option Bytes} {choices : Choices}
  {k : Key} {w : World} {before after : FileSystem}

/-- The files of a pair have different paths. -/
theorem ofString_publicOut_ne (pair : NewPair) :
    Path.ofString pair.publicOut ≠ .ofString pair.out :=
  Path.ofString_append_ne pair.out (by decide) (by decide)

/-- The private file stays as it is while the public file is written. -/
theorem holds_out_of_write {content : Bytes} (h : before.Holds (.ofString pair.out) content)
    {publicContent : Bytes} {r : Result Unit}
    (hwrite : Write before pair.publicOut Program.openMode publicContent (r, after)) :
    after.Holds (.ofString pair.out) content := by
  rcases h with ⟨mode, hfound⟩
  exact ⟨mode, (hwrite.find?_of_ne (ofString_publicOut_ne pair).symm).trans hfound⟩

/-! ### Pairs -/

/-- The passphrase that the private file is under, if it is under one. -/
def filePassphrase (pair : NewPair) (passphrase : Option Bytes) : Option Bytes :=
  if pair.protect then passphrase else none

/-- The container of the private file of an Ed25519 key. -/
def container (settings : Settings) (pair : NewPair) (check : UInt32) (k : Key) : Container :=
  ⟨k, pair.comment.getD settings.comment, check⟩

/-- With a comment of less than two gigabytes no container of an Ed25519 key is too long. -/
theorem fits_container {check : UInt32}
    (hcomment : (Text.toBytes (pair.comment.getD settings.comment)).length < 2 ^ 31)
    (halgorithm : k.algorithm = .ed25519) : (container settings pair check k).Fits := by
  refine Container.fits_of_lt hcomment ?_
  rintro r s hr -
  rw [show k = .rsa r from hr] at halgorithm
  cases halgorithm

/-- A private text is read as the key, unless it is a container that is too long. -/
theorem decodeOptional_privateText_iff {text : String}
    (h : privateText settings pair passphrase choices k = .ok text) :
    KeyFile.decodeOptional (pair.filePassphrase passphrase) (Text.toBytes text) = .ok k ↔
      (pair.protect = false → k.algorithm = .ed25519 →
        (container settings pair choices.check k).Fits) := by
  unfold privateText at h
  split at h
  · rename_i p hprotect
    rw [filePassphrase, hprotect, if_pos rfl, KeyFile.decodeOptional]
    have hwritten := h
    simp only [KeyFile.encodeEncrypted, guard_eq_ok_iff, bind_eq_ok_iff] at hwritten
    rcases hwritten with ⟨hempty, info, hinfo, -⟩
    have hpassphrase : p ≠ [] := fun hp => hempty (List.isEmpty_iff.mpr hp)
    refine iff_of_true (KeyFile.decodeWith_encodeEncrypted hinfo hpassphrase h).2.2 ?_
    simp
  · cases h
  · rename_i hprotect
    rw [filePassphrase, hprotect, if_neg Bool.false_ne_true, KeyFile.decodeOptional]
    -- a comment is kept for the one algorithm whose private form has a place for it
    cases k with
    | rsa r =>
      have hprivate : KeyFile.encodePrivate choices.check (.rsa r) = .ok text := h
      exact iff_of_true (KeyFile.decode_encodePrivate hprivate) (by simp [Key.algorithm])
    | ecdsa r =>
      have hprivate : KeyFile.encodePrivate choices.check (.ecdsa r) = .ok text := h
      exact iff_of_true (KeyFile.decode_encodePrivate hprivate) (by simp [Key.algorithm])
    | ed25519 r =>
      rw [KeyFile.decode_encodeOpensshPrivate_iff h, container]
      simp [Key.algorithm]

/-- A key is read from a file that holds a text as it is read from the text. -/
theorem readWith_of_holds {name : String} {content : Bytes} (h : after.Holds (.ofString name) content)
    (p : Option Bytes) : KeyFile.readWith after name p = KeyFile.decodeOptional p content := by
  rw [KeyFile.readWith, h.read, ok_bind]

/-- The private file and the public file of a key have been written, and nothing else. -/
structure IsPair (settings : Settings) (pair : NewPair) (passphrase : Option Bytes) (check : UInt32)
    (before after : FileSystem) (k : Key) : Prop where
  /-- The key is private and of the kind that was asked for. -/
  makes : (pair.spec settings).Makes k
  /-- The key is read from the private file, unless this is a container that is too long. -/
  readWith_out_iff : KeyFile.readWith after pair.out (pair.filePassphrase passphrase) = .ok k ↔
    (pair.protect = false → k.algorithm = .ed25519 → (container settings pair check k).Fits)
  /-- With a comment of less than two gigabytes no container is too long. -/
  fits : (Text.toBytes (pair.comment.getD settings.comment)).length < 2 ^ 31 →
    k.algorithm = .ed25519 → (container settings pair check k).Fits
  /-- The public half is read from the public file, unless it has more than 4096 bits. -/
  readWith_publicOut_iff : KeyFile.readWith after pair.publicOut none = .ok k.toPublic ↔
    ∀ bits, pair.spec settings = .rsa bits → bits ≤ RsaKey.sizeLimit
  /-- All other paths are as before. -/
  find?_eq : ∀ q, q ≠ .ofString pair.out → q ≠ .ofString pair.publicOut →
    after.find? q = before.find? q
  /-- Without leave to overwrite, both files are new. -/
  free : pair.force = false →
    before.contains pair.out = false ∧ before.contains pair.publicOut = false

/-- A run that ends well leaves a pair, if its key is of the kind that was asked for. -/
theorem Ends.isPair (hends : Ends settings pair passphrase choices before (.ok (), after))
    (hmakes : ∀ k, choices.key = .ok k → (pair.spec settings).Makes k) :
    ∃ k, choices.key = .ok k ∧
      IsPair settings pair passphrase choices.check before after k := by
  cases hends with
  | @done hfree k hkey text publicText htext hpublic between _ hwrite hwritePublic =>
    have hmade := hmakes k hkey
    have hsecret := holds_out_of_write hwrite.holds_of_ok hwritePublic
    refine ⟨k, hkey, hmade, ?_, fits_container, ?_, fun q hq hqPublic => ?_, hfree⟩
    · rw [readWith_of_holds hsecret]
      exact decodeOptional_privateText_iff htext
    · rw [readWith_of_holds hwritePublic.holds_of_ok, KeyFile.decodeOptional,
        KeyFile.decode_encodePublic_iff hpublic, hmade.isReadable_iff]
    · rw [hwritePublic.find?_of_ne hqPublic, hwrite.find?_of_ne hq]

/-- A run that does not fail leaves the files of the key that it makes.  The choices may be any with a
key of the kind that was asked for, and those that are drawn are. -/
theorem isPair_of_run (settings : Settings) (pair : NewPair) (passphrase : Option Bytes) (w : World)
    {after : FileSystem} :
    (∀ choices, (∀ k, choices.key = .ok k → (pair.spec settings).Makes k) →
      Program.outcome (runWith settings pair passphrase choices) w = (.ok (), after) →
      ∃ k, choices.key = .ok k ∧
        IsPair settings pair passphrase choices.check w.files after k) ∧
    (Program.outcome (run settings pair passphrase) w = (.ok (), after) →
      ∃ k, (Key.generate (pair.spec settings) w.entropy).1 = .ok k ∧
        IsPair settings pair passphrase (Choices.draw (pair.spec settings) w.entropy).1.check
          w.files after k) := by
  constructor
  · intro choices hmakes hrun
    have hends := ends_runWith settings pair passphrase choices w
    rw [hrun] at hends
    exact hends.isPair hmakes
  · intro hrun
    have hends := ends_run settings pair passphrase w
    rw [hrun] at hends
    exact hends.isPair fun k hkey => Key.makes_of_generate hkey

/-- An Ed25519 key for the file `k`, also in the place of an older one. -/
def renewal : NewPair where
  algorithm := .ed25519
  bits := none
  curve := none
  out := "k"
  comment := none
  force := true
  protect := false

/-- A world with files and nothing else. -/
def worldOf (files : FileSystem) : World :=
  ⟨files, ⟨[], 0⟩, none, [], ""⟩

/-- The key is made and has both texts. -/
theorem exists_texts_renewal (files : FileSystem) :
    ∃ k text publicText,
      (Choices.draw (renewal.spec {}) (worldOf files).entropy).1.key = .ok k ∧
      privateText {} renewal none (Choices.draw (renewal.spec {}) (worldOf files).entropy).1 k =
        .ok text ∧
      KeyFile.encodePublic k = .ok publicText := by
  rcases Key.exists_generate_ed25519 (worldOf files).entropy with ⟨k, hk⟩
  have hprotect : renewal.protect = false := rfl
  rcases exists_privateText (Key.makes_of_generate hk) hprotect {} none
    (Choices.draw (renewal.spec {}) (worldOf files).entropy).1 with ⟨text, htext⟩
  rcases exists_encodePublic htext with ⟨publicText, hpublic⟩
  exact ⟨k, text, publicText, hk, htext, hpublic⟩

/-- The pair is made where there are no files. -/
theorem isPair_of_run_renewal :
    ∃ k after, Program.outcome (run {} renewal none) (worldOf .empty) = (.ok (), after) ∧
      KeySpec.ed25519.Makes k ∧ KeyFile.readWith after "k" none = .ok k ∧
      KeyFile.readWith after "k.pub" none = .ok k.toPublic := by
  obtain ⟨after, hrun⟩ :
      ∃ after, Program.outcome (run {} renewal none) (worldOf .empty) = (.ok (), after) := by
    rcases exists_texts_renewal .empty with ⟨k, text, publicText, hkey, htext, hpublic⟩
    have hput : (worldOf .empty).files.putAs renewal.out (Text.toBytes text) Program.secretMode =
        (.ok (), ⟨[(["k"], .file (Text.toBytes text) Program.secretMode)], [], []⟩) := rfl
    refine ⟨⟨[(["k.pub"], .file (Text.toBytes publicText) Program.openMode),
      (["k"], .file (Text.toBytes text) Program.secretMode)], [], []⟩, ?_⟩
    rw [outcome_run_of_putAs (by simp [renewal]) hkey htext hpublic hput]
    rfl
  rcases (isPair_of_run {} renewal none (worldOf .empty)).2 hrun with ⟨k, -, hpair⟩
  have hcomment : (Text.toBytes (renewal.comment.getD ({} : Settings).comment)).length < 2 ^ 31 := by
    decide
  refine ⟨k, after, hrun, hpair.makes, ?_, ?_⟩
  · exact hpair.readWith_out_iff.mpr fun _ => hpair.fits hcomment
  · refine hpair.readWith_publicOut_iff.mpr fun bits hbits => ?_
    cases hbits

/-- A key with two primes and a modulus of 4104 bits. -/
def oversized : RsaKey where
  n := (2 ^ 2051 + 1) * (2 ^ 2052 + 1)
  e := 3
  secret := some ⟨(2 ^ 2053 + 1) / 3, [2 ^ 2051 + 1, 2 ^ 2052 + 1]⟩
  isPublic := by decide +kernel
  isConsistent := by
    rintro s ⟨rfl⟩
    exact ⟨by decide +kernel, RsaSecret.exists_crt_of_inverse? _ (by decide +kernel)⟩

/-- An RSA pair of this size. -/
def oversizedPair : NewPair :=
  { renewal with algorithm := .rsa, bits := some 4104 }

/-- The choice of the key. -/
def oversizedChoices : Choices :=
  ⟨.ok (.rsa oversized), .zero 16, .zero 16, 0⟩

/-- New RSA keys may have 4104 bits.  The run does not fail, and the public file is not read. -/
theorem exists_runWith_readWith_publicOut_ne :
    isRsaSize 4104 = true ∧ (oversizedPair.spec {}).Makes (.rsa oversized) ∧
      ∃ after, Program.outcome (runWith {} oversizedPair none oversizedChoices) (worldOf .empty) =
          (.ok (), after) ∧
        KeyFile.readWith after oversizedPair.publicOut none ≠ .ok (.rsa oversized.toPublic) := by
  have hbits : oversized.bits = 4104 := by decide +kernel
  have hkey : oversizedChoices.key = .ok (.rsa oversized) := rfl
  obtain ⟨text, htext⟩ :
      ∃ text, privateText {} oversizedPair none oversizedChoices (.rsa oversized) = .ok text :=
    exists_eq_ok (by decide +kernel)
  obtain ⟨publicText, hpublic⟩ : ∃ text, KeyFile.encodePublic (.rsa oversized) = .ok text :=
    exists_eq_ok (by decide +kernel)
  have hput : (worldOf .empty).files.putAs oversizedPair.out (Text.toBytes text)
      Program.secretMode =
        (.ok (), ⟨[(["k"], .file (Text.toBytes text) Program.secretMode)], [], []⟩) := rfl
  refine ⟨by decide, .rsa rfl rfl hbits,
    ⟨[(["k.pub"], .file (Text.toBytes publicText) Program.openMode),
      (["k"], .file (Text.toBytes text) Program.secretMode)], [], []⟩, ?_, fun hread => ?_⟩
  · rw [outcome_runWith_of_putAs (by simp [oversizedPair, renewal]) hkey htext hpublic hput]
    rfl
  · rw [readWith_of_holds ⟨Program.openMode, rfl⟩, KeyFile.decodeOptional] at hread
    have hreadable := (KeyFile.decode_encodePublic_iff hpublic).mp hread
    rw [Key.isReadable_rsa, hbits] at hreadable
    exact absurd hreadable (by decide)

/-! ### Failures -/

/-- What a run that fails leaves. -/
inductive Leftover (settings : Settings) (pair : NewPair) (passphrase : Option Bytes)
    (choices : Choices) (before : FileSystem) : Error → FileSystem → Prop
  /-- Nothing has changed. -/
  | unchanged (e : Error) : Leftover settings pair passphrase choices before e before
  /-- The private file holds the beginning of the new text, and no other path has changed. -/
  | secretBegun {k : Key} (hkey : choices.key = .ok k) {text : String}
      (htext : privateText settings pair passphrase choices k = .ok text) (f : FileFault)
      {after : FileSystem}
      (hsecret : after.HoldsBeginning (.ofString pair.out) (Text.toBytes text))
      (hothers : ∀ q, q ≠ .ofString pair.out → after.find? q = before.find? q) :
      Leftover settings pair passphrase choices before (.file f) after
  /-- The private file holds the new text, and no other path has changed, unless the public file has
  been begun. -/
  | secretDone {k : Key} (hkey : choices.key = .ok k) {text publicText : String}
      (htext : privateText settings pair passphrase choices k = .ok text)
      (hpublic : KeyFile.encodePublic k = .ok publicText) (f : FileFault) {after : FileSystem}
      (hsecret : after.Holds (.ofString pair.out) (Text.toBytes text))
      (hbegun : after.find? (.ofString pair.publicOut) = before.find? (.ofString pair.publicOut) ∨
        after.HoldsBeginning (.ofString pair.publicOut) (Text.toBytes publicText))
      (hothers : ∀ q, q ≠ .ofString pair.out → q ≠ .ofString pair.publicOut →
        after.find? q = before.find? q) :
      Leftover settings pair passphrase choices before (.file f) after

/-- A run that fails leaves what has been written. -/
theorem Ends.leftover {e : Error}
    (hends : Ends settings pair passphrase choices before (.error e, after)) :
    Leftover settings pair passphrase choices before e after := by
  cases hends with
  | taken hpath hforce hfound => exact .unchanged _
  | noKey hkey => exact .unchanged _
  | noText hkey htext => exact .unchanged _
  | secretBroken hkey htext hwrite =>
    rcases hwrite.of_error with ⟨⟨f, rfl⟩, rfl | hbegun⟩
    · exact .unchanged _
    · exact .secretBegun hkey htext f hbegun fun q => hwrite.find?_of_ne
  | @publicBroken k hkey text publicText htext hpublic _ between _ hwrite hwritePublic =>
    have hsecret := holds_out_of_write hwrite.holds_of_ok hwritePublic
    have hothers : ∀ q, q ≠ .ofString pair.out → q ≠ .ofString pair.publicOut →
        after.find? q = before.find? q := fun q hq hqPublic =>
      (hwritePublic.find?_of_ne hqPublic).trans (hwrite.find?_of_ne hq)
    rcases hwritePublic.of_error with ⟨⟨f, rfl⟩, rfl | hbegun⟩
    · exact .secretDone hkey htext hpublic f hsecret
        (.inl (hwrite.find?_of_ne (ofString_publicOut_ne pair))) hothers
    · exact .secretDone hkey htext hpublic f hsecret (.inr hbegun) hothers

/-- Whatever is not a fault of files comes before the writes. -/
theorem Leftover.eq_of_ne_file {e : Error}
    (h : Leftover settings pair passphrase choices before e after) (he : ∀ f, e ≠ .file f) :
    after = before := by
  cases h with
  | unchanged => rfl
  | secretBegun hkey htext f => exact absurd rfl (he f)
  | secretDone hkey htext hpublic f => exact absurd rfl (he f)

/-- A run whose private file cannot be opened changes nothing. -/
theorem Ends.eq_of_openFor_eq_error {r : Result Unit} {f : FileFault}
    (hends : Ends settings pair passphrase choices before (r, after))
    (hopen : before.openFor pair.out Program.secretMode = .error f) : after = before := by
  cases hends with
  | taken hpath hforce hfound => rfl
  | noKey hkey => rfl
  | noText hkey htext => rfl
  | secretBroken hkey htext hwrite => exact (hwrite.of_openFor_eq_error hopen).2
  | publicBroken hkey htext hpublic hwrite =>
    have hfailed := (hwrite.of_openFor_eq_error hopen).1
    cases hfailed
  | done hfree hkey htext hpublic hwrite =>
    have hfailed := (hwrite.of_openFor_eq_error hopen).1
    cases hfailed

/-- A run that fails leaves what the writes before the failure have left, which is nothing if the
error is not a fault of files, if the private file cannot be opened or if a path is taken. -/
theorem leftover_of_run (settings : Settings) (pair : NewPair) (passphrase : Option Bytes) (w : World)
    {e : Error} {after : FileSystem} :
    (∀ choices, Program.outcome (runWith settings pair passphrase choices) w = (.error e, after) →
      Leftover settings pair passphrase choices w.files e after) ∧
    (Program.outcome (run settings pair passphrase) w = (.error e, after) →
      Leftover settings pair passphrase (Choices.draw (pair.spec settings) w.entropy).1 w.files e
        after ∧
      ((∀ f, e ≠ .file f) → after = w.files) ∧
      (∀ f, w.files.openFor pair.out Program.secretMode = .error f → after = w.files) ∧
      (pair.force = false →
        w.files.contains pair.out = true ∨ w.files.contains pair.publicOut = true →
        after = w.files)) := by
  constructor
  · intro choices hrun
    have hends := ends_runWith settings pair passphrase choices w
    rw [hrun] at hends
    exact hends.leftover
  · intro hrun
    have hends := ends_run settings pair passphrase w
    rw [hrun] at hends
    refine ⟨hends.leftover, hends.leftover.eq_of_ne_file, fun f => hends.eq_of_openFor_eq_error,
      fun hforce htaken => ?_⟩
    rcases outcome_announce_bind_of_taken settings hforce htaken
      (fun _ => Program.draw (Choices.draw (pair.spec settings)) >>= finish settings pair passphrase)
      with ⟨path, -, -, houtcome⟩
    exact congrArg Prod.snd (hrun.symm.trans houtcome)

/-- An older private file, beside which no public file may be written. -/
def olderFiles : FileSystem :=
  ⟨[(["k"], .file [0] Program.secretMode)], [["k.pub"]], []⟩

/-- The older private file is replaced before the public file is refused. -/
theorem exists_outcome_renewal :
    ∃ k text after,
      privateText {} renewal none (Choices.draw (renewal.spec {}) (worldOf olderFiles).entropy).1 k =
        .ok text ∧
      Program.outcome (run {} renewal none) (worldOf olderFiles) =
        (.error (.file .notPermitted), after) ∧
      after.Holds (.ofString "k") (Text.toBytes text) := by
  rcases exists_texts_renewal olderFiles with ⟨k, text, publicText, hkey, htext, hpublic⟩
  have hput : (worldOf olderFiles).files.putAs renewal.out (Text.toBytes text) Program.secretMode =
      (.ok (), ⟨[(["k"], .file (Text.toBytes text) Program.secretMode)], [["k.pub"]], []⟩) := rfl
  refine ⟨k, text, ⟨[(["k"], .file (Text.toBytes text) Program.secretMode)], [["k.pub"]], []⟩,
    htext, ?_, Program.secretMode, rfl⟩
  exact outcome_run_of_putAs (by simp [renewal]) hkey htext hpublic hput

/-- The pair is made where the older private file is and no public file may be written. -/
theorem leftover_of_run_renewal :
    ∃ after, Program.outcome (run {} renewal none) (worldOf olderFiles) =
        (.error (.file .notPermitted), after) ∧
      Leftover {} renewal none (Choices.draw (renewal.spec {}) (worldOf olderFiles).entropy).1
        olderFiles (.file .notPermitted) after := by
  rcases exists_outcome_renewal with ⟨k, text, after, -, hrun, -⟩
  exact ⟨after, hrun, ((leftover_of_run {} renewal none (worldOf olderFiles)).2 hrun).1⟩

/-- The run fails, and the older private file is lost. -/
theorem exists_run_error_read_ne :
    ∃ e after, Program.outcome (run {} renewal none) (worldOf olderFiles) = (.error e, after) ∧
      (worldOf olderFiles).files.read renewal.out = .ok [0] ∧
      after.read renewal.out ≠ .ok [0] := by
  rcases exists_outcome_renewal with ⟨k, text, after, htext, hrun, hheld⟩
  refine ⟨_, after, hrun, rfl, fun hread => ?_⟩
  rw [renewal, hheld.read, Except.ok.injEq] at hread
  have hdecode : KeyFile.decode (Text.toBytes text) = .ok k :=
    (decodeOptional_privateText_iff htext).mpr fun _ => fits_container (by decide)
  rw [hread] at hdecode
  cases hdecode

end KeySmith.Command.NewPair

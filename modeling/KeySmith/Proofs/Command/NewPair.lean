import KeySmith.Command.KeyPair
import KeySmith.Proofs.Command.Program
import KeySmith.Proofs.NewKey
import KeySmith.Proofs.ProtectedFile

/-!
# Making key pairs

A pair is made in five steps: the paths are looked at, the key is made, its private text is put
together, the private file is written and the public file is written.  Nothing is taken back, so what
a failed run leaves depends on the step that failed: before the writes nothing has changed, and
after them the private file is a new one.  A public text can always be put together if a private one
can.
-/

namespace KeySmith.Command.NewPair

open FileSystem (Write)

variable {settings : Settings} {pair : NewPair} {passphrase : Option Bytes} {choices : Choices}
  {k : Key} {w : World}

/-! ### Texts -/

/-- A key with a private text is not too large for any public text. -/
theorem bits_le_of_privateText {text : String}
    (h : privateText settings pair passphrase choices k = .ok text) :
    ∀ r, k = .rsa r → r.bits ≤ 2 ^ 30 := by
  rintro r rfl
  unfold privateText at h
  split at h
  · simp only [KeyFile.encodeEncrypted, guard_eq_ok_iff, bind_eq_ok_iff] at h
    rcases h with ⟨-, info, hinfo, -⟩
    exact Der.Pkcs8.bits_le_of_encode hinfo r rfl
  · cases h
  · simp only [KeyFile.encodeCommented, KeyFile.encodePrivate, KeyFile.encodeRsaPrivate,
      Key.toRsa, ok_bind, Der.Pkcs1.encodePrivate, guard_eq_ok_iff, bind_eq_ok_iff,
      Result.of_eq_ok_iff, Result.ofOption_eq_ok_iff, Der.document?_eq_some_iff] at h
    rcases h with ⟨-, ⟨-, body, hbody, hlimit, -⟩, -⟩
    exact Der.Pkcs1.bits_le_of_privateBytes hbody hlimit

/-- A key with a private text has a description. -/
theorem exists_encode {text : String}
    (h : privateText settings pair passphrase choices k = .ok text) :
    ∃ description, Der.Spki.encode k = .ok description :=
  (Der.Spki.exists_encode_iff k).mpr (Der.Spki.length_publicBytes_lt (bits_le_of_privateText h))

/-- A key with a private text has a public text. -/
theorem exists_encodePublic {text : String}
    (h : privateText settings pair passphrase choices k = .ok text) :
    ∃ publicText, KeyFile.encodePublic k = .ok publicText := by
  rcases exists_encode h with ⟨description, hdescription⟩
  refine ⟨KeyFile.armor .publicInfo description, ?_⟩
  rw [KeyFile.encodePublic, hdescription, ok_bind, pure_eq_ok_iff]

/-- A key with a private text has an identifier. -/
theorem exists_id {text : String}
    (h : privateText settings pair passphrase choices k = .ok text) : ∃ id, k.id = .ok id := by
  rcases exists_encode h with ⟨description, hdescription⟩
  refine ⟨Hex.encode ((Hash.sha256.digest description).bytes.take 16), ?_⟩
  rw [Key.id, hdescription, ok_bind, pure_eq_ok_iff]

/-- An Ed25519 key has a private text without a passphrase. -/
theorem exists_privateText (hk : KeySpec.ed25519.Makes k) (hprotect : pair.protect = false)
    (settings : Settings) (passphrase : Option Bytes) (choices : Choices) :
    ∃ text, privateText settings pair passphrase choices k = .ok text := by
  cases hk with
  | @ed25519 k hseed =>
    have hprimes : (Key.ed25519 k).IsTwoPrime := by
      rintro r s hr
      cases hr
    rcases Ssh.Container.exists_encode
      ⟨.ed25519 k, pair.comment.getD settings.comment, choices.check⟩ hseed hprimes with ⟨bs, hbs⟩
    refine ⟨KeyFile.armor .opensshPrivate bs, ?_⟩
    simp only [privateText, hprotect, KeyFile.encodeCommented, KeyFile.encodeOpensshPrivate, hbs,
      ok_bind, pure_eq_ok_iff]

/-! ### Steps -/

/-- With free paths, if they have to be free, the announcement only prints. -/
theorem outcome_announce_bind (settings : Settings)
    (hfree : pair.force = false →
      w.files.contains pair.out = false ∧ w.files.contains pair.publicOut = false)
    (rest : Unit → Program Unit) :
    ∃ output, Program.outcome (announce settings pair >>= rest) w =
      Program.outcome (rest ()) { w with output } := by
  unfold announce
  rcases hforce : pair.force with _ | _
  · simp only [Bool.not_false, if_true, bind_assoc]
    rw [Program.outcome_refuseTaken_bind_of_free (hfree hforce).1,
      Program.outcome_refuseTaken_bind_of_free (hfree hforce).2, Program.outcome_printLine_bind]
    exact ⟨_, rfl⟩
  · simp only [Bool.not_true, Bool.false_eq_true, if_false]
    rw [Program.outcome_printLine_bind]
    exact ⟨_, rfl⟩

/-- With a taken path, if both have to be free, nothing comes behind the announcement. -/
theorem outcome_announce_bind_of_taken (settings : Settings) (hforce : pair.force = false)
    (htaken : w.files.contains pair.out = true ∨ w.files.contains pair.publicOut = true)
    (rest : Unit → Program Unit) :
    ∃ path, (path = pair.out ∨ path = pair.publicOut) ∧ w.files.contains path = true ∧
      Program.outcome (announce settings pair >>= rest) w =
        (.error (.file (.taken path)), w.files) := by
  unfold announce
  simp only [hforce, Bool.not_false, if_true, bind_assoc]
  rcases hout : w.files.contains pair.out with _ | _
  · have hpublic := htaken.resolve_left (by rw [hout]; exact Bool.false_ne_true)
    refine ⟨_, .inr rfl, hpublic, ?_⟩
    rw [Program.outcome_refuseTaken_bind_of_free hout,
      Program.outcome_refuseTaken_bind_of_contains hpublic]
  · exact ⟨_, .inl rfl, hout, Program.outcome_refuseTaken_bind_of_contains hout⟩

/-- Behind the private file the public file is all that is left to be written. -/
theorem outcome_finish_of_putAs {text publicText : String} {between : FileSystem}
    (hkey : choices.key = .ok k)
    (htext : privateText settings pair passphrase choices k = .ok text)
    (hpublic : KeyFile.encodePublic k = .ok publicText)
    (hput : w.files.putAs pair.out (Text.toBytes text) Program.secretMode = (.ok (), between)) :
    Program.outcome (finish settings pair passphrase choices) w =
      between.put pair.publicOut (Text.toBytes publicText) Program.openMode := by
  unfold finish
  rw [Program.outcome_liftM_bind_of_ok hkey, Program.outcome_liftM_bind_of_ok htext,
    Program.writeSecret, Program.outcome_keepFiles_bind_of_ok hput,
    Program.outcome_liftM_bind_of_ok hpublic, Program.writeOpen]
  rcases hputPublic : between.put pair.publicOut (Text.toBytes publicText) Program.openMode
    with ⟨e | ⟨⟩, after⟩
  · rw [Program.outcome_keepFiles_bind_of_error hputPublic]
  · rcases exists_id htext with ⟨id, hid⟩
    rw [Program.outcome_keepFiles_bind_of_ok hputPublic, Program.outcome_printLine_bind,
      Program.outcome_printLine_bind, Program.outcome_liftM_bind_of_ok hid,
      Program.outcome_printLine]

/-! ### Runs -/

section Written

variable {text publicText : String} {between : FileSystem}

/-- Where the private file can be written, a run with choices ends with the public file. -/
theorem outcome_runWith_of_putAs (hfree : pair.force = false →
      w.files.contains pair.out = false ∧ w.files.contains pair.publicOut = false)
    (hkey : choices.key = .ok k)
    (htext : privateText settings pair passphrase choices k = .ok text)
    (hpublic : KeyFile.encodePublic k = .ok publicText)
    (hput : w.files.putAs pair.out (Text.toBytes text) Program.secretMode = (.ok (), between)) :
    Program.outcome (runWith settings pair passphrase choices) w =
      between.put pair.publicOut (Text.toBytes publicText) Program.openMode := by
  rcases outcome_announce_bind settings hfree
    (fun _ => finish settings pair passphrase choices) with ⟨output, houtput⟩
  rw [runWith, houtput]
  exact outcome_finish_of_putAs (w := { w with output }) hkey htext hpublic hput

/-- Where the private file can be written, a run ends with the public file. -/
theorem outcome_run_of_putAs (hfree : pair.force = false →
      w.files.contains pair.out = false ∧ w.files.contains pair.publicOut = false)
    (hkey : (Choices.draw (pair.spec settings) w.entropy).1.key = .ok k)
    (htext : privateText settings pair passphrase
      (Choices.draw (pair.spec settings) w.entropy).1 k = .ok text)
    (hpublic : KeyFile.encodePublic k = .ok publicText)
    (hput : w.files.putAs pair.out (Text.toBytes text) Program.secretMode = (.ok (), between)) :
    Program.outcome (run settings pair passphrase) w =
      between.put pair.publicOut (Text.toBytes publicText) Program.openMode := by
  rcases outcome_announce_bind settings hfree (fun _ =>
      Program.draw (Choices.draw (pair.spec settings)) >>= finish settings pair passphrase) with
    ⟨output, houtput⟩
  rw [run, houtput, Program.outcome_draw_bind]
  exact outcome_finish_of_putAs (w := { w with
    output, entropy := (Choices.draw (pair.spec settings) w.entropy).2 }) hkey htext hpublic hput

end Written

/-- How a run ends, with the files that it leaves. -/
inductive Ends (settings : Settings) (pair : NewPair) (passphrase : Option Bytes)
    (choices : Choices) (before : FileSystem) : Result Unit × FileSystem → Prop
  /-- One of the paths is taken. -/
  | taken {path : String} (hpath : path = pair.out ∨ path = pair.publicOut)
      (hforce : pair.force = false) (hfound : before.contains path = true) :
      Ends settings pair passphrase choices before (.error (.file (.taken path)), before)
  /-- There is no key. -/
  | noKey {e : Error} (hkey : choices.key = .error e) :
      Ends settings pair passphrase choices before (.error e, before)
  /-- There is no private text. -/
  | noText {k : Key} (hkey : choices.key = .ok k) {e : Error}
      (htext : privateText settings pair passphrase choices k = .error e) :
      Ends settings pair passphrase choices before (.error e, before)
  /-- The private file is not written to the end. -/
  | secretBroken {k : Key} (hkey : choices.key = .ok k) {text : String}
      (htext : privateText settings pair passphrase choices k = .ok text) {e : Error}
      {after : FileSystem}
      (hwrite : Write before pair.out Program.secretMode (Text.toBytes text) (.error e, after)) :
      Ends settings pair passphrase choices before (.error e, after)
  /-- The public file is not written to the end. -/
  | publicBroken {k : Key} (hkey : choices.key = .ok k) {text publicText : String}
      (htext : privateText settings pair passphrase choices k = .ok text)
      (hpublic : KeyFile.encodePublic k = .ok publicText) {e : Error} {between after : FileSystem}
      (hwrite : Write before pair.out Program.secretMode (Text.toBytes text) (.ok (), between))
      (hwritePublic : Write between pair.publicOut Program.openMode (Text.toBytes publicText)
        (.error e, after)) :
      Ends settings pair passphrase choices before (.error e, after)
  | done (hfree : pair.force = false →
        before.contains pair.out = false ∧ before.contains pair.publicOut = false)
      {k : Key} (hkey : choices.key = .ok k) {text publicText : String}
      (htext : privateText settings pair passphrase choices k = .ok text)
      (hpublic : KeyFile.encodePublic k = .ok publicText) {between after : FileSystem}
      (hwrite : Write before pair.out Program.secretMode (Text.toBytes text) (.ok (), between))
      (hwritePublic : Write between pair.publicOut Program.openMode (Text.toBytes publicText)
        (.ok (), after)) :
      Ends settings pair passphrase choices before (.ok (), after)

/-- Behind the announcement, with free paths if they have to be free, a run ends in one of the other
ways. -/
theorem ends_finish (hfree : pair.force = false →
      w.files.contains pair.out = false ∧ w.files.contains pair.publicOut = false) :
    Ends settings pair passphrase choices w.files
      (Program.outcome (finish settings pair passphrase choices) w) := by
  rcases hkey : choices.key with e | k
  · rw [finish, Program.outcome_liftM_bind_of_error hkey]
    exact .noKey hkey
  rcases htext : privateText settings pair passphrase choices k with e | text
  · rw [finish, Program.outcome_liftM_bind_of_ok hkey, Program.outcome_liftM_bind_of_error htext]
    exact .noText hkey htext
  have hwrite := FileSystem.write_putAs w.files pair.out (Text.toBytes text) Program.secretMode
  rcases hput : w.files.putAs pair.out (Text.toBytes text) Program.secretMode with ⟨e | ⟨⟩, between⟩
  · rw [finish, Program.outcome_liftM_bind_of_ok hkey, Program.outcome_liftM_bind_of_ok htext,
      Program.writeSecret, Program.outcome_keepFiles_bind_of_error hput]
    exact .secretBroken hkey htext (hput ▸ hwrite)
  rcases exists_encodePublic htext with ⟨publicText, hpublic⟩
  have hwritePublic :=
    FileSystem.write_put between pair.publicOut (Text.toBytes publicText) Program.openMode
  rw [outcome_finish_of_putAs hkey htext hpublic hput]
  rcases hputPublic : between.put pair.publicOut (Text.toBytes publicText) Program.openMode
    with ⟨e | ⟨⟩, after⟩
  · exact .publicBroken hkey htext hpublic (hput ▸ hwrite) (hputPublic ▸ hwritePublic)
  · exact .done hfree hkey htext hpublic (hput ▸ hwrite) (hputPublic ▸ hwritePublic)

/-- What follows the announcement decides how a run ends, unless a path is taken. -/
theorem ends_announce_bind {rest : Unit → Program Unit}
    (hrest : ∀ output, (pair.force = false →
        w.files.contains pair.out = false ∧ w.files.contains pair.publicOut = false) →
      Ends settings pair passphrase choices w.files
        (Program.outcome (rest ()) { w with output })) :
    Ends settings pair passphrase choices w.files
      (Program.outcome (announce settings pair >>= rest) w) := by
  by_cases hfree : pair.force = false →
      w.files.contains pair.out = false ∧ w.files.contains pair.publicOut = false
  · rcases outcome_announce_bind settings hfree rest with ⟨output, houtput⟩
    rw [houtput]
    exact hrest output hfree
  · rw [Classical.not_imp, not_and_or, Bool.not_eq_false, Bool.not_eq_false] at hfree
    rcases outcome_announce_bind_of_taken settings hfree.1 hfree.2 rest with
      ⟨path, hpath, hfound, houtcome⟩
    rw [houtcome]
    exact .taken hpath hfree.1 hfound

/-- A run with choices ends in one of the ways. -/
theorem ends_runWith (settings : Settings) (pair : NewPair) (passphrase : Option Bytes)
    (choices : Choices) (w : World) :
    Ends settings pair passphrase choices w.files
      (Program.outcome (runWith settings pair passphrase choices) w) :=
  ends_announce_bind fun output hfree => ends_finish (w := { w with output }) hfree

/-- A run ends in one of the ways with the choices that it draws. -/
theorem ends_run (settings : Settings) (pair : NewPair) (passphrase : Option Bytes) (w : World) :
    Ends settings pair passphrase (Choices.draw (pair.spec settings) w.entropy).1 w.files
      (Program.outcome (run settings pair passphrase) w) := by
  refine ends_announce_bind fun output hfree => ?_
  rw [Program.outcome_draw_bind]
  exact ends_finish (w := { w with
    output, entropy := (Choices.draw (pair.spec settings) w.entropy).2 }) hfree

end KeySmith.Command.NewPair

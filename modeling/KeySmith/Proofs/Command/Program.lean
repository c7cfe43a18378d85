import KeySmith.Command.Program
import KeySmith.Proofs.FileSystem

/-!
# Outcomes of programs

What matters of a run is its result and the files that it leaves.  A program is followed part by part:
what is computed leaves the files alone, what is printed does so too, and what is written is the only
thing that changes them.  A part that fails is the last one.  A program of silent parts is silent, which
is what is left to say of output.
-/

namespace KeySmith.Program

variable {α β : Type} {w between : World} {m : Program α} {f : α → Program β}

theorem run_bind_of_ok {a : α} (h : m.run w = (.ok a, between)) :
    (m >>= f).run w = (f a).run between := by
  change (m >>= f) w = f a between
  change m w = _ at h
  simp only [bind, ExceptT.bind, ExceptT.mk, StateT.bind, h, ExceptT.bindCont]

theorem run_bind_of_error {e : Error} (h : m.run w = (.error e, between)) :
    (m >>= f).run w = (.error e, between) := by
  change (m >>= f) w = _
  change m w = _ at h
  simp only [bind, ExceptT.bind, ExceptT.mk, StateT.bind, h, ExceptT.bindCont]
  rfl

/-- A program with two parts gives a result when both parts do. -/
theorem run_bind_eq_ok_iff {b : β} {after : World} :
    (m >>= f).run w = (.ok b, after) ↔
      ∃ a between, m.run w = (.ok a, between) ∧ (f a).run between = (.ok b, after) := by
  constructor
  · intro h
    rcases hrun : m.run w with ⟨e | a, between⟩
    · rw [run_bind_of_error hrun] at h
      cases h
    · rw [run_bind_of_ok hrun] at h
      exact ⟨a, between, rfl, h⟩
  · rintro ⟨a, between, hrun, h⟩
    rw [run_bind_of_ok hrun]
    exact h

theorem run_liftM (r : Result α) (w : World) : (liftM r : Program α).run w = (r, w) := by
  cases r with
  | error e => rfl
  | ok a => rfl

/-- The result of a program and the files that it leaves. -/
def outcome (m : Program α) (w : World) : Result α × FileSystem :=
  ((m.run w).1, (m.run w).2.files)

/-! ### Computing -/

theorem outcome_liftM_bind_of_ok {r : Result α} {a : α} (h : r = .ok a) :
    outcome (liftM r >>= f) w = outcome (f a) w := by
  have hrun : (liftM r : Program α).run w = (.ok a, w) := by rw [run_liftM, h]
  rw [outcome, run_bind_of_ok hrun, outcome]

theorem outcome_liftM_bind_of_error {r : Result α} {e : Error} (h : r = .error e) :
    outcome (liftM r >>= f) w = (.error e, w.files) := by
  have hrun : (liftM r : Program α).run w = (.error e, w) := by rw [run_liftM, h]
  rw [outcome, run_bind_of_error hrun]

theorem outcome_draw_bind (d : Draw α) :
    outcome (draw d >>= f) w =
      outcome (f (d w.entropy).1) { w with entropy := (d w.entropy).2 } := by
  have hrun : (draw d).run w = (.ok (d w.entropy).1, { w with entropy := (d w.entropy).2 }) := rfl
  rw [outcome, run_bind_of_ok hrun, outcome]

/-! ### Printing -/

theorem outcome_printLine (line : String) : outcome (printLine line) w = (.ok (), w.files) :=
  rfl

theorem outcome_printLine_bind (line : String) {f : Unit → Program β} :
    outcome (printLine line >>= f) w =
      outcome (f ()) { w with output := w.output ++ (line ++ "\n") } := by
  have hrun : (printLine line).run w =
      (.ok (), { w with output := w.output ++ (line ++ "\n") }) := rfl
  rw [outcome, run_bind_of_ok hrun, outcome]

/-! ### Looking at files -/

theorem run_refuseTaken (path : String) (w : World) :
    (refuseTaken path).run w =
      (if w.files.contains path then .error (.file (.taken path)) else .ok (), w) := by
  have htaken : (taken path).run w = (.ok (w.files.contains path), w) := rfl
  rw [refuseTaken, run_bind_of_ok htaken]
  split
  · rfl
  · rfl

theorem outcome_refuseTaken_bind_of_free {path : String} (h : w.files.contains path = false)
    {f : Unit → Program β} : outcome (refuseTaken path >>= f) w = outcome (f ()) w := by
  have hrun : (refuseTaken path).run w = (.ok (), w) := by
    rw [run_refuseTaken, h]
    rfl
  rw [outcome, run_bind_of_ok hrun, outcome]

theorem outcome_refuseTaken_bind_of_contains {path : String} (h : w.files.contains path = true)
    {f : Unit → Program β} :
    outcome (refuseTaken path >>= f) w = (.error (.file (.taken path)), w.files) := by
  have hrun : (refuseTaken path).run w = (.error (.file (.taken path)), w) := by
    rw [run_refuseTaken, if_pos h]
  rw [outcome, run_bind_of_error hrun]

/-! ### Writing -/

variable {write : FileSystem → Result Unit × FileSystem} {after : FileSystem}

theorem outcome_keepFiles_bind_of_ok (h : write w.files = (.ok (), after))
    {f : Unit → Program β} :
    outcome (keepFiles write >>= f) w = outcome (f ()) { w with files := after } := by
  have hrun : (keepFiles write).run w = (.ok (), { w with files := after }) := by
    change ((write w.files).1, { w with files := (write w.files).2 }) = _
    rw [h]
  rw [outcome, run_bind_of_ok hrun, outcome]

theorem outcome_keepFiles_bind_of_error {e : Error} (h : write w.files = (.error e, after))
    {f : Unit → Program β} : outcome (keepFiles write >>= f) w = (.error e, after) := by
  have hrun : (keepFiles write).run w = (.error e, { w with files := after }) := by
    change ((write w.files).1, { w with files := (write w.files).2 }) = _
    rw [h]
  rw [outcome, run_bind_of_error hrun]

/-! ### Silence -/

/-- Whether a program prints nothing and changes no file, also where it fails. -/
def IsQuiet (m : Program α) : Prop :=
  ∀ w, (m.run w).2.output = w.output ∧ (m.run w).2.files = w.files

/-- Quiet programs make a quiet program. -/
theorem IsQuiet.bind (hm : IsQuiet m) (hf : ∀ a, IsQuiet (f a)) : IsQuiet (m >>= f) := by
  intro w
  have hquiet := hm w
  rcases hrun : m.run w with ⟨e | a, between⟩
  · rw [hrun] at hquiet
    rw [run_bind_of_error hrun]
    exact hquiet
  · rw [hrun] at hquiet
    rw [run_bind_of_ok hrun]
    obtain ⟨houtput, hfiles⟩ := hf a between
    exact ⟨houtput.trans hquiet.1, hfiles.trans hquiet.2⟩

/-- What is computed is quiet. -/
theorem isQuiet_liftM (r : Result α) : IsQuiet (liftM r : Program α) := by
  intro w
  rw [run_liftM]
  exact ⟨rfl, rfl⟩

theorem isQuiet_draw (d : Draw α) : IsQuiet (draw d) :=
  fun _ => ⟨rfl, rfl⟩

theorem isQuiet_readFile (path : String) : IsQuiet (readFile path) := by
  intro w
  change ((liftM (w.files.read path) : Program Bytes).run w).2.output = w.output ∧
    ((liftM (w.files.read path) : Program Bytes).run w).2.files = w.files
  exact isQuiet_liftM _ w

end KeySmith.Program

import KeySmith.Command.Passphrase
import KeySmith.Proofs.Command.Program
import KeySmith.Proofs.Text

/-!
# Choosing a passphrase

A person is asked again until an answer is long enough and is repeated by the next one, so every
passphrase that is typed has the least length (`Chosen.shortest_le_length`).  A passphrase of the
environment comes out as it is, and this is the only way for a shorter one (`shortest_le_iff`).  The
question changes no files.
-/

namespace KeySmith.Passphrase

variable {w asked : World}

/-! ### Answers -/

/-- Which answers lead to a passphrase, with the answers that are left. -/
inductive Chosen : (answers : List String) → (p : String) → (left : List String) → Prop
  /-- An answer that is too short is passed over. -/
  | afterShort {first p : String} {answers left : List String} (hshort : first.length < shortest)
      (h : Chosen answers p left) : Chosen (first :: answers) p left
  /-- Two answers that differ are passed over. -/
  | afterDifferent {first second p : String} {answers left : List String}
      (hlong : shortest ≤ first.length) (hne : first ≠ second) (h : Chosen answers p left) :
      Chosen (first :: second :: answers) p left
  /-- A long enough answer that is repeated is taken. -/
  | repeated {p : String} {left : List String} (hlong : shortest ≤ p.length) :
      Chosen (p :: p :: left) p left

variable {answers left : List String} {first second p : String}

/-- A passphrase that is typed is long enough. -/
theorem Chosen.shortest_le_length (h : Chosen answers p left) : shortest ≤ p.length := by
  induction h with
  | afterShort hshort h ih => exact ih
  | afterDifferent hlong hne h ih => exact ih
  | repeated hlong => exact hlong

/-! ### Asking -/

theorem run_choose_of_short (h : first.length < shortest) (answers : List String) (w : World) :
    (choose (first :: answers)).run w =
      (choose answers).run { w with answers, output := w.output ++ (tooShort ++ "\n") } := by
  cases answers with
  | nil =>
    rw [choose.eq_2, if_pos h]
    rfl
  | cons second answers =>
    rw [choose.eq_3, if_pos h]
    rfl

theorem run_choose_of_long (h : shortest ≤ first.length) (w : World) :
    (choose [first]).run w = (.error (.file .noTerminal), { w with answers := [] }) := by
  rw [choose.eq_2, if_neg (Nat.not_lt.mpr h)]
  rfl

theorem run_choose_of_ne (h : shortest ≤ first.length) (hne : first ≠ second)
    (answers : List String) (w : World) :
    (choose (first :: second :: answers)).run w =
      (choose answers).run { w with answers, output := w.output ++ (different ++ "\n") } := by
  rw [choose.eq_3, if_neg (Nat.not_lt.mpr h), if_neg hne]
  rfl

theorem run_choose_of_repeated (h : shortest ≤ p.length) (left : List String) (w : World) :
    (choose (p :: p :: left)).run w = (.ok p, { w with answers := left }) := by
  rw [choose.eq_3, if_neg (Nat.not_lt.mpr h), if_pos rfl]
  rfl

/-- Answers that lead to a passphrase give it. -/
theorem Chosen.exists_run_choose (h : Chosen answers p left) (w : World) :
    ∃ output, (choose answers).run w = (.ok p, { w with answers := left, output }) := by
  induction h generalizing w with
  | afterShort hshort h ih =>
    rw [run_choose_of_short hshort]
    exact ih _
  | afterDifferent hlong hne h ih =>
    rw [run_choose_of_ne hlong hne]
    exact ih _
  | repeated hlong => exact ⟨w.output, run_choose_of_repeated hlong _ w⟩

/-- Where the answers lead to no passphrase, they come to an end. -/
theorem exists_chosen_or_run_choose (answers : List String) (w : World) :
    (∃ p left, Chosen answers p left) ∨
      ∃ left output, (choose answers).run w =
        (.error (.file .noTerminal), { w with answers := left, output }) := by
  induction answers using choose.induct generalizing w with
  | case1 => exact .inr ⟨w.answers, w.output, rfl⟩
  | case2 first answers ih ihPair =>
    by_cases hshort : first.length < shortest
    · rcases ih { w with answers, output := w.output ++ (tooShort ++ "\n") } with
        ⟨p, left, h⟩ | hend
      · exact .inl ⟨p, left, .afterShort hshort h⟩
      · rw [run_choose_of_short hshort]
        exact .inr hend
    · have hlong : shortest ≤ first.length := Nat.not_lt.mp hshort
      cases answers with
      | nil => exact .inr ⟨[], w.output, run_choose_of_long hlong w⟩
      | cons second answers =>
        by_cases hsame : first = second
        · subst hsame
          exact .inl ⟨first, answers, .repeated hlong⟩
        · rcases ihPair { w with answers, output := w.output ++ (different ++ "\n") } with
            ⟨p, left, h⟩ | hend
          · exact .inl ⟨p, left, .afterDifferent hlong hsame h⟩
          · rw [run_choose_of_ne hlong hsame]
            exact .inr hend

/-! ### New passphrases -/

theorem run_given? (w : World) : given?.run w = (.ok (w.passphrase.filter (· != "")), w) :=
  rfl

/-- Whether the environment gives a passphrase, which an empty one is not. -/
def Given (w : World) (p : String) : Prop :=
  w.passphrase = some p ∧ p ≠ ""

/-- Whether a passphrase comes out of the question for a new one: the environment gives it, or the
environment gives none and a person chooses it. -/
def IsNew (w : World) (p : String) : Prop :=
  Given w p ∨ (∀ q, ¬ Given w q) ∧ ∃ left, Chosen w.answers p left

theorem filter_passphrase_eq_some_iff :
    w.passphrase.filter (· != "") = some p ↔ Given w p := by
  rw [Option.filter_eq_some_iff, bne_iff_ne]
  exact Iff.rfl

theorem run_forNew_of_given (h : Given w p) : forNew.run w = (.ok p, w) := by
  rw [forNew, Program.run_bind_of_ok (run_given? w), filter_passphrase_eq_some_iff.mpr h]
  rfl

theorem run_forNew_of_not_given (h : ∀ p, ¬ Given w p) :
    forNew.run w =
      (choose w.answers).run { w with output := w.output ++ (introduction ++ "\n") } := by
  have hnone : w.passphrase.filter (· != "") = none :=
    Option.eq_none_iff_forall_ne_some.mpr fun p hp => h p (filter_passphrase_eq_some_iff.mp hp)
  rw [forNew, Program.run_bind_of_ok (run_given? w), hnone]
  rfl

/-- How the question for a new passphrase ends: a passphrase comes out, or there is none and the
answers come to an end.  Nothing changes but the answers and what has been printed. -/
theorem run_forNew_cases (w : World) :
    (∃ p left output, IsNew w p ∧ forNew.run w = (.ok p, { w with answers := left, output })) ∨
      ∃ left output,
        forNew.run w = (.error (.file .noTerminal), { w with answers := left, output }) := by
  by_cases hgiven : ∃ p, Given w p
  · obtain ⟨p, hp⟩ := hgiven
    exact .inl ⟨p, w.answers, w.output, .inl hp, run_forNew_of_given hp⟩
  · have hnone : ∀ p, ¬ Given w p := fun p hp => hgiven ⟨p, hp⟩
    rw [run_forNew_of_not_given hnone]
    rcases exists_chosen_or_run_choose w.answers
      { w with output := w.output ++ (introduction ++ "\n") } with ⟨p, left, h⟩ | hend
    · obtain ⟨output, hrun⟩ :=
        h.exists_run_choose { w with output := w.output ++ (introduction ++ "\n") }
      exact .inl ⟨p, left, output, .inr ⟨hnone, left, h⟩, hrun⟩
    · exact .inr hend

/-- A passphrase that the question gives is one that comes out of it, and the files are as before. -/
theorem isNew_of_run_forNew (h : forNew.run w = (.ok p, asked)) :
    IsNew w p ∧ asked.files = w.files := by
  rcases run_forNew_cases w with ⟨q, left, output, hq, hrun⟩ | ⟨left, output, hrun⟩
  · rw [hrun] at h
    cases h
    exact ⟨hq, rfl⟩
  · rw [hrun] at h
    cases h

/-- No passphrase that comes out of the question is empty. -/
theorem IsNew.toBytes_ne_nil (h : IsNew w p) : Text.toBytes p ≠ [] := by
  intro hbytes
  obtain rfl : p = "" := Text.toBytes_injective hbytes
  rcases h with ⟨-, hne⟩ | ⟨-, left, hchosen⟩
  · exact hne rfl
  · exact absurd hchosen.shortest_le_length (by decide)

/-- A question without a passphrase fails for want of answers, and the files are as before. -/
theorem eq_noTerminal_of_run_forNew {e : Error} (h : forNew.run w = (.error e, asked)) :
    e = .file .noTerminal ∧ asked.files = w.files := by
  rcases run_forNew_cases w with ⟨q, left, output, -, hrun⟩ | ⟨left, output, hrun⟩
  · rw [hrun] at h
    cases h
  · rw [hrun] at h
    cases h
    exact ⟨rfl, rfl⟩

/-- The question gives exactly the passphrases that come out of it. -/
theorem exists_run_forNew_iff : (∃ asked, forNew.run w = (.ok p, asked)) ↔ IsNew w p := by
  constructor
  · rintro ⟨asked, h⟩
    exact (isNew_of_run_forNew h).1
  · rintro (hgiven | ⟨hnone, left, h⟩)
    · exact ⟨w, run_forNew_of_given hgiven⟩
    · obtain ⟨output, hrun⟩ :=
        h.exists_run_choose { w with output := w.output ++ (introduction ++ "\n") }
      exact ⟨_, (run_forNew_of_not_given hnone).trans hrun⟩

/-- Only the environment gives passphrases that are too short. -/
theorem shortest_le_iff :
    (∀ p, IsNew w p → shortest ≤ p.length) ↔ ∀ p, Given w p → shortest ≤ p.length := by
  constructor
  · intro h p hp
    exact h p (.inl hp)
  · rintro h p (hgiven | ⟨-, left, hchosen⟩)
    · exact h p hgiven
    · exact hchosen.shortest_le_length

theorem run_forOld_of_given (h : Given w p) : forOld.run w = (.ok p, w) := by
  rw [forOld, Program.run_bind_of_ok (run_given? w), filter_passphrase_eq_some_iff.mpr h]
  rfl

/-- The question for a passphrase that is there prints nothing. -/
theorem isQuiet_forOld : Program.IsQuiet forOld := by
  intro w
  have hworld : (get : Program World).run w = (.ok w, w) := rfl
  rw [forOld, Program.run_bind_of_ok (run_given? w)]
  cases w.passphrase.filter (· != "") with
  | some p => exact ⟨rfl, rfl⟩
  | none =>
    simp only
    rw [Program.run_bind_of_ok hworld]
    cases w.answers with
    | nil => exact ⟨rfl, rfl⟩
    | cons answer rest => exact ⟨rfl, rfl⟩

end KeySmith.Passphrase

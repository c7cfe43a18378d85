import KeySmith.Error

/-!
# Outcomes of steps that may fail

A sequence of steps succeeds exactly when each of its steps does, with the values handed on.  The
lemmas here say so for plain results and for readers, which also hand on the octets that are left,
so that a successful run can be taken apart step by step, and put together again.
-/

namespace KeySmith

variable {ε α β : Type}

/-! ### Results -/

/-- Two steps succeed when the first does and the second does on its value. -/
theorem bind_eq_ok_iff {x : Except ε α} {f : α → Except ε β} {b : β} :
    (x >>= f) = .ok b ↔ ∃ a, x = .ok a ∧ f a = .ok b := by
  cases x with
  | error e => simp [bind, Except.bind]
  | ok a => simp [bind, Except.bind]

/-- An outcome that is some value is a success. -/
theorem exists_eq_ok {x : Except ε α} (h : x.toOption.isSome = true) : ∃ a, x = .ok a := by
  cases x with
  | error e => cases h
  | ok a => exact ⟨a, rfl⟩

/-- After a success the next step sees its value. -/
@[simp] theorem ok_bind (a : α) (f : α → Except ε β) : (Except.ok a >>= f) = f a := rfl

/-- A changed result succeeds when the result does. -/
theorem map_eq_ok_iff {x : Except ε α} {f : α → β} {b : β} :
    f <$> x = .ok b ↔ ∃ a, x = .ok a ∧ f a = b := by
  cases x with
  | error e => simp [Functor.map, Except.map]
  | ok a => simp [Functor.map, Except.map]

/-- A fault of one group is an error of the whole; success is the same. -/
theorem Result.of_eq_ok_iff {error : ε → Error} {x : Except ε α} {a : α} :
    Result.of error x = .ok a ↔ x = .ok a := by
  cases x <;> simp [Result.of]

/-- A value is the outcome exactly when it is there. -/
theorem Result.ofOption_eq_ok_iff {error : Error} {x : Option α} {a : α} :
    Result.ofOption error x = .ok a ↔ x = some a := by
  cases x <;> simp [Result.ofOption]

/-- The error is the outcome exactly when no value is there. -/
theorem Result.ofOption_eq_error_iff {error : Error} {x : Option α} :
    Result.ofOption error x = .error error ↔ x = none := by
  cases x <;> simp [Result.ofOption]

@[simp] theorem Result.of_ok (error : ε → Error) (a : α) :
    Result.of error (.ok a) = .ok a := rfl

@[simp] theorem Result.ofOption_some (error : Error) (a : α) :
    Result.ofOption error (some a) = .ok a := rfl

/-- A step that returns a value has that value as its outcome. -/
theorem pure_eq_ok_iff {a b : α} : (pure a : Except ε α) = .ok b ↔ a = b := by
  simp [pure, Except.pure]

/-- A thrown error is no success. -/
theorem throw_ne_ok {e : ε} {a : α} : (throw e : Except ε α) ≠ .ok a :=
  fun h => by cases h

/-- A guard lets the steps behind it pass exactly when it does not throw. -/
theorem guard_eq_ok_iff {c : Prop} [Decidable c] {e : ε} {f : PUnit → Except ε α}
    {x : Except ε α} {a : α} : (if c then throw e >>= f else x) = .ok a ↔ ¬ c ∧ x = .ok a := by
  by_cases hc : c
  · simp [hc, throw, throwThe, MonadExceptOf.throw, bind, Except.bind]
  · simp [hc]

/-! ### Readers -/

/-- Two readers succeed when the first does and the second does on what is left. -/
theorem reader_bind_eq_ok_iff {m : StateT Bytes (Except ε) α}
    {f : α → StateT Bytes (Except ε) β} {bs rest : Bytes} {b : β} :
    (m >>= f) bs = .ok (b, rest) ↔ ∃ a mid, m bs = .ok (a, mid) ∧ f a mid = .ok (b, rest) := by
  change (m bs >>= fun p => f p.1 p.2) = .ok (b, rest) ↔ _
  rw [bind_eq_ok_iff]
  constructor
  · rintro ⟨⟨a, mid⟩, hm, hf⟩
    exact ⟨a, mid, hm, hf⟩
  · rintro ⟨a, mid, hm, hf⟩
    exact ⟨(a, mid), hm, hf⟩

/-- A reader that reads nothing leaves everything. -/
theorem reader_pure_eq_ok_iff {a b : α} {bs rest : Bytes} :
    (pure a : StateT Bytes (Except ε) α) bs = .ok (b, rest) ↔ a = b ∧ bs = rest := by
  change (Except.ok (a, bs) : Except ε (α × Bytes)) = .ok (b, rest) ↔ _
  simp

end KeySmith

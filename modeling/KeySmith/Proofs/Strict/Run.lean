import KeySmith.Proofs.Bytes
import KeySmith.Proofs.Outcome

/-!
# Positions in bounds

The definitions that run cut lists with `List.take` and `List.drop`, subtract with a result of zero
where nothing is left, and fill up octet strings that are too short, so they have a value for every
position.  A program on arrays stops where a position is not there.  A `Run` keeps the two apart: it
ends with a value or with an error, and without any outcome when it reaches for something that is out
of bounds.  The operations on lists below are partial in the same places as those on arrays.

For each program there is a run with the same steps, in which every cut, every place that is read,
every difference and every copy of fixed size is one of the partial operations.  That such a run
`Agrees` with the result of the program says two things: nothing out of bounds is reached for, and
the total operations of the program give what the partial ones would have given.
-/

namespace KeySmith.Strict

variable {ε α β : Type}

/-- A calculation that may fail with an error, and that has no outcome when something that it reaches
for is out of bounds. -/
abbrev Run (ε α : Type) : Type :=
  ExceptT ε Option α

/-- The run stays in bounds and ends with the given result. -/
def Agrees (m : Run ε α) (r : Except ε α) : Prop :=
  m.run = some r

/-! ### Operations that are out of bounds somewhere -/

/-- The elements before a place and those from it on. The place may be the end. -/
def splitAt? (place : Nat) (xs : List α) : Option (List α × List α) :=
  if place ≤ xs.length then some (xs.take place, xs.drop place) else none

/-- The elements before a place. -/
def upTo? (place : Nat) (xs : List α) : Option (List α) :=
  (splitAt? place xs).map (·.1)

/-- The elements from a place on. -/
def from? (place : Nat) (xs : List α) : Option (List α) :=
  (splitAt? place xs).map (·.2)

/-- The elements from one place on that are before another one. -/
def between? (start stop : Nat) (xs : List α) : Option (List α) := do
  from? start (← upTo? stop xs)

/-- The list with one of its elements changed. -/
def update? (place : Nat) (f : α → α) (xs : List α) : Option (List α) :=
  if place < xs.length then some (xs.modify place f) else none

/-- The list with everything from a place on replaced by as many other elements. -/
def replaceFrom? (place : Nat) (ys xs : List α) : Option (List α) := do
  let (before, behind) ← splitAt? place xs
  if ys.length = behind.length then return before ++ ys else none

/-- What is left of a number. -/
def difference? (n m : Nat) : Option Nat :=
  if m ≤ n then some (n - m) else none

/-- The octet that holds a number. -/
def octet? (n : Nat) : Option UInt8 :=
  if n < 256 then some n.toUInt8 else none

variable {place : Nat} {xs : List α}

theorem splitAt?_of_le (h : place ≤ xs.length) :
    splitAt? place xs = some (xs.take place, xs.drop place) :=
  if_pos h

/-- A list cannot be split behind its end. -/
theorem splitAt?_eq_none_iff : splitAt? place xs = none ↔ xs.length < place := by
  rw [splitAt?, ite_eq_right_iff, ← Nat.not_le]
  constructor
  · intro h hle
    have hsome := h hle
    cases hsome
  · intro h hle
    exact absurd hle h

theorem upTo?_of_le (h : place ≤ xs.length) : upTo? place xs = some (xs.take place) := by
  rw [upTo?, splitAt?_of_le h, Option.map_some]

theorem from?_of_le (h : place ≤ xs.length) : from? place xs = some (xs.drop place) := by
  rw [from?, splitAt?_of_le h, Option.map_some]

theorem between?_of_le {start : Nat} (hstart : start ≤ place) (h : place ≤ xs.length) :
    between? start place xs = some ((xs.take place).drop start) := by
  have hlength : start ≤ (xs.take place).length := by
    rw [List.length_take]
    omega
  rw [between?, upTo?_of_le h]
  exact from?_of_le hlength

theorem update?_of_lt (h : place < xs.length) (f : α → α) :
    update? place f xs = some (xs.modify place f) :=
  if_pos h

theorem replaceFrom?_of_length {ys : List α} (h : place + ys.length = xs.length) :
    replaceFrom? place ys xs = some (xs.take place ++ ys) := by
  have hlength : ys.length = (xs.drop place).length := by
    rw [List.length_drop]
    omega
  rw [replaceFrom?, splitAt?_of_le (by omega)]
  exact if_pos hlength

theorem difference?_of_le {n m : Nat} (h : m ≤ n) : difference? n m = some (n - m) :=
  if_pos h

theorem ofBytes?_of_length {n : Nat} {bs : Bytes} (h : bs.length = n) :
    Octets.ofBytes? n bs = some ⟨bs, h⟩ :=
  dif_pos h

/-- The front of a long enough octet string fills octets of known length. -/
theorem ofBytes?_take {n : Nat} {bs : Bytes} (h : n ≤ bs.length) :
    Octets.ofBytes? n (bs.take n) = some (.firstOf n bs) := by
  rw [Octets.ofBytes?_eq_some_iff, Octets.bytes_firstOf h]

theorem octet?_of_lt {n : Nat} (h : n < 256) : octet? n = some n.toUInt8 :=
  if_pos h

/-- The first octet that is not zero, or the end, is a place to cut at, and what follows are the
octets without their leading zeros. -/
theorem from?_findIdx (bs : Bytes) :
    from? (bs.findIdx (· != 0)) bs = some (Bytes.stripZeros bs) := by
  rw [from?_of_le List.findIdx_le_length, Bytes.stripZeros, List.dropWhile_eq_drop_findIdx_not]
  rfl

/-! ### Runs -/

namespace Agrees

variable {m : Run ε α} {r : Except ε α} {f : α → Run ε β} {g : α → Except ε β}

theorem pure (a : α) : Agrees (Pure.pure a : Run ε α) (.ok a) :=
  rfl

theorem throw (e : ε) : Agrees (throw e : Run ε α) (.error e) :=
  rfl

/-- A result is a run that reaches for nothing. -/
theorem lift (r : Except ε α) : Agrees (liftM r : Run ε α) r :=
  rfl

/-- A value that is in bounds is the outcome. -/
theorem some {x : Option α} {a : α} (h : x = Option.some a) : Agrees (liftM x : Run ε α) (.ok a) := by
  rw [h]
  rfl

/-- Two runs in a row agree with two results in a row. The second run is looked at only after a
success of the first. -/
theorem bind (h : Agrees m r) (hf : ∀ a, r = .ok a → Agrees (f a) (g a)) :
    Agrees (m >>= f) (r >>= g) := by
  unfold Agrees at h ⊢
  rw [ExceptT.run_bind, h]
  cases r with
  | error e => rfl
  | ok a => exact hf a rfl

/-- A run that ends with a value is followed by the next one on this value. -/
theorem value_iff {a : α} {r : Except ε β} (h : Agrees m (.ok a)) :
    Agrees (m >>= f) r ↔ Agrees (f a) r := by
  unfold Agrees at h ⊢
  rw [ExceptT.run_bind, h]
  rfl

theorem value {a : α} {r : Except ε β} (h : Agrees m (.ok a)) (hf : Agrees (f a) r) :
    Agrees (m >>= f) r :=
  (value_iff h).mpr hf

/-- A run that ends with an error is not followed by anything. -/
theorem error {e : ε} (h : Agrees m (.error e)) : Agrees (m >>= f) (.error e) :=
  bind (g := fun _ => .error e) h fun _ h => by cases h

/-- A step in bounds is followed by the others. -/
theorem step {x : Option α} {a : α} {r : Except ε β} (h : x = Option.some a)
    (hf : Agrees (f a) r) : Agrees (liftM x >>= f) r :=
  value (some h) hf

/-- A step out of bounds has no outcome. -/
theorem stop {x : Option α} (h : x = none) (r : Except ε β) : ¬ Agrees (liftM x >>= f) r := by
  subst h
  intro hagrees
  cases hagrees

theorem map (f : α → β) (h : Agrees m r) : Agrees (f <$> m) (f <$> r) := by
  unfold Agrees at h ⊢
  rw [ExceptT.run_map, h]
  cases r <;> rfl

theorem ite {c : Prop} [Decidable c] {m m' : Run ε α} {r r' : Except ε α}
    (h : c → Agrees m r) (h' : ¬ c → Agrees m' r') :
    Agrees (if c then m else m') (if c then r else r') := by
  split
  · exact h ‹_›
  · exact h' ‹_›

/-- Behind a guard its condition is known to be false. -/
theorem guard {c : Prop} [Decidable c] {e : ε} {f : PUnit → Run ε α} {g : PUnit → Except ε α}
    {m : Run ε α} {r : Except ε α} (h : ¬ c → Agrees m r) :
    Agrees (if c then MonadExcept.throw e >>= f else m) (if c then MonadExcept.throw e >>= g else r) :=
  ite (fun _ => rfl) h

end Agrees

end KeySmith.Strict

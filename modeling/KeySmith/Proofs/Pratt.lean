import Mathlib.Data.List.Prime
import Mathlib.NumberTheory.LucasPrimality
import KeySmith.Proofs.Modular

/-!
# Certificates of primality

By Lucas's test a number is prime when the predecessor is its order under some base.  To see this
one needs the prime factors of the predecessor.  A certificate is the tree of these factors: the
small ones are tested by division, a large one stands with a base and the factors of its own
predecessor.  The tree determines all numbers in it, so it is only checked by raising to powers.
-/

namespace KeySmith.Pratt

/-- Whether none of the `count` numbers from `k` on divides `n`. -/
def noDivisor (n : Nat) : (count k : Nat) → Bool
  | 0, _ => true
  | count + 1, k => n % k != 0 && noDivisor n count (k + 1)

theorem not_dvd_of_noDivisor {n count k m : Nat} (h : noDivisor n count k = true) (hk : k ≤ m)
    (hm : m < k + count) : ¬ m ∣ n := by
  induction count generalizing k with
  | zero => omega
  | succ count ih =>
    obtain ⟨hfirst, hrest⟩ := Bool.and_eq_true_iff.mp h
    obtain rfl | hlt := hk.eq_or_lt
    · exact fun hdvd => (bne_iff_ne.mp hfirst) (Nat.mod_eq_zero_of_dvd hdvd)
    · exact ih hrest hlt (by omega)

/-- Whether a number is found to be prime by division. -/
def isSmallPrime (n : Nat) : Bool :=
  2 ≤ n && noDivisor n (Nat.sqrt n - 1) 2

theorem prime_of_isSmallPrime {n : Nat} (h : isSmallPrime n = true) : n.Prime := by
  obtain ⟨htwo, hdivisor⟩ := Bool.and_eq_true_iff.mp h
  refine Nat.prime_def_le_sqrt.mpr ⟨of_decide_eq_true htwo, fun m hm hsqrt => ?_⟩
  exact not_dvd_of_noDivisor hdivisor hm (by omega)

/-- The prime factors of a number. -/
inductive Factors where
  /-- Primes that are tested by division. -/
  | small (primes : List Nat)
  /-- A prime whose predecessor has the factors given and is its order under `base`, and the other
  primes. -/
  | large (base : Nat) (factors others : Factors)

namespace Factors

/-- The number that the factors belong to. -/
def value : Factors → Nat
  | small primes => primes.prod
  | large _ factors others => (factors.value + 1) * others.value

/-- The list of the factors. -/
def primes : Factors → List Nat
  | small primes => primes
  | large _ factors others => (factors.value + 1) :: others.primes

/-- Whether the number is the order of `base` modulo its successor. -/
def IsOrder (f : Factors) (base : Nat) : Prop :=
  Modular.pow (f.value + 1) base f.value = 1 ∧
    ∀ q ∈ f.primes, Modular.pow (f.value + 1) base (f.value / q) ≠ 1

instance (f : Factors) (base : Nat) : Decidable (f.IsOrder base) :=
  inferInstanceAs (Decidable (_ ∧ _))

/-- Whether all factors in the tree are certified. -/
def Certifies : Factors → Prop
  | small primes => ∀ q ∈ primes, isSmallPrime q
  | large base factors others => factors.Certifies ∧ factors.IsOrder base ∧ others.Certifies

/-- Certificates can be checked. -/
def decideCertifies : (f : Factors) → Decidable f.Certifies
  | small primes => inferInstanceAs (Decidable (∀ q ∈ primes, isSmallPrime q))
  | large base factors others =>
    have := decideCertifies factors
    have := decideCertifies others
    inferInstanceAs (Decidable (factors.Certifies ∧ factors.IsOrder base ∧ others.Certifies))

instance (f : Factors) : Decidable f.Certifies :=
  decideCertifies f

theorem cast_pow_eq_one_iff {m base k : Nat} (hm : 1 < m) :
    (base : ZMod m) ^ k = 1 ↔ Modular.pow m base k = 1 := by
  have hcast := ZMod.natCast_eq_natCast_iff' (base ^ k) 1 m
  rwa [Nat.cast_pow, Nat.cast_one, Nat.mod_eq_of_lt hm, ← Modular.pow_eq] at hcast

theorem prod_primes (f : Factors) : f.primes.prod = f.value := by
  induction f with
  | small => rfl
  | large base factors others _ ih => rw [primes, List.prod_cons, ih, value]

/-- A number is prime when its predecessor is an order and the factors of the predecessor are
primes. -/
theorem prime_of_isOrder {f : Factors} (hprimes : ∀ q ∈ f.primes, q.Prime) {base : Nat}
    (h : f.IsOrder base) : (f.value + 1).Prime := by
  obtain ⟨hfull, hpart⟩ := h
  have hone : 1 < f.value + 1 := by
    rw [Modular.pow_eq] at hfull
    calc 1 = base ^ f.value % (f.value + 1) := hfull.symm
      _ < f.value + 1 := Nat.mod_lt _ f.value.succ_pos
  refine lucas_primality _ (base : ZMod (f.value + 1)) ((cast_pow_eq_one_iff hone).mpr hfull) ?_
  intro q hq hdvd
  rw [Nat.add_sub_cancel, ← f.prod_primes] at hdvd
  obtain ⟨q', hmem, hdvd'⟩ := (Prime.dvd_prod_iff hq.prime).mp hdvd
  obtain rfl : q = q' := (Nat.prime_dvd_prime_iff_eq hq (hprimes q' hmem)).mp hdvd'
  exact fun hpow => hpart q hmem ((cast_pow_eq_one_iff hone).mp hpow)

/-- The factors of a certificate are primes. -/
theorem prime_of_mem_primes {f : Factors} (h : f.Certifies) : ∀ q ∈ f.primes, q.Prime := by
  induction f with
  | small primes => exact fun q hq => prime_of_isSmallPrime (h q hq)
  | large base factors others ih ihOthers =>
    obtain ⟨hfactors, horder, hothers⟩ := h
    intro q hq
    obtain rfl | hq := List.mem_cons.mp hq
    · exact prime_of_isOrder (ih hfactors) horder
    · exact ihOthers hothers q hq

end Factors

/-- A certificate: the factors of the predecessor of a prime and a base of full order. -/
structure Certificate where
  base : Nat
  factors : Factors

/-- Whether a certificate is right and belongs to the number `p`. -/
def Certificate.IsFor (c : Certificate) (p : Nat) : Prop :=
  c.factors.value + 1 = p ∧ c.factors.Certifies ∧ c.factors.IsOrder c.base

instance (c : Certificate) (p : Nat) : Decidable (c.IsFor p) :=
  inferInstanceAs (Decidable (_ ∧ _ ∧ _))

/-- A number with a certificate is prime. -/
theorem Certificate.prime_of_isFor {c : Certificate} {p : Nat} (h : c.IsFor p) : p.Prime := by
  obtain ⟨rfl, hfactors, horder⟩ := h
  exact Factors.prime_of_isOrder (Factors.prime_of_mem_primes hfactors) horder

end KeySmith.Pratt

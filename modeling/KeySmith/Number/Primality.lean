import KeySmith.Number.Modular

/-!
# Probable primes

A candidate is first held against a product of small primes and then against a list of bases by the
test of Miller and Rabin. Primes that keys are made from pass it for every base given.
-/

namespace KeySmith.Primality

/-- The number of times that two divides `n`, at most `fuel`, and what remains of `n`. -/
def splitTwos : (fuel : Nat) → (n twos : Nat) → Nat × Nat
  | 0, n, twos => (twos, n)
  | fuel + 1, n, twos => if n % 2 = 0 then splitTwos fuel (n / 2) (twos + 1) else (twos, n)

/-- Whether `x` becomes `n - 1` within `count` squarings modulo `n`. -/
def reachesMinusOne (n : Nat) : (count x : Nat) → Bool
  | 0, _ => false
  | count + 1, x => x == n - 1 || reachesMinusOne n count (x * x % n)

/-- Whether an odd number above two could be a prime as far as one base tells. -/
def passes (n base : Nat) : Bool :=
  let (twos, odd) := splitTwos n.log2 (n - 1) 0
  let x := Modular.pow n base odd
  x == 1 || reachesMinusOne n twos x

/-- Whether `n` has no divisor from two up to `limit` other than itself, tried from `limit` down. -/
def hasNoDivisor (n : Nat) : (limit : Nat) → Bool
  | 0 => true
  | 1 => true
  | limit + 1 => (n % (limit + 1) != 0 || n == limit + 1) && hasNoDivisor n limit

/-- The primes below a thousand. -/
def smallPrimes : List Nat :=
  (List.range 1000).filter fun n => 2 ≤ n && hasNoDivisor n (n - 1)

/-- Their product. -/
def smallProduct : Nat :=
  smallPrimes.foldl (· * ·) 1

/-- Whether a large odd number is a probable prime for all of the bases. -/
def isProbablePrime (n : Nat) (bases : List Nat) : Bool :=
  Nat.gcd n smallProduct == 1 && bases.all (passes n)

/-- The first probable prime among `start`, `start + 2`, …, as far as `count` steps reach, that also
satisfies a condition. -/
def search? (bases : List Nat) (wanted : Nat → Bool) : (count start : Nat) → Option Nat
  | 0, _ => none
  | count + 1, start =>
    if isProbablePrime start bases && wanted start then some start
    else search? bases wanted count (start + 2)

end KeySmith.Primality

/-!
# Arithmetic modulo a number

Powers by repeated squaring and inverses by Euclid's algorithm. An inverse is only given out after
it has been multiplied back, so it is right whenever there is one.
-/

namespace KeySmith.Modular

/-- `acc * base ^ exponent` modulo `m`. -/
def powLoop (m acc base exponent : Nat) : Nat :=
  if exponent = 0 then acc % m
  else
    powLoop m (if exponent % 2 = 1 then acc * base % m else acc) (base * base % m) (exponent / 2)
termination_by exponent
decreasing_by omega

/-- `base ^ exponent` modulo `m`. -/
def pow (m base exponent : Nat) : Nat :=
  powLoop m 1 (base % m) exponent

/-- `a - b` modulo `m`, for `b` below `m`. -/
def sub (m a b : Nat) : Nat :=
  (a + (m - b)) % m

/-- Euclid's algorithm on `r` and `s`. They are `t` and `u` times the number to be inverted, modulo
`m`, one of the two times with a minus sign; `negative` says whether that one is `r`. The result is
the factor, with its sign, that gives the greatest common divisor. -/
def bezout (r s t u : Nat) (negative : Bool) : Nat × Bool :=
  if s = 0 then (t, negative)
  else bezout s (r % s) u (t + r / s * u) (!negative)
termination_by s
decreasing_by exact Nat.mod_lt _ (Nat.pos_of_ne_zero ‹_›)

/-- The number below `m` whose product with `a` is 1 modulo `m`, if there is one. -/
def inverse? (m a : Nat) : Option Nat :=
  let (t, negative) := bezout m (a % m) 0 1 true
  let x := if negative then (m - t) % m else t % m
  if a * x % m = 1 % m then some x else none

/-- The inverse of `a` modulo `m`, or zero if there is none. -/
def inverse (m a : Nat) : Nat :=
  (inverse? m a).getD 0

end KeySmith.Modular

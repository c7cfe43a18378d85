import KeySmith.Curve.Edwards25519
import KeySmith.Curve.Named
import KeySmith.Proofs.Pratt

/-!
# The primes of the curves

The moduli of the curves and the orders of their base points are primes.  Each has a certificate,
the tree of the factors of its predecessor.
-/

namespace KeySmith

open Pratt (Certificate)

namespace Curve

/-- The certificate of the modulus. -/
def modulusCertificate : Curve → Certificate
  | p256 => ⟨6,
    .large 11 (.large 3 (.large 5 (.small [2, 23, 18169, 78283, 704251])
          (.large 13 (.large 6 (.small [2, 5, 53, 173, 197, 3677]) (.small [2, 5, 17]))
            (.large 17 (.large 11 (.small [2, 11, 23, 107, 3769]) (.small [2, 2, 2, 3, 7]))
              (.small [2, 3, 3, 2411]))))
        (.small [2, 2, 2, 3, 3, 3, 5]))
      (.large 5 (.small [2, 2, 2, 2, 2, 2, 2, 3, 17449])
        (.small [2, 3, 5, 5, 17, 257, 641, 1531, 65537, 490463]))⟩
  | p384 => ⟨19,
    .large 3 (.large 2 (.large 5 (.large 5 (.large 2 (.large 5 (.large 5 (.large 5
                    (.large 7 (.small [2, 2, 2, 3, 61, 363557]) (.small [2, 2, 2, 3, 3517]))
                    (.small [2, 17, 41, 568151]))
                  (.small [2, 336757]))
                (.small [2, 2, 3, 3]))
              (.small [2, 2, 2, 3]))
            (.large 6 (.small [2, 3, 5, 13, 59, 263]) (.small [2, 17, 97])))
          (.small [2, 3, 5]))
        (.large 3 (.large 19 (.small [2, 2, 2, 2, 2, 2, 2, 2, 3, 3, 5, 21407])
            (.large 3 (.small [2, 3, 5, 19, 211, 881]) (.small [2, 2, 2, 2, 7, 181])))
          (.large 2 (.large 3 (.large 5 (.small [2, 11, 59, 599, 661]) (.small [2, 2, 2, 13]))
              (.small [2, 2, 3, 5, 67, 6317]))
            (.small [2, 2, 2, 2, 11, 11, 11, 8389, 38557, 312289]))))
      (.large 3 (.large 3 (.small [2, 3, 157, 1373, 2213]) (.small [2, 3, 47]))
        (.small [2, 19, 67]))⟩
  | p521 => ⟨3,
    .large 3 (.large 17 (.large 2
          (.large 7 (.large 2 (.small [2, 2, 3, 3, 3, 5, 7, 2437]) (.small [2, 2, 2, 3, 109]))
            (.small [2, 2, 7]))
          (.small [2, 2, 2, 3, 7, 3191]))
        (.small [2, 2, 2, 2, 2, 2, 2, 2, 5, 13, 28793]))
      (.large 7
        (.large 3 (.large 3 (.small [2, 2, 2, 2, 2, 2, 2, 2, 151, 223]) (.small [2, 3, 7, 7]))
          (.small [2, 3, 3, 5, 7, 7, 13]))
        (.large 17 (.small [2, 2, 2, 3, 3, 5, 13, 683, 1433, 23609])
          (.large 17 (.large 2 (.small [2, 7, 7, 7, 11, 397]) (.small [2, 2, 2, 2, 3, 5, 7, 13]))
            (.large 3 (.small [2, 2, 2, 2, 2, 2, 5, 13, 347, 1663])
              (.large 17 (.small [2, 2, 2, 2, 2, 3, 5, 13, 49481])
                (.large 15 (.small [2, 2, 5, 5, 13, 19, 1381])
                  (.large 6 (.small [2, 5, 5, 13, 37, 317])
                    (.large 15 (.small [2, 2, 2, 2, 5, 5, 5, 13, 13, 17])
                      (.small [2, 3, 5, 5, 11, 17, 31, 41, 53, 131, 157, 521, 1613, 2731, 8191,
                               42641, 51481, 61681, 409891, 858001])))))))))⟩

/-- The certificate of the order of the base point. -/
def orderCertificate : Curve → Certificate
  | p256 => ⟨7,
    .large 7
      (.large 2 (.large 3 (.small [2, 3, 5, 41, 155317]) (.small [2, 3, 11, 43, 127, 3023]))
        (.small [2, 2, 2, 2, 2, 2, 3, 3, 1297, 16879]))
      (.large 19 (.large 2 (.small [2, 19, 104471]) (.small [2, 126241]))
        (.large 5 (.large 2 (.small [2, 5, 7, 17, 29, 29, 311]) (.small [2]))
          (.large 2 (.large 2 (.small [2, 17, 229, 1201]) (.small [2, 2, 5]))
            (.small [2, 2, 2, 2, 3, 71, 131, 373, 3407, 17449, 38189]))))⟩
  | p384 => ⟨2,
    .large 12 (.large 2 (.large 6 (.large 6 (.large 11 (.large 3
                (.large 23 (.large 5 (.small [2, 19, 73, 233, 421]) (.small [2, 2, 2, 3, 5, 7]))
                  (.small [2, 3, 17]))
                (.small [2, 2, 2, 3, 13, 89, 659]))
              (.small [2, 3, 3, 3, 64901]))
            (.small [2, 2, 3]))
          (.large 7 (.large 3
              (.large 5 (.small [2, 2, 3, 3, 311, 881]) (.small [2, 3, 5, 7, 11, 11, 149]))
              (.small [2, 7, 107]))
            (.large 5 (.small [2, 113, 37447]) (.small [2, 251, 248431]))))
        (.large 3 (.small [2, 2, 2, 2, 2, 2, 2, 2, 16979, 330563])
          (.large 2 (.small [2, 3, 29, 41, 179]) (.small [2, 3, 5, 151, 347]))))
      (.large 2 (.large 3 (.large 5 (.small [2, 79, 491, 3739])
            (.large 2 (.small [2, 2, 5, 17, 455737]) (.small [2, 3, 13, 34429])))
          (.small [2, 3, 1553]))
        (.small [2, 3, 3, 7, 7, 13]))⟩
  | p521 => ⟨3,
    .large 3 (.large 19 (.large 2 (.large 3 (.large 2
              (.large 7 (.large 2 (.small [2, 2, 277, 17467]) (.small [2, 3, 5, 7, 19, 777241]))
                (.small [2, 3, 61, 193]))
              (.large 6 (.large 2 (.small [2, 3, 79, 17293]) (.small [2, 2, 3, 41, 10861]))
                (.small [2, 2, 2, 5])))
            (.large 3 (.large 2 (.small [2, 7, 495527]) (.small [2, 2, 2, 2, 7, 131]))
              (.large 17 (.small [2, 2, 2, 5, 13, 20341]) (.small [2]))))
          (.large 11 (.large 2
              (.large 7 (.small [2, 59, 92581]) (.small [2, 2, 3, 3, 13, 19, 59, 9227, 65677]))
              (.small [2, 3, 3, 11, 109, 14461, 133279]))
            (.small [2, 5, 19, 263, 5449, 15601, 370471])))
        (.small [2, 3, 3, 11, 31, 161969]))
      (.large 13 (.large 11 (.large 7 (.small [2, 2, 2, 3, 61, 157, 811])
            (.small [2, 2, 2, 3, 5, 5, 5, 5, 5, 19, 281, 1187]))
          (.small [2, 17, 547]))
        (.large 3 (.small [2, 3, 3, 3, 3, 3, 11, 311, 877]) (.small [2, 2, 2, 7, 11, 1283])))⟩

/-- The modulus of a curve is a prime. -/
theorem prime_p (c : Curve) : c.params.p.Prime := by
  apply c.modulusCertificate.prime_of_isFor
  cases c <;> decide +kernel

/-- The order of the base point of a curve is a prime. -/
theorem prime_order (c : Curve) : c.params.order.Prime := by
  apply c.orderCertificate.prime_of_isFor
  cases c <;> decide +kernel

end Curve

namespace Edwards25519

/-- The certificate of the modulus. -/
def modulusCertificate : Certificate :=
  ⟨2,
    .large 2 (.large 7
        (.large 2 (.large 2 (.small [2, 2, 3, 7, 103, 991]) (.small [2, 3, 7, 19, 47, 47, 127]))
          (.large 7 (.large 5 (.small [2, 2437, 569003]) (.small [2, 13]))
            (.small [2, 2, 2, 2, 2, 3, 3, 5, 5, 75707])))
        (.large 10 (.small [2, 2, 2, 3, 31, 107, 223, 4153, 430751])
          (.large 2 (.small [2, 2, 3, 43, 3727]) (.small [2, 3, 353, 57467, 132049]))))
      (.small [2, 2, 3, 65147])⟩

/-- The modulus is a prime. -/
theorem prime_p : p.Prime := by
  apply modulusCertificate.prime_of_isFor
  decide +kernel

end Edwards25519

end KeySmith

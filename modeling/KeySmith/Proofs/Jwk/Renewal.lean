import KeySmith.Proofs.Base64.Canonical
import KeySmith.Proofs.Jwk.RoundTrip
import KeySmith.Proofs.Modular

/-!
# Writing the form of a key that was read

A form that is read may come from anywhere: its numbers may have leading zeros, its curve may be
spelled in several ways, and what it says about the Chinese remainder theorem may be wrong.  The form
that is written for its key says the same in the one way in which it is said here.  The coordinates
and the scalar of a curve key have full width and strict Base64, so their members come out letter
for letter.
-/

namespace KeySmith.Jwk

variable {j j' : Jwk}

/-! ### Members -/

end KeySmith.Jwk

import MipsImage.Proofs.Directives
import MipsImage.Proofs.PhaseOrder
import MipsImage.Proofs.SourceLines

/-!
# Overlong numerals

A decimal numeral may have more digits than can be converted though its value is zero. A source with
such a numeral gets neither an image nor an error with a line.
-/
set_option autoImplicit false

namespace MipsImage

/-! ## Zeros -/

section Zeros
variable {n : Nat}

end Zeros

end MipsImage

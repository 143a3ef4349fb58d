import MipsImage.Text.Basic

/-!
# Lone surrogates

A text that holds a surrogate has no UTF-8 form. What stands in the way is told by the run of
surrogates that begins with the first refused one.
-/
set_option autoImplicit false

namespace MipsImage

/-- Surrogates in a row: where the first one stands, which it is and how many there are. -/
structure SurrogateRun where
  position : Nat
  first : Fin 0x800
  length : Nat
  deriving DecidableEq, Repr

namespace SurrogateRun

/-- The run of a surrogate at this position with the text after it. -/
def ofSurrogate (position : Nat) (first : Fin 0x800) (rest : Text) : SurrogateRun :=
  ⟨position, first, 1 + (rest.takeWhile CodePoint.isSurrogate).length⟩

def message (run : SurrogateRun) : String :=
  let place :=
    if run.length = 1 then
      let digits := String.ofList (Nat.toDigits 16 (CodePoint.surrogate run.first).toNat)
      s!"character '\\u{digits}' in position {run.position}"
    else s!"characters in position {run.position}-{run.position + run.length - 1}"
  s!"'utf-8' codec can't encode {place}: surrogates not allowed"

end SurrogateRun

end MipsImage

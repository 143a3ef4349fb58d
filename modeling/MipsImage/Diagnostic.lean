import MipsImage.Fault

/-!
# Diagnostics

A diagnostic is a message with as much of its location as is known. The location is filled in from
the inside out: what is already known stays. Files are named by a type of the caller's choice.
-/
set_option autoImplicit false

namespace MipsImage

structure Diagnostic (φ : Type) where
  file : Option φ
  line : Option Int
  message : Text

namespace Diagnostic

variable {φ : Type}

/-- The diagnostic as seen from a place that knows `line` and `file`. -/
def within (d : Diagnostic φ) (file : Option φ) (line : Option Int) : Diagnostic φ :=
  { d with file := d.file <|> file, line := d.line <|> line }

/-- The message after its location, each known part of which is closed by a colon. -/
def render (d : Diagnostic Text) : Text :=
  let file := (d.file.map fun name => name ++ [.char ':']).getD []
  let line := (d.line.map fun n => s!"{n}:".toText).getD []
  if d.file.isNone && d.line.isNone then d.message else file ++ line ++ .char ' ' :: d.message

end Diagnostic

def LocatedFault.report {φ : Type} (e : LocatedFault) (file : Option φ) : Diagnostic φ :=
  ⟨file, some e.line, e.fault.message⟩

def Warning.report {φ : Type} (w : Warning) (file : Option φ) : Diagnostic φ :=
  ⟨file, some w.line, w.truncation.message⟩

end MipsImage

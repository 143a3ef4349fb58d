import MipsImage.Text.Basic

/-!
# Paths

A path is a list of steps, from the root or from where one is. Reading a path drops repeated slashes
and steps to the same place, so that a path is shown in its shortest spelling; steps upwards stay.
-/
set_option autoImplicit false

namespace MipsImage

structure Path where
  absolute : Bool
  steps : List Text
  deriving DecidableEq, Repr

namespace Path

def ofText (t : Text) : Path where
  absolute := [.char '/'].isPrefixOf t
  steps := (Text.splitOn '/' t).filter fun step => step ≠ [] ∧ step ≠ [.char '.']

def text (p : Path) : Text :=
  if p.absolute then '/' :: Text.join ['/'] p.steps
  else if p.steps = [] then ['.']
  else Text.join ['/'] p.steps

/-- The last step, empty if there is none. -/
def name (p : Path) : Text := p.steps.getLast?.getD []

def withName (p : Path) (name : Text) : Path := { p with steps := p.steps.dropLast ++ [name] }

/-- The second path taken from the place of the first. -/
def append (p q : Path) : Path := if q.absolute then q else { p with steps := p.steps ++ q.steps }

end Path

end MipsImage

import MipsImage.Text.LowerCase

/-!
# Instructions as written

A mnemonic and operands: the first space ends the mnemonic, which is read in lower case, and commas
separate the operands, which are trimmed.
-/
set_option autoImplicit false

namespace MipsImage

structure Instruction where
  mnemonic : Text
  operands : List Text
  deriving DecidableEq, Repr

namespace Instruction

def ofText (t : Text) : Instruction :=
  match Text.cut ' ' (Text.trim t) with
  | (mnemonic, none) => ⟨Text.toLower mnemonic, []⟩
  | (mnemonic, some rest) => ⟨Text.toLower mnemonic, (Text.splitOn ',' rest).map Text.trim⟩

/-- The operands are just as many as there are places for them, and none is empty. -/
def fillsPlaces (places : Nat) (operands : List Text) : Bool :=
  operands.length = places && operands.all (· ≠ [])

/-- The text of an instruction, with a space after the mnemonic and after each comma. -/
def text (i : Instruction) : Text :=
  i.mnemonic ++ .char ' ' :: Text.join [.char ',', .char ' '] i.operands

end Instruction

end MipsImage

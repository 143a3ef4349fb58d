import MipsImage.Bits
import MipsImage.Directive
import MipsImage.Pseudo

/-!
# Expansion

A line without its labels becomes fragments. A data directive becomes one; `li` becomes two
instructions through the scratch register; `la` becomes the two halves of itself, because its
address is not known yet; a pseudo-instruction becomes the instructions that stand for it. Anything
else is one instruction, good or bad, and left as it is.
-/
set_option autoImplicit false

namespace MipsImage

def Fragment.ofInstruction (i : Instruction) : Fragment := .instruction i.text none

/-- The two instructions that load a value into a register by way of the scratch register. -/
def loadImmediate (destination : Text) (value : Int) : List Instruction :=
  let word := Bits.low 32 value
  [⟨Mnemonic.lui.name.toText, ["$at".toText, Numeral.decimalText (Bits.high 16 word)]⟩,
   ⟨Mnemonic.ori.name.toText, [destination, "$at".toText, Numeral.decimalText (Bits.low 16 word)]⟩]

/-- The instructions that a text stands for, which is itself unless it is a pseudo-instruction with
the right number of operands. -/
def expandInstruction (t : Text) : Except (Failure Fault) (List Fragment) :=
  let i := Instruction.ofText t
  match i.operands with
  | [destination, source] =>
    if i.mnemonic = "li".toText then do
      let value ← readInteger source
      return (loadImmediate destination value).map Fragment.ofInstruction
    else if i.mnemonic = Mnemonic.la.name.toText then
      let whole : Instruction := ⟨Mnemonic.la.name.toText, [destination, source]⟩
      .ok [.instruction whole.text (some .upper), .instruction whole.text (some .lower)]
    else template i
  | _ => template i
where
  template (i : Instruction) : Except (Failure Fault) (List Fragment) :=
    match (Pseudo.named? i.mnemonic).bind (·.expand? i.operands) with
    | some instructions => .ok (instructions.map Fragment.ofInstruction)
    | none => .ok [.instruction t none]

/-- The fragments of a line without its labels. -/
def expandLine (limit : Option Int) (t : Text) : Encoding (List Fragment) :=
  match Directive.ofText? t with
  | some (directive, body) => do
    let fragment ← directive.expand limit body
    return [fragment]
  | none => Outcome.ofExcept (expandInstruction t)

end MipsImage

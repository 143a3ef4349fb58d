import MipsImage.Instruction
import MipsImage.Mnemonic

/-!
# Pseudo-instructions

A pseudo-instruction stands for a fixed sequence of real ones into which its operands are put by
position. Comparisons that have to be kept until a branch use the scratch register `$1`.
-/
set_option autoImplicit false

namespace MipsImage

/-! ## Templates -/

inductive TemplateOperand where
  /-- The operand that was given at this place. -/
  | given (place : Nat)
  | fixed (token : String)
  deriving DecidableEq, Repr

structure Template where
  mnemonic : Mnemonic
  operands : List TemplateOperand
  deriving DecidableEq, Repr

def TemplateOperand.fill (operands : List Text) : TemplateOperand → Text
  | given place => operands[place]?.getD []
  | fixed token => token.toText

def Template.fill (operands : List Text) (t : Template) : Instruction :=
  ⟨t.mnemonic.name.toText, t.operands.map (TemplateOperand.fill operands)⟩

/-! ## The pseudo-instructions with templates -/

inductive Pseudo where
  | move | clear | nop | neg | not | abs | b | beqz | bnez | blt | bgt | bge | ble | bltu | bgtu
  | bgeu | bleu | sgt | sge | sle | sgtu | sgeu | sleu | seq | sne
  deriving DecidableEq, Repr

namespace Pseudo

def all : List Pseudo :=
  [.move, .clear, .nop, .neg, .not, .abs, .b, .beqz, .bnez, .blt, .bgt, .bge, .ble, .bltu, .bgtu,
   .bgeu, .bleu, .sgt, .sge, .sle, .sgtu, .sgeu, .sleu, .seq, .sne]

theorem mem_all (p : Pseudo) : p ∈ all := by cases p <;> decide

def name : Pseudo → String
  | .move => "move"
  | .clear => "clear"
  | .nop => "nop"
  | .neg => "neg"
  | .not => "not"
  | .abs => "abs"
  | .b => "b"
  | .beqz => "beqz"
  | .bnez => "bnez"
  | .blt => "blt"
  | .bgt => "bgt"
  | .bge => "bge"
  | .ble => "ble"
  | .bltu => "bltu"
  | .bgtu => "bgtu"
  | .bgeu => "bgeu"
  | .bleu => "bleu"
  | .sgt => "sgt"
  | .sge => "sge"
  | .sle => "sle"
  | .sgtu => "sgtu"
  | .sgeu => "sgeu"
  | .sleu => "sleu"
  | .seq => "seq"
  | .sne => "sne"

/-- The pseudo-instruction of this name, which is in lower case. -/
def named? (t : Text) : Option Pseudo := all.find? fun p => p.name.toText = t

/-- How many operands it takes. -/
def arity : Pseudo → Nat
  | .nop => 0
  | .clear | .b => 1
  | .move | .neg | .not | .abs | .beqz | .bnez => 2
  | _ => 3

def templates : Pseudo → List Template
  | .move => [⟨.add, [.given 0, .fixed "$0", .given 1]⟩]
  | .clear => [⟨.lui, [.given 0, .fixed "0"]⟩]
  | .nop => [⟨.sll, [.fixed "$0", .fixed "$0", .fixed "0"]⟩]
  | .neg => [⟨.sub, [.given 0, .fixed "$0", .given 1]⟩]
  | .not => [⟨.nor, [.given 0, .given 1, .fixed "$0"]⟩]
  | .abs =>
    [⟨.addu, [.given 0, .given 1, .fixed "$0"]⟩,
     ⟨.bgez, [.given 1, .fixed "8"]⟩,
     ⟨.sub, [.given 0, .fixed "$0", .given 1]⟩]
  | .b => [⟨.beq, [.fixed "$0", .fixed "$0", .given 0]⟩]
  | .beqz => [⟨.beq, [.given 0, .fixed "$0", .given 1]⟩]
  | .bnez => [⟨.bne, [.given 0, .fixed "$0", .given 1]⟩]
  | .blt =>
    [⟨.slt, [.fixed "$1", .given 0, .given 1]⟩,
     ⟨.bne, [.fixed "$1", .fixed "$0", .given 2]⟩]
  | .bgt =>
    [⟨.slt, [.fixed "$1", .given 1, .given 0]⟩,
     ⟨.bne, [.fixed "$1", .fixed "$0", .given 2]⟩]
  | .bge =>
    [⟨.slt, [.fixed "$1", .given 0, .given 1]⟩,
     ⟨.beq, [.fixed "$1", .fixed "$0", .given 2]⟩]
  | .ble =>
    [⟨.slt, [.fixed "$1", .given 1, .given 0]⟩,
     ⟨.beq, [.fixed "$1", .fixed "$0", .given 2]⟩]
  | .bltu =>
    [⟨.sltu, [.fixed "$1", .given 0, .given 1]⟩,
     ⟨.bne, [.fixed "$1", .fixed "$0", .given 2]⟩]
  | .bgtu =>
    [⟨.sltu, [.fixed "$1", .given 1, .given 0]⟩,
     ⟨.bne, [.fixed "$1", .fixed "$0", .given 2]⟩]
  | .bgeu =>
    [⟨.sltu, [.fixed "$1", .given 0, .given 1]⟩,
     ⟨.beq, [.fixed "$1", .fixed "$0", .given 2]⟩]
  | .bleu =>
    [⟨.sltu, [.fixed "$1", .given 1, .given 0]⟩,
     ⟨.beq, [.fixed "$1", .fixed "$0", .given 2]⟩]
  | .sgt => [⟨.slt, [.given 0, .given 2, .given 1]⟩]
  | .sge =>
    [⟨.slt, [.given 0, .given 1, .given 2]⟩,
     ⟨.xori, [.given 0, .given 0, .fixed "1"]⟩]
  | .sle =>
    [⟨.slt, [.given 0, .given 2, .given 1]⟩,
     ⟨.xori, [.given 0, .given 0, .fixed "1"]⟩]
  | .sgtu => [⟨.sltu, [.given 0, .given 2, .given 1]⟩]
  | .sgeu =>
    [⟨.sltu, [.given 0, .given 1, .given 2]⟩,
     ⟨.xori, [.given 0, .given 0, .fixed "1"]⟩]
  | .sleu =>
    [⟨.sltu, [.given 0, .given 2, .given 1]⟩,
     ⟨.xori, [.given 0, .given 0, .fixed "1"]⟩]
  | .seq =>
    [⟨.xor, [.given 0, .given 1, .given 2]⟩,
     ⟨.sltiu, [.given 0, .given 0, .fixed "1"]⟩]
  | .sne =>
    [⟨.xor, [.given 0, .given 1, .given 2]⟩,
     ⟨.sltu, [.given 0, .fixed "$0", .given 0]⟩]

/-- The real instructions that stand for it, if the operands are as many as it takes and none is
empty. -/
def expand? (p : Pseudo) (operands : List Text) : Option (List Instruction) :=
  if Instruction.fillsPlaces p.arity operands then
    some (p.templates.map (Template.fill operands))
  else none

end Pseudo

end MipsImage

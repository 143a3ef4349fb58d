import MipsImage.Text.Basic

/-!
# The instruction set

Each mnemonic belongs to a family, which says what operands it takes, and contributes fixed values
of some fields: the opcode, the function code of the instructions with opcode zero, and the selector
that the branches on one register and the coprocessor moves keep in a register field.
-/
set_option autoImplicit false

namespace MipsImage

/-- What an operand of an instruction is for. -/
inductive Slot where
  | rd
  | rs
  | rt
  | shiftAmount
  | immediate
  | target
  | memory
  deriving DecidableEq, Repr

inductive Family where
  | shift
  | shiftVariable
  | arithmetic
  | jumpRegister
  | moveFrom
  | moveTo
  | multiplyDivide
  | system
  | branchZero
  | branch
  | jump
  | immediate
  | upperImmediate
  | coprocessor
  | memory
  | loadAddress
  deriving DecidableEq, Repr

/-- The operands that a family takes, in source order; the count decides between several lists. -/
def Family.layouts : Family → List (List Slot)
  | .shift => [[.rd, .rt, .shiftAmount]]
  | .shiftVariable => [[.rd, .rt, .rs]]
  | .arithmetic => [[.rd, .rs, .rt]]
  | .jumpRegister => [[.rs]]
  | .moveFrom => [[.rd]]
  | .moveTo => [[.rs]]
  | .multiplyDivide => [[.rs, .rt]]
  | .system => [[]]
  | .branchZero => [[.rs, .target]]
  | .branch => [[.rs, .rt, .target]]
  | .jump => [[.target]]
  | .immediate => [[.rt, .rs, .immediate]]
  | .upperImmediate => [[.rt, .immediate]]
  | .coprocessor => [[.rt, .rd]]
  | .memory => [[.rt, .memory]]
  | .loadAddress => [[.rd, .target]]

/-- The width of the field for an immediate, an offset or an address, zero if there is none. -/
def Family.immediateBits : Family → Nat
  | .branchZero | .branch | .immediate | .upperImmediate | .memory | .loadAddress => 16
  | .jump => 26
  | _ => 0

structure Format where
  family : Family
  layouts : List (List Slot)
  immediateBits : Nat
  opcode : Nat
  rs : Nat
  rt : Nat
  funct : Nat
  deriving DecidableEq, Repr

/-- The format of a family's instructions with nothing fixed. -/
def Format.of (family : Family) : Format where
  family := family
  layouts := family.layouts
  immediateBits := family.immediateBits
  opcode := 0
  rs := 0
  rt := 0
  funct := 0

inductive Mnemonic where
  | sll | srl | sra | sllv | srlv | srav | jr | jalr | syscall | breakpoint | mfhi | mthi | mflo
  | mtlo | mult | multu | div | divu | add | addu | sub | subu | and | or | xor | nor | slt
  | sltu | bltz | bgez | bltzal | bgezal | blez | bgtz | beq | bne | j | jal | addi | addiu
  | slti | sltiu | andi | ori | xori | lui | mfc0 | mtc0 | lb | lh | lw | lbu | lhu | sb | sh
  | sw | la
  deriving DecidableEq, Repr

namespace Mnemonic

def all : List Mnemonic :=
  [.sll, .srl, .sra, .sllv, .srlv, .srav, .jr, .jalr, .syscall, .breakpoint, .mfhi, .mthi, .mflo,
   .mtlo, .mult, .multu, .div, .divu, .add, .addu, .sub, .subu, .and, .or, .xor, .nor, .slt,
   .sltu, .bltz, .bgez, .bltzal, .bgezal, .blez, .bgtz, .beq, .bne, .j, .jal, .addi, .addiu,
   .slti, .sltiu, .andi, .ori, .xori, .lui, .mfc0, .mtc0, .lb, .lh, .lw, .lbu, .lhu, .sb, .sh,
   .sw, .la]

theorem mem_all (m : Mnemonic) : m ∈ all := by cases m <;> decide

def name : Mnemonic → String
  | .sll => "sll"
  | .srl => "srl"
  | .sra => "sra"
  | .sllv => "sllv"
  | .srlv => "srlv"
  | .srav => "srav"
  | .jr => "jr"
  | .jalr => "jalr"
  | .syscall => "syscall"
  | .breakpoint => "break"
  | .mfhi => "mfhi"
  | .mthi => "mthi"
  | .mflo => "mflo"
  | .mtlo => "mtlo"
  | .mult => "mult"
  | .multu => "multu"
  | .div => "div"
  | .divu => "divu"
  | .add => "add"
  | .addu => "addu"
  | .sub => "sub"
  | .subu => "subu"
  | .and => "and"
  | .or => "or"
  | .xor => "xor"
  | .nor => "nor"
  | .slt => "slt"
  | .sltu => "sltu"
  | .bltz => "bltz"
  | .bgez => "bgez"
  | .bltzal => "bltzal"
  | .bgezal => "bgezal"
  | .blez => "blez"
  | .bgtz => "bgtz"
  | .beq => "beq"
  | .bne => "bne"
  | .j => "j"
  | .jal => "jal"
  | .addi => "addi"
  | .addiu => "addiu"
  | .slti => "slti"
  | .sltiu => "sltiu"
  | .andi => "andi"
  | .ori => "ori"
  | .xori => "xori"
  | .lui => "lui"
  | .mfc0 => "mfc0"
  | .mtc0 => "mtc0"
  | .lb => "lb"
  | .lh => "lh"
  | .lw => "lw"
  | .lbu => "lbu"
  | .lhu => "lhu"
  | .sb => "sb"
  | .sh => "sh"
  | .sw => "sw"
  | .la => "la"

/-- The mnemonic of this name, which is in lower case. -/
def named? (t : Text) : Option Mnemonic := all.find? fun m => m.name.toText = t

/-- What is the same for all instructions of a mnemonic. `la` stands for two words and has no opcode
of its own, because each of them is encoded as another instruction. -/
def format : Mnemonic → Format
  | .sll => { Format.of .shift with funct := 0x0 }
  | .srl => { Format.of .shift with funct := 0x2 }
  | .sra => { Format.of .shift with funct := 0x3 }
  | .sllv => { Format.of .shiftVariable with funct := 0x4 }
  | .srlv => { Format.of .shiftVariable with funct := 0x6 }
  | .srav => { Format.of .shiftVariable with funct := 0x7 }
  | .jr => { Format.of .jumpRegister with funct := 0x8 }
  | .jalr => { Format.of .jumpRegister with funct := 0x9, layouts := [[.rs], [.rd, .rs]] }
  | .syscall => { Format.of .system with funct := 0xc }
  | .breakpoint => { Format.of .system with funct := 0xd }
  | .mfhi => { Format.of .moveFrom with funct := 0x10 }
  | .mthi => { Format.of .moveTo with funct := 0x11 }
  | .mflo => { Format.of .moveFrom with funct := 0x12 }
  | .mtlo => { Format.of .moveTo with funct := 0x13 }
  | .mult => { Format.of .multiplyDivide with funct := 0x18 }
  | .multu => { Format.of .multiplyDivide with funct := 0x19 }
  | .div => { Format.of .multiplyDivide with funct := 0x1a }
  | .divu => { Format.of .multiplyDivide with funct := 0x1b }
  | .add => { Format.of .arithmetic with funct := 0x20 }
  | .addu => { Format.of .arithmetic with funct := 0x21 }
  | .sub => { Format.of .arithmetic with funct := 0x22 }
  | .subu => { Format.of .arithmetic with funct := 0x23 }
  | .and => { Format.of .arithmetic with funct := 0x24 }
  | .or => { Format.of .arithmetic with funct := 0x25 }
  | .xor => { Format.of .arithmetic with funct := 0x26 }
  | .nor => { Format.of .arithmetic with funct := 0x27 }
  | .slt => { Format.of .arithmetic with funct := 0x2a }
  | .sltu => { Format.of .arithmetic with funct := 0x2b }
  | .bltz => { Format.of .branchZero with opcode := 0x1, immediateBits := 21 }
  | .bgez => { Format.of .branchZero with opcode := 0x1, rt := 1 }
  | .bltzal => { Format.of .branchZero with opcode := 0x1, rt := 0x10 }
  | .bgezal => { Format.of .branchZero with opcode := 0x1, rt := 0x11 }
  | .blez => { Format.of .branchZero with opcode := 0x6, immediateBits := 21 }
  | .bgtz => { Format.of .branchZero with opcode := 0x7, immediateBits := 21 }
  | .beq => { Format.of .branch with opcode := 0x4 }
  | .bne => { Format.of .branch with opcode := 0x5 }
  | .j => { Format.of .jump with opcode := 0x2 }
  | .jal => { Format.of .jump with opcode := 0x3 }
  | .addi => { Format.of .immediate with opcode := 0x8 }
  | .addiu => { Format.of .immediate with opcode := 0x9 }
  | .slti => { Format.of .immediate with opcode := 0xa }
  | .sltiu => { Format.of .immediate with opcode := 0xb }
  | .andi => { Format.of .immediate with opcode := 0xc }
  | .ori => { Format.of .immediate with opcode := 0xd }
  | .xori => { Format.of .immediate with opcode := 0xe }
  | .lui => { Format.of .upperImmediate with opcode := 0xf }
  | .mfc0 => { Format.of .coprocessor with opcode := 0x10, rs := 0 }
  | .mtc0 => { Format.of .coprocessor with opcode := 0x10, rs := 4 }
  | .lb => { Format.of .memory with opcode := 0x20 }
  | .lh => { Format.of .memory with opcode := 0x21 }
  | .lw => { Format.of .memory with opcode := 0x23 }
  | .lbu => { Format.of .memory with opcode := 0x24 }
  | .lhu => { Format.of .memory with opcode := 0x25 }
  | .sb => { Format.of .memory with opcode := 0x28 }
  | .sh => { Format.of .memory with opcode := 0x29 }
  | .sw => { Format.of .memory with opcode := 0x2b }
  | .la => Format.of .loadAddress

end Mnemonic

end MipsImage

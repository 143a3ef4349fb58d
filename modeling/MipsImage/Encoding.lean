import MipsImage.Bits
import MipsImage.Instruction
import MipsImage.Mnemonic
import MipsImage.Outcome
import MipsImage.SymbolTable

/-!
# Encoding

An instruction is resolved to its mnemonic and the numbers in its fields, then packed into a word.
A number that is too large for its field, both as a signed and as an unsigned one, is cut to the
low bits with a warning. `la` is the exception: its address is taken whole and each of its halves
becomes an instruction of its own, so nothing is cut.
-/
set_option autoImplicit false

namespace MipsImage

abbrev Word := BitVec 32

/-- The half of an address that one of the two words of `la` loads. -/
inductive Half where
  | upper
  | lower
  deriving DecidableEq, Repr

structure Fields where
  opcode : Int
  rs : Int
  rt : Int
  rd : Int
  shamt : Int
  funct : Int
  imm : Int
  deriving DecidableEq, Repr

namespace Fields

/-- The fields that a format fixes, all others zero. -/
def ofFormat (f : Format) : Fields where
  opcode := f.opcode
  rs := f.rs
  rt := f.rt
  rd := 0
  shamt := 0
  funct := f.funct
  imm := 0

/-- The word with these fields, where the low `immediateBits` bits of the immediate are laid over
the fields that stand there. -/
def pack (f : Fields) (immediateBits : Nat) : Word :=
  let field (value : Int) (position : Nat) : Word := BitVec.ofInt 32 value <<< position
  field f.opcode 26 ||| field f.rs 21 ||| field f.rt 16 ||| field f.rd 11 ||| field f.shamt 6 |||
    field f.funct 0 ||| (BitVec.ofInt 32 f.imm &&& BitVec.ofNat 32 (Bits.count immediateBits - 1))

/-- The fields of the instruction that loads half of the address in `imm` into register `rd`: the
upper half goes to the scratch register, with which the lower half is then combined. -/
def loadHalf (half : Half) (f : Fields) : Fields :=
  let address := Bits.low 32 f.imm
  match half with
  | .upper =>
    { ofFormat Mnemonic.lui.format with rt := Register.scratch.val, imm := Bits.high 16 address }
  | .lower =>
    { ofFormat Mnemonic.ori.format with
      rs := Register.scratch.val, rt := f.rd, imm := Bits.low 16 address }

end Fields

/-! ## Resolving operands -/

abbrev Encoding (α : Type) := Outcome Truncation (Failure Fault) α

/-- The low bits of a value, with a warning if it fits neither as signed nor as unsigned. -/
def fit (value : Int) (bits : Nat) (token : Text) : Encoding Int :=
  let low : Int := Bits.low bits value
  if Bits.fits bits value then Outcome.ok low else Outcome.noting ⟨token, bits⟩ low

/-- The fields after one more operand has been put into its slot. -/
def place (format : Format) (symbols : SymbolTable) (fields : Fields) (slot : Slot)
    (token : Text) : Encoding Fields :=
  match slot with
  | .rd => do
    let r ← Register.parse token
    pure { fields with rd := r.val }
  | .rs => do
    let r ← Register.parse token
    pure { fields with rs := r.val }
  | .rt => do
    let r ← Register.parse token
    pure { fields with rt := r.val }
  | .shiftAmount => do
    let value ← readInteger token
    let low ← fit value 5 token
    pure { fields with shamt := low }
  | .immediate => do
    let value ← readInteger token
    let low ← fit value format.immediateBits token
    pure { fields with imm := low }
  | .target => do
    let address ← symbols.resolveTarget token
    if format.family = .loadAddress then pure { fields with imm := address }
    else do
      let low ← fit address format.immediateBits token
      pure { fields with imm := low }
  | .memory => do
    let (base, offset) ← symbols.resolveMemory token
    let low ← fit offset format.immediateBits token
    pure { fields with rs := base.val, imm := low }

def placeAll (format : Format) (symbols : SymbolTable) (fields : Fields) :
    List (Slot × Text) → Encoding Fields
  | [] => pure fields
  | (slot, token) :: rest => do
    let fields ← place format symbols fields slot token
    placeAll format symbols fields rest

/-- The slots for these operands, if the format takes as many and none is empty. -/
def Format.layoutFor? (format : Format) (operands : List Text) : Option (List Slot) :=
  format.layouts.find? fun layout => Instruction.fillsPlaces layout.length operands

/-- The mnemonic and the fields of an instruction; the two halves of `la` are told apart later. -/
def resolve (symbols : SymbolTable) (i : Instruction) : Encoding (Mnemonic × Fields) :=
  let unknown : Failure Fault := .fault (.unknownInstruction i.mnemonic i.operands)
  match Mnemonic.named? i.mnemonic with
  | none => Outcome.fail unknown
  | some m =>
    match m.format.layoutFor? i.operands with
    | none => Outcome.fail unknown
    | some layout => do
      let fields ← placeAll m.format symbols (.ofFormat m.format) (layout.zip i.operands)
      pure (m, fields)

/-! ## Words -/

/-- The word for an instruction; `half` says which word of `la` is meant and is without effect on
all others. -/
def encode (symbols : SymbolTable) (half : Option Half) (text : Text) : Encoding Word :=
  let i := Instruction.ofText text
  match Mnemonic.named? i.mnemonic, half with
  | some .la, none => Outcome.fail (.fault (.unknownInstruction i.mnemonic i.operands))
  | some .la, some half => do
    let (_, fields) ← resolve symbols i
    pure ((fields.loadHalf half).pack Mnemonic.la.format.immediateBits)
  | _, _ => do
    let (m, fields) ← resolve symbols i
    pure (fields.pack m.format.immediateBits)

end MipsImage

import MipsImage.Encoding

/-!
# A machine for words

What those words do that pseudo-instructions are expanded to: an instruction writes one register or
asks for a branch. Registers hold words, register zero always holds zero, and an addition or a
subtraction that overflows wraps around.
-/
set_option autoImplicit false

namespace MipsImage

structure Registers where
  read : Register → Word
  zero : read Register.zero = 0

namespace Registers

theorem ext_read {R S : Registers} (h : ∀ r, R.read r = S.read r) : R = S := by
  obtain ⟨read, _⟩ := R
  obtain ⟨other, _⟩ := S
  have same : read = other := funext h
  subst same
  rfl

/-- The registers after a value was written to one of them; nothing is written to register zero. -/
def write (R : Registers) (d : Register) (value : Word) : Registers where
  read r := if r = d ∧ d ≠ Register.zero then value else R.read r
  zero := by
    rw [if_neg]
    · exact R.zero
    · rintro ⟨rfl, other⟩
      exact other rfl

@[simp] theorem read_write_of_ne (R : Registers) {d r : Register} (value : Word) (h : r ≠ d) :
    (R.write d value).read r = R.read r :=
  if_neg fun both => h both.1

theorem read_write_self (R : Registers) {d : Register} (value : Word) (h : d ≠ Register.zero) :
    (R.write d value).read d = value :=
  if_pos ⟨rfl, h⟩

theorem read_write_scratch (R : Registers) (value : Word) :
    (R.write Register.scratch value).read Register.scratch = value :=
  R.read_write_self value (by decide)

/-- The register that is written second may depend on what was written to it first. -/
theorem write_write (R : Registers) (d : Register) (value : Word) (f : Word → Word) :
    (R.write d value).write d (f ((R.write d value).read d)) = R.write d (f value) := by
  apply ext_read
  intro r
  by_cases h : r = d ∧ d ≠ Register.zero
  · obtain ⟨rfl, other⟩ := h
    rw [read_write_self _ _ other, read_write_self _ _ other, read_write_self _ _ other]
  · have kept (S : Registers) (other : Word) : (S.write d other).read r = S.read r := if_neg h
    rw [kept, kept, kept]

end Registers

/-- What an instruction does with the registers that it finds. -/
inductive Operation where
  | write (d : Register) (value : Word)
  | branch (taken : Bool) (offset : BitVec 16)
  deriving DecidableEq, Repr

namespace Word

/-! ## Decoding -/

def opcode (w : Word) : BitVec 6 := w.extractLsb' 26 6

def source (w : Word) : Register := (w.extractLsb' 21 5).toFin

def target (w : Word) : Register := (w.extractLsb' 16 5).toFin

def destination (w : Word) : Register := (w.extractLsb' 11 5).toFin

def function (w : Word) : BitVec 6 := w.extractLsb' 0 6

def immediate (w : Word) : BitVec 16 := w.extractLsb' 0 16

/-! ## Execution -/

/-- One or zero, as something is the case or not. -/
def flag (b : Bool) : Word := if b then 1 else 0

/-- What the instructions with opcode zero compute from their two source registers. -/
def arithmetic? (function : BitVec 6) (x y : Word) : Option Word :=
  match function with
  | 0x20#6 | 0x21#6 => some (x + y)
  | 0x22#6 | 0x23#6 => some (x - y)
  | 0x24#6 => some (x &&& y)
  | 0x25#6 => some (x ||| y)
  | 0x26#6 => some (x ^^^ y)
  | 0x27#6 => some (~~~(x ||| y))
  | 0x2a#6 => some (flag (decide (x.toInt < y.toInt)))
  | 0x2b#6 => some (flag (decide (x.toNat < y.toNat)))
  | _ => none

/-- What the instructions with an immediate compute from it and their source register. -/
def withImmediate? (opcode : BitVec 6) (x : Word) (immediate : BitVec 16) : Option Word :=
  match opcode with
  | 0x0b#6 => some (flag (decide (x.toNat < (immediate.signExtend 32).toNat)))
  | 0x0d#6 => some (x ||| immediate.setWidth 32)
  | 0x0e#6 => some (x ^^^ immediate.setWidth 32)
  | 0x0f#6 => some (immediate.setWidth 32 <<< 16)
  | _ => none

/-- What a word does, if it is one of the instructions that are described here. -/
def operation? (w : Word) (R : Registers) : Option Operation :=
  match w.opcode with
  | 0x00#6 =>
    (arithmetic? w.function (R.read w.source) (R.read w.target)).map (.write w.destination)
  | 0x04#6 => some (.branch (R.read w.source == R.read w.target) w.immediate)
  | 0x05#6 => some (.branch (R.read w.source != R.read w.target) w.immediate)
  | opcode => (withImmediate? opcode (R.read w.source) w.immediate).map (.write w.target)

theorem operation?_of_immediate {w : Word} {R : Registers} {value : Word}
    (h : withImmediate? w.opcode (R.read w.source) w.immediate = some value) :
    w.operation? R = some (.write w.target value) := by
  unfold operation?
  split
  · rename_i opcode
    rw [opcode] at h
    cases h
  · rename_i opcode
    rw [opcode] at h
    cases h
  · rename_i opcode
    rw [opcode] at h
    cases h
  · rw [h]
    rfl

/-- The registers after words in order, none of which is a branch. -/
def run (R : Registers) : List Word → Option Registers
  | [] => some R
  | w :: rest =>
    match w.operation? R with
    | some (.write d value) => run (R.write d value) rest
    | _ => none

end Word

end MipsImage

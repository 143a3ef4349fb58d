import MipsImage.Label
import MipsImage.Numeral
import MipsImage.Register

/-!
# Symbols and operands that refer to them

A symbol table gives labels their addresses. A target is an integer literal or a label; a memory
operand is a register in parentheses after an optional offset, or a label, which stands for the
label's address with register zero.
-/
set_option autoImplicit false

namespace MipsImage

abbrev SymbolTable := List (Text × Int)

namespace SymbolTable

/-- A literal is never looked up. -/
def resolveTarget (symbols : SymbolTable) (token : Text) : Except (Failure Fault) Int :=
  if isInteger token then readInteger token
  else match symbols.lookup token with
    | some address => .ok address
    | none =>
      if Label.isName token then .error (.fault (.unknownLabel token))
      else .error (.fault (.invalidOffset token))

/-- The offset, if one is written, and the register name of an operand `offset($name)`. -/
def indexed? (token : Text) : Option (Option Numeral × Text) :=
  match Text.cut '(' token with
  | (offset, some ('$' :: rest)) =>
    let name := rest.takeWhile Text.isWordChar
    match rest.dropWhile Text.isWordChar with
    | ')' :: after =>
      if name = [] || !Text.isAtEnd after then none
      else if offset = [] then some (none, '$' :: name)
      else (Numeral.ofText? offset).map fun numeral => (some numeral, '$' :: name)
    | _ => none
  | _ => none

/-- The base register and the offset of a memory operand. -/
def resolveMemory (symbols : SymbolTable) (token : Text) :
    Except (Failure Fault) (Register × Int) :=
  match indexed? token with
  | some (offset, name) => do
    let base ← Register.parse name
    match offset with
    | none => pure (base, 0)
    | some numeral => pure (base, ← numeral.convert)
  | none =>
    match symbols.lookup token with
    | some address => .ok (Register.zero, address)
    | none => .error (.fault (.invalidMemoryOperand token))

end SymbolTable

end MipsImage

import MipsImage.Fault
import MipsImage.Text.Digit

/-!
# Integer literals

A literal is an optional minus, then decimal digits of any script or `0x` and hexadecimal digits.
Reading keeps the digits apart from their value, because a decimal literal may be recognised and
still be too long to be converted. Blanks around a literal are ignored.
-/
set_option autoImplicit false

namespace MipsImage

inductive Radix where
  | decimal
  | hexadecimal
  deriving DecidableEq, Repr

def Radix.base : Radix → Nat
  | decimal => 10
  | hexadecimal => 16

/-- A literal as written: `digits` holds the digits' values, most significant first. -/
structure Numeral where
  negative : Bool
  radix : Radix
  digits : List Nat
  deriving DecidableEq, Repr

namespace Numeral

/-- The most decimal digits that are converted, leading zeros included. -/
def maxDecimalDigits : Nat := 4300

/-! ## Reading -/

/-- What follows the mark of a hexadecimal literal. -/
def afterHexMark? : Text → Option Text
  | '0' :: 'x' :: rest => some rest
  | '0' :: 'X' :: rest => some rest
  | _ => none

def unsigned? (t : Text) : Option (Radix × List Nat) :=
  match afterHexMark? t with
  | some [] => none
  | some rest => (Text.digits? Text.hexDigit? rest).map (Radix.hexadecimal, ·)
  | none => if t = [] then none else (Text.digits? Text.decimalDigit? t).map (Radix.decimal, ·)

/-- The literal that a text is, blanks counting as part of the text. -/
def ofText? : Text → Option Numeral
  | '-' :: rest => (unsigned? rest).map fun (radix, digits) => ⟨true, radix, digits⟩
  | t => (unsigned? t).map fun (radix, digits) => ⟨false, radix, digits⟩

/-- The literal that a token is, blanks around it being ignored. -/
def ofToken? (token : Text) : Option Numeral := ofText? (Text.trim token)

/-! ## Value -/

def magnitude (n : Numeral) : Nat :=
  n.digits.foldl (fun value digit => value * n.radix.base + digit) 0

def value (n : Numeral) : Int := if n.negative then -(n.magnitude : Int) else n.magnitude

def isOverlong (n : Numeral) : Bool :=
  n.radix = .decimal && decide (maxDecimalDigits < n.digits.length)

def convert (n : Numeral) : Except (Failure Fault) Int :=
  if n.isOverlong then .error (.conversion (.overlong n.digits.length)) else .ok n.value

/-! ## Writing -/

/-- The decimal digits of a natural number, with no leading zero. -/
def decimalText (n : Nat) : Text :=
  if n < 10 then [Nat.digitChar n]
  else decimalText (n / 10) ++ [.char (Nat.digitChar (n % 10))]
termination_by n

end Numeral

def isInteger (token : Text) : Bool := (Numeral.ofToken? token).isSome

def readInteger (token : Text) : Except (Failure Fault) Int :=
  match Numeral.ofToken? token with
  | some numeral => numeral.convert
  | none => .error (.fault (.invalidLiteral token))

end MipsImage

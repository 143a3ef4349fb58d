import MipsImage.Text.Surrogate
import MipsImage.Width

/-!
# Faults, failures and warnings

A fault is the reason why a source cannot be assembled, and `Fault.message` is its wording. An
operation fails with a fault or on a conversion that cannot be made, of a decimal numeral that is
too long or of a lone surrogate; the latter never gets a line. A truncation is worth a warning only.
-/
set_option autoImplicit false

namespace MipsImage

/-! ## Causes -/

inductive EscapeFault where
  /-- A backslash before something that it cannot introduce. -/
  | unrecognised (sequence : Text)
  /-- A backslash with nothing after it. -/
  | dangling
  deriving DecidableEq, Repr

inductive Fault where
  | duplicateLabel (label : Text) (lines : List Int)
  | unknownLabel (label : Text)
  | invalidRegister (token : Text)
  | invalidLiteral (token : Text)
  | invalidOffset (token : Text)
  | invalidMemoryOperand (token : Text)
  | unknownInstruction (mnemonic : Text) (operands : List Text)
  /-- The body of a string directive is not one quoted string. -/
  | unquotedString (body : Text)
  /-- An item of an integer directive is no integer. -/
  | invalidDatum (width : Width) (token : Text)
  /-- The body of a directive that takes a power of two is no exponent within the address space. -/
  | invalidExponent (body : Text)
  | invalidEscape (body : Text) (reason : EscapeFault)
  | imageTooLarge (limit : Int)
  deriving DecidableEq, Repr

/-- A value had more bits than its place; `token` is how it was written. -/
structure Truncation where
  token : Text
  bits : Nat
  deriving DecidableEq, Repr

/-- What cannot be converted, whatever it stands for in the source. -/
inductive Unconvertible where
  /-- A decimal numeral of `digits` digits to an integer: that is too many. -/
  | overlong (digits : Nat)
  /-- Lone surrogates to bytes. -/
  | surrogates (run : SurrogateRun)
  deriving DecidableEq, Repr

/-! ## Wording -/

def quote (t : Text) : Text := .char '\'' :: t ++ [.char '\'']

def EscapeFault.message : EscapeFault → Text
  | unrecognised sequence =>
    "unrecognised escape sequence ".toText ++ quote (.char '\\' :: sequence)
  | dangling => "dangling backslash".toText

/-- An instruction as it is quoted in a message. -/
def instructionText (mnemonic : Text) (operands : List Text) : Text :=
  Text.trim (mnemonic ++ .char ' ' :: Text.join ", ".toText operands)

def Fault.message : Fault → Text
  | duplicateLabel label lines =>
    let listed := String.intercalate ", " (lines.map toString)
    "Label ".toText ++ quote label ++ s!" declared multiple times on lines: {listed}".toText
  | unknownLabel label => "Label ".toText ++ quote label ++ " was not found.".toText
  | invalidRegister token => "Invalid register name: ".toText ++ quote token
  | invalidLiteral token => "Invalid integer literal: ".toText ++ quote token
  | invalidOffset token =>
    "Invalid offset ".toText ++ quote token ++
      ". Offsets should be a valid label or integer.".toText
  | invalidMemoryOperand token =>
    "Invalid memory operand ".toText ++ quote token ++
      ". Expected 'offset($reg)', '($reg)' or a defined label.".toText
  | unknownInstruction mnemonic operands =>
    "Invalid instruction: ".toText ++ quote (instructionText mnemonic operands)
  | unquotedString body =>
    quote body ++ " is not a valid string. Reason: Quote syntax incorrect.".toText
  | invalidDatum width token => s!"Invalid {width.name} literal: ".toText ++ token
  | invalidExponent body => "Invalid integer literal: ".toText ++ body
  | invalidEscape body reason =>
    "\"".toText ++ body ++ "\" is not a valid string. Reason: ".toText ++ reason.message ++
      ".".toText
  | imageTooLarge limit => s!"Image exceeds the maximum size of {limit} bytes.".toText

def Unconvertible.message : Unconvertible → Text
  | overlong digits =>
    (s!"Exceeds the limit (4300 digits) for integer string conversion: value has {digits} " ++
      "digits; use sys.set_int_max_str_digits() to increase the limit").toText
  | surrogates run => run.message.toText

def Truncation.message (t : Truncation) : Text := t.token ++ s!" truncated to {t.bits} bits".toText

/-! ## Failures and lines -/

inductive Failure (ε : Type) where
  | fault (cause : ε)
  | conversion (cause : Unconvertible)
  deriving DecidableEq, Repr

def Failure.map {ε ε₂ : Type} (f : ε → ε₂) : Failure ε → Failure ε₂
  | fault cause => fault (f cause)
  | conversion cause => conversion cause

structure LocatedFault where
  line : Int
  fault : Fault
  deriving DecidableEq, Repr

structure Warning where
  line : Int
  truncation : Truncation
  deriving DecidableEq, Repr

end MipsImage

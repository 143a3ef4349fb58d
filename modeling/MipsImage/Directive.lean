import MipsImage.Bits
import MipsImage.Bytes
import MipsImage.Fragment
import MipsImage.Numeral
import MipsImage.Quoted
import MipsImage.StringBody

/-!
# Data directives

A data directive is its name, one space and a body: a quoted string, integers between commas, or
an exponent of two that gives a number of reserved bytes or a boundary.
-/
set_option autoImplicit false

namespace MipsImage

inductive Directive where
  | ascii
  /-- A string that a zero byte closes. -/
  | asciiz
  | integers (width : Width)
  /-- As many zero bytes as the power of two says. -/
  | space
  | align
  deriving DecidableEq, Repr

namespace Directive

def all : List Directive :=
  [ascii, asciiz, integers .byte, integers .half, integers .word, space, align]

theorem mem_all (d : Directive) : d ∈ all := by
  cases d with
  | integers width => cases width <;> decide
  | _ => decide

/-- The name with the point that begins it. -/
def name : Directive → Text
  | ascii => ".ascii".toText
  | asciiz => ".asciiz".toText
  | integers width => '.' :: width.name.toText
  | space => ".space".toText
  | align => ".align".toText

def named? (t : Text) : Option Directive := all.find? (·.name = t)

/-- The directive and its body, if the text is one line with a known name. -/
def ofText? (t : Text) : Option (Directive × Text) :=
  match Text.cut ' ' t with
  | (_, none) => none
  | (name, some rest) =>
    match named? name with
    | none => none
    | some directive =>
      let body := rest.takeWhile (· ≠ .char '\n')
      let after := rest.dropWhile (· ≠ .char '\n')
      if body ≠ [] ∧ Text.isAtEnd after then some (directive, body) else none

/-- The largest exponent of two within the address space. -/
def maxExponent : Int := 31

/-- The bytes of a quoted string. -/
def stringBytes (body : Text) : Except (Failure Fault) Bytes :=
  match Quoted.body? body with
  | some inner => StringBody.decode inner
  | none => .error (.fault (.unquotedString body))

/-- The bytes of one integer; one that has too many bits is cut to the low ones with a warning. -/
def datum (width : Width) (token : Text) : Encoding Bytes :=
  let bits := width.bitCount
  if isInteger token then do
    let value ← readInteger token
    let bytes := Bytes.bigEndian width.byteCount (Bits.low bits value)
    if Bits.fitsUnsigned bits value then Outcome.ok bytes else Outcome.noting ⟨token, bits⟩ bytes
  else Outcome.fail (.fault (.invalidDatum width token))

/-- The bytes of integers, up to the first token that is none. -/
def data (width : Width) : List Text → Encoding Bytes
  | [] => pure []
  | token :: rest => do
    let bytes ← datum width token
    let more ← data width rest
    pure (bytes ++ more)

/-- A size, if it is within the limit. -/
def checkSize (limit : Option Int) (size : Nat) : Except (Failure Fault) Nat :=
  match limit with
  | some most => if most < size then .error (.fault (.imageTooLarge most)) else .ok size
  | none => .ok size

/-- The power of two whose exponent is written, if it is within the limit. -/
def powerOfTwo (limit : Option Int) (body : Text) : Except (Failure Fault) Nat :=
  if isInteger body then do
    let exponent ← readInteger body
    if 0 ≤ exponent ∧ exponent ≤ maxExponent then checkSize limit (Bits.count exponent.toNat)
    else .error (.fault (.invalidExponent body))
  else .error (.fault (.invalidExponent body))

/-- The fragment that a directive stands for. The limit bounds one reservation or boundary. -/
def expand (limit : Option Int) (body : Text) : Directive → Encoding Fragment
  | ascii => do
    let bytes ← stringBytes body
    return .data bytes
  | asciiz => do
    let bytes ← stringBytes body
    return .data (bytes ++ [0])
  | integers width => do
    let bytes ← data width ((Text.splitOn ',' body).map Text.trim)
    return .data bytes
  | space => do
    let size ← powerOfTwo limit body
    return .space size
  | align => do
    let size ← powerOfTwo limit body
    return .align size

end Directive

end MipsImage
